import Mathlib.Data.List.Basic
import MediaTransport.Proofs.Pacing.Record
import MediaTransport.Proofs.Pacing.Window

/-!
# Packets keep their distance

While the worker reads one and the same limit of `n` packets in a period, a packet starts no earlier
than a period after the sending of the one `n` before it was over, whatever the limits before that
were, and so no stretch of a period touches more than `n` sendings (`spacing_of_steady`).

What carries this through a run is that the window remembers (`Remembers`): read from the latest
moment back, it starts with the ends of the sendings under the present limit, up to `n` of them. A
lower limit cuts the window short and no limit empties it, but then the limit is no longer the same.
-/

namespace MediaTransport

variable {α : Type}

namespace Sending

/-- The limits read for a packet, the latest first. -/
def reads (x : Sending α) : List (Option RateLimit) := x.limit :: x.waited

/-- Whether some of a sending falls between two moments, of which the second is not included. A
sending that is not over reaches on. -/
def overlaps (x : Sending α) (start stop : Instant) : Bool :=
  match x.started, x.finished with
  | some started, some finished => started < stop && start ≤ finished
  | some started, none => started < stop
  | none, _ => false

theorem started_of_overlaps {x : Sending α} {start stop : Instant}
    (h : x.overlaps start stop = true) :
    ∃ started, x.started = some started ∧ started < stop := by
  unfold overlaps at h
  split at h
  next started finished hstarted _ =>
    exact ⟨started, hstarted, of_decide_eq_true (Bool.and_eq_true_iff.1 h).1⟩
  next started hstarted _ => exact ⟨started, hstarted, of_decide_eq_true h⟩
  next => cases h

theorem not_overlaps_of_finished {x : Sending α} {start stop finished : Instant}
    (hfinished : x.finished = some finished) (hlt : finished < start) :
    x.overlaps start stop = false := by
  unfold overlaps
  rw [hfinished]
  cases x.started with
  | none => rfl
  | some started => exact Bool.and_eq_false_iff.2 (.inr (decide_eq_false (Int.not_le.2 hlt)))

end Sending

/-- Sendings in a row, the latest first, where `limit` is what was read each time from the decision
for the first packet to the decision for the last. What was read before the decision for the first
does not count. -/
structure Steady (limit : RateLimit) (xs : List (Sending α)) : Prop where
  granted : ∀ x ∈ xs, x.limit = some limit
  waited : ∀ x ∈ xs.dropLast, ∀ read ∈ x.waited, read = some limit

namespace Steady

variable {limit : RateLimit} {x : Sending α} {xs ys : List (Sending α)}

theorem of_infix (h : Steady limit ys) (hxs : xs <:+: ys) : Steady limit xs := by
  obtain ⟨newer, older, rfl⟩ := hxs
  refine ⟨fun x hx => h.granted x ?_, fun x hx => h.waited x ?_⟩
  · exact List.mem_append_left _ (List.mem_append_right _ hx)
  · cases older with
    | nil =>
      have hne := List.ne_nil_of_mem ((List.dropLast_sublist _).mem hx)
      rw [List.append_nil, List.dropLast_append_of_ne_nil hne]
      exact List.mem_append_right _ hx
    | cons y older =>
      rw [List.dropLast_append_of_ne_nil (List.cons_ne_nil y older)]
      exact List.mem_append_left _ (List.mem_append_right _ ((List.dropLast_sublist _).mem hx))

theorem tail (h : Steady limit (x :: xs)) : Steady limit xs :=
  h.of_infix (List.suffix_cons x xs).isInfix

/-- All that was read for a packet that is not the first. -/
theorem reads_eq (h : Steady limit (x :: xs)) (hne : xs ≠ []) :
    ∀ read ∈ x.reads, read = some limit := by
  intro read hread
  rcases List.mem_cons.1 hread with rfl | hwaited
  · exact h.granted x List.mem_cons_self
  · refine h.waited x ?_ read hwaited
    rw [List.dropLast_cons_of_ne_nil hne]
    exact List.mem_cons_self

end Steady

/-! ## The window remembers -/

/-- The moments at which sendings were over, the latest first. -/
def finishes (xs : List (Sending α)) : List Instant := xs.filterMap Sending.finished

theorem length_finishes {xs : List (Sending α)} (h : ∀ x ∈ xs, ∃ done, x.finished = some done) :
    (finishes xs).length = xs.length := by
  induction xs with
  | nil => rfl
  | cons x xs ih =>
    obtain ⟨done, hdone⟩ := h x List.mem_cons_self
    have hrest := ih fun y hy => h y (List.mem_cons_of_mem _ hy)
    unfold finishes at hrest ⊢
    rw [List.filterMap_cons_some hdone, List.length_cons, List.length_cons, hrest]

theorem finishes_append_cons {x : Sending α} {done : Instant} (hdone : x.finished = some done)
    (newer older : List (Sending α)) :
    finishes (newer ++ x :: older) = finishes newer ++ done :: finishes older := by
  unfold finishes
  rw [List.filterMap_append, List.filterMap_cons_some hdone]

/-- The window starts with the ends of the sendings `xs` that were under one limit, if that limit is
all that was read since: with as many of them as the limit allows, less those that were
`displaced`. -/
def Remembers (w : Window) (displaced : Nat) (since : List (Option RateLimit))
    (xs : List (Sending α)) : Prop :=
  ∀ limit, (∀ read ∈ since, read = some limit) → ∀ ys, ys <+: xs → Steady limit ys →
    (finishes ys).take (limit.maxPackets.toNat - displaced) <+: w.stamps.reverse

namespace Remembers

variable {w : Window} {since : List (Option RateLimit)} {xs : List (Sending α)}

/-- A check that makes the packet wait forgets nothing that matters. -/
theorem wait {limit : Option RateLimit} {now : Instant} (h : Remembers w 0 since xs)
    (hwait : (w.check limit now).2 ≠ .granted) :
    Remembers (w.check limit now).1 0 (limit :: since) xs := by
  intro steady hreads ys hys hsteady
  obtain rfl : limit = some steady := hreads limit List.mem_cons_self
  have hkept :=
    h steady (fun read hread => hreads read (List.mem_cons_of_mem _ hread)) ys hys hsteady
  obtain ⟨count, hstamps, -, hcount⟩ := w.reverse_stamps_check steady now
  rw [hstamps, List.prefix_take_iff]
  refine ⟨hkept, ?_⟩
  have := hcount hwait
  rw [List.length_take]
  omega

/-- A packet that gets a slot displaces one moment at most. -/
theorem grant {limit : Option RateLimit} {now : Instant} (h : Remembers w 0 since xs) :
    Remembers (w.check limit now).1 1 (limit :: since) xs := by
  intro steady hreads ys hys hsteady
  obtain rfl : limit = some steady := hreads limit List.mem_cons_self
  have hkept :=
    h steady (fun read hread => hreads read (List.mem_cons_of_mem _ hread)) ys hys hsteady
  obtain ⟨count, hstamps, hcount, -⟩ := w.reverse_stamps_check steady now
  rw [hstamps, List.prefix_take_iff]
  refine ⟨(List.take_prefix_take_left (Nat.sub_le_sub_left (Nat.zero_le 1) _)).trans hkept, ?_⟩
  rw [List.length_take]
  omega

/-- The end of a sending takes the place of the displaced moment. -/
theorem finish {x : Sending α} {now : Instant} (h : Remembers w 1 x.reads xs)
    (hx : x.finished = some now) : Remembers (w.stamp now) 0 [] (x :: xs) := by
  intro steady _ ys hys hsteady
  rcases List.prefix_cons_iff.1 hys with rfl | ⟨zs, rfl, hzs⟩
  · rw [finishes, List.filterMap_nil, List.take_nil]
    exact List.nil_prefix
  · have hlater : finishes (x :: zs) = now :: finishes zs := List.filterMap_cons_some hx
    rw [hlater, Window.stamps_stamp, List.reverse_append, List.reverse_singleton,
      List.singleton_append]
    cases hcount : steady.maxPackets.toNat with
    | zero => exact List.nil_prefix
    | succ count =>
      rw [Nat.sub_zero, List.take_succ_cons, List.prefix_cons_inj]
      cases zs with
      | nil =>
        rw [finishes, List.filterMap_nil, List.take_nil]
        exact List.nil_prefix
      | cons z zs =>
        have hkept := h steady (hsteady.reads_eq (List.cons_ne_nil z zs)) _ hzs hsteady.tail
        rwa [hcount, Nat.add_sub_cancel] at hkept

end Remembers

/-! ## Sendings in their order -/

/-- The place of a sending behind the earlier ones `xs`, at a moment `clock` that is not before
anything recorded. -/
structure Sending.Follows (clock : Instant) (x : Sending α) (xs : List (Sending α)) : Prop where
  granted_le : x.granted ≤ clock
  granted_le_started : ∀ started, x.started = some started → x.granted ≤ started
  finished_mem : ∀ finished, x.finished = some finished → x.granted ≤ finished ∧ finished ≤ clock
  /-- The earlier ones were over. -/
  after : ∀ y ∈ xs, ∃ done, y.finished = some done ∧ done ≤ x.granted
  /-- As many as the limit allows before this one stands `first`. -/
  spaced : ∀ limit between first older, xs = between ++ first :: older →
    (∀ read ∈ x.reads, read = some limit) → Steady limit (between ++ [first]) →
    between.length + 1 = limit.maxPackets.toNat →
    ∃ done, first.finished = some done ∧ done + limit.periodNanos ≤ x.granted

/-- Every sending follows the earlier ones. -/
def Orderly (clock : Instant) : List (Sending α) → Prop
  | [] => True
  | x :: xs => x.Follows clock xs ∧ Orderly clock xs

namespace Orderly

variable {clock now : Instant} {x : Sending α} {xs : List (Sending α)}

theorem mono (h : Orderly clock xs) (hclock : clock ≤ now) : Orderly now xs := by
  induction xs with
  | nil => trivial
  | cons x xs ih =>
    obtain ⟨hx, hxs⟩ := h
    refine ⟨{ hx with
      granted_le := Int.le_trans hx.granted_le hclock
      finished_mem := fun finished hfinished => ?_ }, ih hxs⟩
    obtain ⟨hgranted, hle⟩ := hx.finished_mem finished hfinished
    exact ⟨hgranted, Int.le_trans hle hclock⟩

theorem of_append {newer : List (Sending α)} (h : Orderly clock (newer ++ xs)) :
    Orderly clock xs := by
  induction newer with
  | nil => exact h
  | cons y newer ih => exact ih h.2

theorem follows {newer : List (Sending α)} (h : Orderly clock (newer ++ x :: xs)) :
    x.Follows clock xs :=
  h.of_append.1

theorem start (h : Orderly clock (x :: xs)) (hclock : clock ≤ now) :
    Orderly now ({ x with started := some now } :: xs) := by
  obtain ⟨hx, hxs⟩ := h.mono hclock
  refine ⟨{ hx with granted_le_started := fun started hstarted => ?_ }, hxs⟩
  cases hstarted
  exact hx.granted_le

theorem finish (h : Orderly clock (x :: xs)) (hclock : clock ≤ now) :
    Orderly now ({ x with finished := some now } :: xs) := by
  obtain ⟨hx, hxs⟩ := h.mono hclock
  refine ⟨{ hx with finished_mem := fun finished hfinished => ?_ }, hxs⟩
  cases hfinished
  exact ⟨hx.granted_le, Int.le_refl now⟩

/-- A slot that the window grants comes a period after the end of the sending as many before as the
limit allows. -/
theorem grant {w : Window} {p : α} {limit : Option RateLimit} {waited : List (Option RateLimit)}
    (h : Orderly clock xs) (hclock : clock ≤ now)
    (hdone : ∀ x ∈ xs, ∃ done, x.finished = some done)
    (hkept : Remembers w 0 waited xs) (hgranted : (w.check limit now).2 = .granted) :
    Orderly now ({ packet := p, limit, waited, granted := now } :: xs) := by
  refine ⟨⟨Int.le_refl now, nofun, nofun, fun y hy => ?_, ?_⟩, h.mono hclock⟩
  · obtain ⟨done, hy'⟩ := hdone y hy
    obtain ⟨newer, older, rfl⟩ := List.append_of_mem hy
    exact ⟨done, hy', Int.le_trans (h.follows.finished_mem done hy').2 hclock⟩
  · intro steady between first older hxs hreads hsteady hlen
    obtain rfl : limit = some steady := hreads limit List.mem_cons_self
    have hpre : between ++ [first] <+: xs := ⟨older, by rw [hxs, List.append_assoc]; rfl⟩
    have hgroup : ∀ x ∈ between ++ [first], ∃ done, x.finished = some done :=
      fun x hx => hdone x (hpre.subset hx)
    obtain ⟨done, hfirst⟩ := hgroup first List.mem_concat_self
    have hall : finishes (between ++ [first]) = finishes between ++ [done] :=
      finishes_append_cons hfirst between []
    have hcount : (finishes between).length = between.length :=
      length_finishes fun x hx => hgroup x (List.mem_append_left _ hx)
    have hstamps :=
      hkept steady (fun read hread => hreads read (List.mem_cons_of_mem _ hread)) _ hpre hsteady
    rw [hall, List.take_of_length_le] at hstamps
    · refine ⟨done, hfirst, Window.add_period_le_of_granted hgranted hstamps ?_⟩
      omega
    · rw [List.length_append, List.length_singleton]
      omega

end Orderly

/-! ## Runs -/

namespace RecordedPacer

/-- What a run keeps up to the moment `clock`. -/
inductive Inv (clock : Instant) (r : RecordedPacer α) : Prop
  | resting (hphase : r.pacer.phase.IsResting) (horderly : Orderly clock r.sendings)
      (hdone : ∀ x ∈ r.sendings, ∃ done, x.finished = some done)
      (hkept : Remembers r.pacer.window 0 r.waited r.sendings)
  | sending {x : Sending α} {xs : List (Sending α)} (hphase : ¬r.pacer.phase.IsResting)
      (hsendings : r.sendings = x :: xs) (hwaited : r.waited = [])
      (horderly : Orderly clock (x :: xs)) (hkept : Remembers r.pacer.window 1 x.reads xs)

theorem Inv.mono {clock now : Instant} {r : RecordedPacer α} (h : r.Inv clock)
    (hclock : clock ≤ now) : r.Inv now := by
  cases h with
  | resting hphase horderly hdone hkept =>
    exact .resting hphase (horderly.mono hclock) hdone hkept
  | sending hphase hsendings hwaited horderly hkept =>
    exact .sending hphase hsendings hwaited (horderly.mono hclock) hkept

namespace Inv

variable {clock now : Instant} {r : RecordedPacer α} {pacer : Pacer α}

theorem quiet (h : r.Inv clock) (hwindow : pacer.window = r.pacer.window)
    (hphase : pacer.phase = r.pacer.phase ∨ r.pacer.phase.IsResting ∧ pacer.phase.IsResting) :
    Inv clock { r with pacer } := by
  cases h with
  | resting hresting horderly hdone hkept =>
    exact .resting ((Phase.isResting_iff hphase).2 hresting) horderly hdone (hwindow ▸ hkept)
  | sending hsending hsendings hwaited horderly hkept =>
    have hsending' := mt (Phase.isResting_iff hphase).1 hsending
    exact .sending hsending' hsendings hwaited horderly (hwindow ▸ hkept)

theorem wait {limit : Option RateLimit} (h : r.Inv clock) (hclock : clock ≤ now)
    (hresting : r.pacer.phase.IsResting) (hresting' : pacer.phase.IsResting)
    (hwait : (r.pacer.window.check limit now).2 ≠ .granted)
    (hwindow : pacer.window = (r.pacer.window.check limit now).1) :
    Inv now { r with pacer, waited := limit :: r.waited } := by
  cases h with
  | resting _ horderly hdone hkept =>
    refine .resting hresting' (horderly.mono hclock) hdone ?_
    show Remembers pacer.window 0 (limit :: r.waited) r.sendings
    rw [hwindow]
    exact hkept.wait hwait
  | sending hsending => exact absurd hresting hsending

theorem grant {p : α} {limit : Option RateLimit} (h : r.Inv clock) (hclock : clock ≤ now)
    (hresting : r.pacer.phase.IsResting) (hsending' : ¬pacer.phase.IsResting)
    (hgranted : (r.pacer.window.check limit now).2 = .granted)
    (hwindow : pacer.window = (r.pacer.window.check limit now).1) :
    Inv now { r with
      pacer
      waited := []
      sendings := { packet := p, limit, waited := r.waited, granted := now } :: r.sendings } := by
  cases h with
  | resting _ horderly hdone hkept =>
    refine .sending hsending' rfl rfl (horderly.grant hclock hdone hkept hgranted) ?_
    show Remembers pacer.window 1 (limit :: r.waited) r.sendings
    rw [hwindow]
    exact hkept.grant
  | sending hsending => exact absurd hresting hsending

theorem start {sent : List α} (h : r.Inv clock) (hclock : clock ≤ now)
    (hsending : ¬r.pacer.phase.IsResting) (hsending' : ¬pacer.phase.IsResting)
    (hwindow : pacer.window = r.pacer.window) :
    Inv now { r with
      pacer
      sendings := r.sendings.modifyHead fun x => { x with started := some now }
      sent } := by
  cases h with
  | resting hresting => exact absurd hresting hsending
  | sending _ hsendings hwaited horderly hkept =>
    exact .sending hsending' (congrArg (List.modifyHead _) hsendings) hwaited
      (horderly.start hclock) (hwindow ▸ hkept)

theorem finish (h : r.Inv clock) (hclock : clock ≤ now) (hsending : ¬r.pacer.phase.IsResting)
    (hresting' : pacer.phase.IsResting) (hwindow : pacer.window = r.pacer.window.stamp now) :
    Inv now { r with
      pacer
      sendings := r.sendings.modifyHead fun x => { x with finished := some now } } := by
  cases h with
  | resting hresting => exact absurd hresting hsending
  | @sending x xs _ hsendings hwaited horderly hkept =>
    have hfinished : r.sendings.modifyHead (fun x => { x with finished := some now }) =
        { x with finished := some now } :: xs := congrArg (List.modifyHead _) hsendings
    rw [hfinished]
    refine .resting hresting' (horderly.finish hclock) (fun y hy => ?_) ?_
    · rcases List.mem_cons.1 hy with rfl | hearlier
      · exact ⟨now, rfl⟩
      · obtain ⟨done, hdone, -⟩ := horderly.1.after y hearlier
        exact ⟨done, hdone⟩
    · show Remembers pacer.window 0 r.waited _
      rw [hwindow, hwaited]
      exact Remembers.finish hkept rfl

/-- Every step keeps the invariant, up to its own moment. -/
theorem change {r' : RecordedPacer α} {moment : Option Instant} (h : r.Inv clock)
    (hchange : r.Change moment r') (hclock : ∀ now, moment = some now → clock ≤ now) :
    r'.Inv (moment.getD clock) := by
  cases hchange with
  | quiet hwindow hphase =>
    have hle : clock ≤ moment.getD clock := by
      cases moment with
      | none => exact Int.le_refl clock
      | some now => exact hclock now rfl
    exact (h.quiet hwindow hphase).mono hle
  | wait hphase hphase' hwait hwindow =>
    exact h.wait (hclock _ rfl) (hphase ▸ trivial) (hphase' ▸ trivial) hwait hwindow
  | grant hphase hphase' hgranted hwindow =>
    exact h.grant (hclock _ rfl) (hphase ▸ trivial) (hphase' ▸ id) hgranted hwindow
  | start hphase hphase' hwindow =>
    exact h.start (hclock _ rfl) (hphase ▸ id) (hphase' ▸ id) hwindow
  | finish hphase hphase' hwindow =>
    exact h.finish (hclock _ rfl) (hphase ▸ id) (hphase' ▸ trivial) hwindow

end Inv

/-- Steps whose clock never goes back keep the invariant, up to any moment that is not before
them. -/
theorem inv_foldl {clock now : Instant} {r : RecordedPacer α} (h : r.Inv clock)
    {events : List (PacerEvent α)}
    (hclock : (clock :: (events.filterMap PacerEvent.moment? ++ [now])).Pairwise (· ≤ ·)) :
    (events.foldl step r).Inv now := by
  induction events generalizing r clock with
  | nil => exact h.mono ((List.pairwise_cons.1 hclock).1 now List.mem_cons_self)
  | cons e events ih =>
    have hstep := h.change (r.change_step e)
    cases hmoment : e.moment? with
    | none =>
      rw [List.filterMap_cons_none hmoment] at hclock
      rw [hmoment] at hstep
      exact ih (hstep nofun) hclock
    | some moment =>
      rw [List.filterMap_cons_some hmoment] at hclock
      rw [hmoment] at hstep
      refine ih (hstep fun later hlater => ?_) (List.pairwise_cons.1 hclock).2
      cases hlater
      exact (List.pairwise_cons.1 hclock).1 moment List.mem_cons_self

/-- A run whose clock never goes back keeps the invariant. -/
theorem inv_run (capacity : Nat) {events : List (PacerEvent α)} {now : Instant}
    (hclock : (events.filterMap PacerEvent.moment? ++ [now]).Pairwise (· ≤ ·)) :
    (run capacity events).Inv now := by
  have hnew : ∀ clock, Inv clock ({ pacer := { capacity } } : RecordedPacer α) := by
    intro clock
    refine .resting trivial trivial nofun fun limit _ ys hys _ => ?_
    rw [List.prefix_nil.1 hys, finishes, List.filterMap_nil, List.take_nil]
    exact List.nil_prefix
  have hfirst : ∃ clock,
      (clock :: (events.filterMap PacerEvent.moment? ++ [now])).Pairwise (· ≤ ·) := by
    cases hmoments : events.filterMap PacerEvent.moment? ++ [now] with
    | nil => exact absurd hmoments (List.append_ne_nil_of_right_ne_nil _ (List.cons_ne_nil _ _))
    | cons first later =>
      rw [hmoments] at hclock
      refine ⟨first, List.pairwise_cons.2 ⟨fun moment hmem => ?_, hclock⟩⟩
      rcases List.mem_cons.1 hmem with rfl | hlater
      · exact Int.le_refl moment
      · exact (List.pairwise_cons.1 hclock).1 moment hlater
  obtain ⟨clock, hordered⟩ := hfirst
  exact inv_foldl (hnew clock) hordered

theorem Inv.orderly {now : Instant} {r : RecordedPacer α} (h : r.Inv now) :
    Orderly now r.sendings := by
  cases h with
  | resting _ horderly => exact horderly
  | sending _ hsendings _ horderly =>
    rw [hsendings]
    exact horderly

/-- Through a run whose clock never goes back, every sending follows the earlier ones. -/
theorem orderly_run (capacity : Nat) {events : List (PacerEvent α)}
    (hclock : (events.filterMap PacerEvent.moment?).Pairwise (· ≤ ·)) :
    ∃ now, Orderly now (run capacity events).sendings := by
  have hlast : ∃ now, (events.filterMap PacerEvent.moment? ++ [now]).Pairwise (· ≤ ·) := by
    rcases List.eq_nil_or_concat' (events.filterMap PacerEvent.moment?) with
      hnone | ⟨earlier, last, hmoments⟩
    · exact ⟨0, by rw [hnone]; exact List.pairwise_singleton ..⟩
    · rw [hmoments] at hclock ⊢
      refine ⟨last, List.pairwise_append.2 ⟨hclock, List.pairwise_singleton .., ?_⟩⟩
      intro moment hmem now hnow
      rw [List.mem_singleton.1 hnow]
      rcases List.mem_append.1 hmem with hearlier | hsame
      · exact (List.pairwise_append.1 hclock).2.2 moment hearlier last List.mem_cons_self
      · exact Int.le_of_eq (List.mem_singleton.1 hsame)
  obtain ⟨now, hordered⟩ := hlast
  exact ⟨now, (inv_run capacity hordered).orderly⟩

end RecordedPacer

/-! ## Windows -/

namespace Orderly

variable {clock a : Instant} {limit : RateLimit} {x : Sending α} {xs older : List (Sending α)}

/-- Once a packet reaches into a window of a period, the sending as many before as the limit allows
was over before the window, and so was everything earlier. -/
theorem not_overlaps_of_follows {first y : Sending α} {between earlier : List (Sending α)}
    (h : Orderly clock (x :: (between ++ first :: earlier)))
    (hsteady : Steady limit (x :: (between ++ [first])))
    (hlen : between.length + 1 = limit.maxPackets.toNat)
    (hx : x.overlaps a (a + limit.periodNanos) = true) (hy : y ∈ first :: earlier) :
    y.overlaps a (a + limit.periodNanos) = false := by
  have hne : between ++ [first] ≠ [] := List.append_ne_nil_of_right_ne_nil _ (List.cons_ne_nil _ _)
  obtain ⟨hfollows, hrest⟩ := h
  obtain ⟨done, hdone, hspace⟩ :=
    hfollows.spaced limit between first earlier rfl (hsteady.reads_eq hne) hsteady.tail hlen
  -- The window ends after `x` started, so that `first` was over before the window began.
  have hbefore : done < a := by
    obtain ⟨started, hstarted, hlt⟩ := Sending.started_of_overlaps hx
    have hge := Int.le_trans hspace (hfollows.granted_le_started started hstarted)
    exact Int.lt_of_add_lt_add_right (Int.lt_of_le_of_lt hge hlt)
  -- `first` came after everything earlier.
  rcases List.mem_cons.1 hy with rfl | hearlier
  · exact Sending.not_overlaps_of_finished hdone hbefore
  · have hfirst := hrest.follows
    obtain ⟨doneY, hdoneY, hle⟩ := hfirst.after y hearlier
    have hlt : doneY < a :=
      Int.lt_of_le_of_lt (Int.le_trans hle (hfirst.finished_mem done hdone).1) hbefore
    exact Sending.not_overlaps_of_finished hdoneY hlt

/-- Of the sendings before one that reaches into the window only those can overlap it that stand
between that one and the one as many before as the limit allows. -/
theorem not_overlaps_of_mem_drop {y : Sending α} (hlimit : 0 < limit.maxPackets.toNat)
    (h : Orderly clock (x :: xs ++ older)) (hsteady : Steady limit (x :: xs))
    (hx : x.overlaps a (a + limit.periodNanos) = true)
    (hy : y ∈ xs.drop (limit.maxPackets.toNat - 1)) :
    y.overlaps a (a + limit.periodNanos) = false := by
  have hsplit := List.take_append_drop (limit.maxPackets.toNat - 1) xs
  have hlen := List.length_take (i := limit.maxPackets.toNat - 1) (l := xs)
  have hpos := List.length_pos_of_mem hy
  rw [List.length_drop] at hpos
  generalize xs.take (limit.maxPackets.toNat - 1) = between at hsplit hlen
  rcases hdrop : xs.drop (limit.maxPackets.toNat - 1) with _ | ⟨first, earlier⟩
  · rw [hdrop] at hy
    cases hy
  · rw [hdrop] at hy hsplit
    have hgroup : x :: (between ++ [first]) <:+: x :: xs :=
      ⟨[], earlier, by rw [← hsplit]; simp⟩
    rw [← hsplit, List.cons_append, List.append_assoc, List.cons_append] at h
    refine h.not_overlaps_of_follows (hsteady.of_infix hgroup) ?_ hx ?_
    · omega
    · exact List.mem_cons.2 ((List.mem_cons.1 hy).imp_right (List.mem_append_left older))

/-- A window of a period overlaps no more sendings under one limit than the limit allows. -/
theorem countP_overlaps_le (hlimit : 0 < limit.maxPackets.toNat) (h : Orderly clock (xs ++ older))
    (hsteady : Steady limit xs) (a : Instant) :
    xs.countP (·.overlaps a (a + limit.periodNanos)) ≤ limit.maxPackets.toNat := by
  induction xs with
  | nil => exact Nat.zero_le _
  | cons x xs ih =>
    rw [List.countP_cons]
    by_cases hx : x.overlaps a (a + limit.periodNanos) = true
    · have hout : (xs.drop (limit.maxPackets.toNat - 1)).countP
          (·.overlaps a (a + limit.periodNanos)) = 0 := by
        refine List.countP_eq_zero.2 fun y hy => ?_
        rw [h.not_overlaps_of_mem_drop hlimit hsteady hx hy]
        exact Bool.false_ne_true
      have hbetween := @List.countP_le_length _ (·.overlaps a (a + limit.periodNanos))
        (xs.take (limit.maxPackets.toNat - 1))
      rw [List.length_take] at hbetween
      rw [if_pos hx, ← List.take_append_drop (limit.maxPackets.toNat - 1) xs, List.countP_append,
        hout]
      omega
    · rw [if_neg hx]
      exact ih h.2 hsteady.tail

end Orderly

namespace RecordedPacer

/-- While the worker reads one and the same limit, each packet starts no earlier than a period after
the sending as many before it as the limit allows was over, so that a window of a period overlaps no
more sendings than the limit allows. -/
theorem spacing_of_steady (capacity : Nat) {events : List (PacerEvent α)}
    (hclock : (events.filterMap PacerEvent.moment?).Pairwise (· ≤ ·)) {limit : RateLimit}
    (hlimit : limit.isEnabled) {newer steady older : List (Sending α)}
    (hsendings : (run capacity events).sendings = newer ++ steady ++ older)
    (hsteady : Steady limit steady) :
    (∀ last between first, last :: (between ++ [first]) <:+: steady →
        between.length + 1 = limit.maxPackets.toNat →
        ∃ done, first.finished = some done ∧ done + limit.periodNanos ≤ last.granted ∧
          ∀ started, last.started = some started → done + limit.periodNanos ≤ started) ∧
      ∀ a, steady.countP (·.overlaps a (a + limit.periodNanos)) ≤ limit.maxPackets.toNat := by
  obtain ⟨now, horderly⟩ := orderly_run capacity hclock
  rw [hsendings, List.append_assoc] at horderly
  constructor
  · intro last between first hgroup hlen
    have hrun := hsteady.of_infix hgroup
    obtain ⟨front, back, hsplit⟩ := hgroup
    have hrow : newer ++ (steady ++ older) =
        (newer ++ front) ++ last :: (between ++ first :: (back ++ older)) := by
      rw [← hsplit]
      simp
    rw [hrow] at horderly
    have hfollows := horderly.follows
    have hne : between ++ [first] ≠ [] :=
      List.append_ne_nil_of_right_ne_nil _ (List.cons_ne_nil _ _)
    obtain ⟨done, hdone, hspace⟩ :=
      hfollows.spaced limit between first _ rfl (hrun.reads_eq hne) hrun.tail hlen
    refine ⟨done, hdone, hspace, fun started hstarted => ?_⟩
    exact Int.le_trans hspace (hfollows.granted_le_started started hstarted)
  · have hpos : 0 < limit.maxPackets.toNat := of_decide_eq_true hlimit
    exact fun a => horderly.of_append.countP_overlaps_le hpos hsteady a

/-- One packet in a millisecond. -/
def oneByOne : RateLimit := ⟨1, 1⟩

/-- Two packets at once, of which the second has to wait and looks at the limit twice. -/
def crowd : List (PacerEvent Nat) :=
  [.push 7, .push 8, .work none 0, .work (some oneByOne) 1, .work none 2, .work none 30,
    .work none 31, .work (some oneByOne) 32, .work (some oneByOne) 1000030, .work none 1000031]

theorem spacing_of_steady_crowd :
    ∃ first last, (run 2 crowd).sendings = [last, first] ∧ last.packet = 8 ∧
      ∃ done, first.finished = some done ∧ done + 1000000 ≤ last.granted := by
  have hsendings : (run 2 crowd).sendings = [] ++
      [⟨8, some oneByOne, [some oneByOne], 1000030, some 1000031, none⟩,
        ⟨7, some oneByOne, [], 1, some 2, some 30⟩] ++ [] := by decide
  have hlimit : oneByOne.isEnabled := by decide
  obtain ⟨hspacing, -⟩ := spacing_of_steady 2 (by decide) hlimit hsendings ⟨by decide, by decide⟩
  obtain ⟨done, hdone, hle, -⟩ := hspacing _ [] _ (List.infix_refl _) rfl
  exact ⟨_, _, hsendings, rfl, done, hdone, hle⟩

end RecordedPacer

end MediaTransport
