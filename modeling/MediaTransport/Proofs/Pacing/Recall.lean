import MediaTransport.Proofs.Pacing.Spacing

/-!
# What is remembered of earlier limits

A limit leaves in the window as many moments as it needs itself, and a later limit that needs more
has to do with those. How many there are when a packet asks is told by the limits read before
(`recalled`), and the decision goes by the ends of so many of the latest sendings (`Decided`).

So a packet that gets a slot under a limit of `n` packets in a period has fewer than `n` sendings
within the period before it among those that are remembered, and among all that there were if no
limit read since the one `n` before was lower (`recent_lt_of_granted`). After a lower limit, more of
them go unseen (`recent_of_forgotten`).
-/

namespace MediaTransport

open Window

variable {α : Type}

namespace Sending

/-- Whether a sending was over within the period before a moment. -/
def isRecent (moment : Instant) (period : Nat) (x : Sending α) : Bool :=
  x.finished.any fun done => moment < done + period

/-- Of `known` moments those that are left after the limits read for a packet that waits, the latest
first. -/
def leftAfter (waited : List (Option RateLimit)) (known : Nat) : Nat :=
  waited.foldr (fun read known => min (places read) known) known

/-- How many of the sendings `xs`, the latest first, have their ends remembered. -/
def recalled : List (Sending α) → Nat
  | [] => 0
  | x :: xs => min (places x.limit - 1) (leftAfter x.waited (recalled xs)) + 1

/-- How many of the earlier sendings `xs` were remembered when a packet got its slot. -/
def known (x : Sending α) (xs : List (Sending α)) : Nat := leftAfter x.waited (recalled xs)

/-- No limit that was read since the sending `count` before asked for less than `count` moments. -/
structure NotLowered (count : Nat) (x : Sending α) (xs : List (Sending α)) : Prop where
  waited : ∀ read ∈ x.waited, count ≤ places read
  reads : ∀ y ∈ xs.take (count - 1), ∀ read ∈ y.reads, count ≤ places read

theorem le_leftAfter {waited : List (Option RateLimit)} {count known : Nat}
    (hwaited : ∀ read ∈ waited, count ≤ places read) (hknown : count ≤ known) :
    count ≤ leftAfter waited known := by
  induction waited with
  | nil => exact hknown
  | cons read waited ih =>
    obtain ⟨hread, hrest⟩ := List.forall_mem_cons.1 hwaited
    exact Nat.le_min.2 ⟨hread, ih hrest⟩

/-- As long as limits need that many moments, they remember them. -/
theorem le_recalled {xs : List (Sending α)} {count : Nat} (hlen : count ≤ xs.length)
    (h : ∀ y ∈ xs.take (count - 1), ∀ read ∈ y.reads, count ≤ places read) :
    count ≤ recalled xs := by
  induction xs generalizing count with
  | nil => exact hlen
  | cons x xs ih =>
    rcases Nat.lt_or_ge 1 count with hcount | hcount
    · obtain ⟨fewer, rfl⟩ : ∃ fewer, count = fewer + 2 := ⟨count - 2, by omega⟩
      have htake : (x :: xs).take (fewer + 2 - 1) = x :: xs.take fewer := rfl
      rw [htake] at h
      obtain ⟨hx, hxs⟩ := List.forall_mem_cons.1 h
      obtain ⟨hlimit, hwaited⟩ := List.forall_mem_cons.1 hx
      have hrest : fewer + 1 ≤ recalled xs := by
        refine ih (Nat.le_of_succ_le_succ hlen) fun y hy read hread => ?_
        exact Nat.le_of_succ_le (hxs y hy read hread)
      have hleft := le_leftAfter (fun read hread => Nat.le_of_succ_le (hwaited read hread)) hrest
      rw [recalled]
      omega
    · rw [recalled]
      omega

/-- A limit that is no higher than those before it finds all the moments that it needs. -/
theorem NotLowered.le_known {count : Nat} {x : Sending α} {xs : List (Sending α)}
    (h : NotLowered count x xs) : min count xs.length ≤ x.known xs := by
  have hfewer : min count xs.length ≤ count := Nat.min_le_left ..
  refine le_leftAfter (fun read hread => Nat.le_trans hfewer (h.waited read hread)) ?_
  refine le_recalled (Nat.min_le_right ..) fun y hy read hread =>
    Nat.le_trans hfewer (h.reads y ?_ read hread)
  exact List.take_subset_take_left xs (Nat.sub_le_sub_right hfewer 1) hy

end Sending

open Sending

/-! ## The window of a run -/

/-- Every packet got its slot by the ends of the latest sendings that were remembered. -/
def Decided : List (Sending α) → Prop
  | [] => True
  | x :: xs => (∃ w : Window, w.stamps.reverse = (finishes xs).take (x.known xs) ∧
      (w.check x.limit x.granted).2 = .granted) ∧ Decided xs

theorem Decided.of_append {newer xs : List (Sending α)} (h : Decided (newer ++ xs)) :
    Decided xs := by
  induction newer with
  | nil => exact h
  | cons y newer ih => exact ih h.2

namespace RecordedPacer

/-- The window has the ends of the latest sendings that are remembered. -/
inductive Recalls (r : RecordedPacer α) : Prop
  | resting (hphase : r.pacer.phase.IsResting) (hdecided : Decided r.sendings)
      (hwindow : r.pacer.window.stamps.reverse =
        (finishes r.sendings).take (leftAfter r.waited (recalled r.sendings)))
  | sending {x : Sending α} {xs : List (Sending α)} (hphase : ¬r.pacer.phase.IsResting)
      (hsendings : r.sendings = x :: xs) (hwaited : r.waited = []) (hdecided : Decided (x :: xs))
      (hwindow : r.pacer.window.stamps.reverse =
        (finishes xs).take (min (places x.limit - 1) (x.known xs)))

namespace Recalls

variable {now : Instant} {r : RecordedPacer α} {pacer : Pacer α}

theorem quiet (h : r.Recalls) (hwindow : pacer.window = r.pacer.window)
    (hphase : pacer.phase = r.pacer.phase ∨ r.pacer.phase.IsResting ∧ pacer.phase.IsResting) :
    Recalls { r with pacer } := by
  cases h with
  | resting hresting hdecided hkept =>
    exact .resting ((Phase.isResting_iff hphase).2 hresting) hdecided (hwindow ▸ hkept)
  | sending hsending hsendings hwaited hdecided hkept =>
    have hsending' := mt (Phase.isResting_iff hphase).1 hsending
    exact .sending hsending' hsendings hwaited hdecided (hwindow ▸ hkept)

theorem wait {limit : Option RateLimit} (h : r.Recalls) (hresting : r.pacer.phase.IsResting)
    (hresting' : pacer.phase.IsResting) (hwait : (r.pacer.window.check limit now).2 ≠ .granted)
    (hwindow : pacer.window = (r.pacer.window.check limit now).1) :
    Recalls { r with pacer, waited := limit :: r.waited } := by
  cases h with
  | resting _ hdecided hkept =>
    refine .resting hresting' hdecided ?_
    show pacer.window.stamps.reverse = (finishes r.sendings).take (min (places limit) _)
    rw [hwindow, reverse_stamps_of_wait hwait, hkept, List.take_take]
    rfl
  | sending hsending => exact absurd hresting hsending

theorem grant {p : α} {limit : Option RateLimit} (h : r.Recalls)
    (hresting : r.pacer.phase.IsResting) (hsending' : ¬pacer.phase.IsResting)
    (hgranted : (r.pacer.window.check limit now).2 = .granted)
    (hwindow : pacer.window = (r.pacer.window.check limit now).1) :
    Recalls { r with
      pacer
      waited := []
      sendings := { packet := p, limit, waited := r.waited, granted := now } :: r.sendings } := by
  cases h with
  | resting _ hdecided hkept =>
    refine .sending hsending' rfl rfl ⟨⟨r.pacer.window, hkept, hgranted⟩, hdecided⟩ ?_
    show pacer.window.stamps.reverse = (finishes r.sendings).take (min (places limit - 1) _)
    rw [hwindow, reverse_stamps_of_granted hgranted, hkept, List.take_take]
    rfl
  | sending hsending => exact absurd hresting hsending

theorem start {sent : List α} (h : r.Recalls) (hsending : ¬r.pacer.phase.IsResting)
    (hsending' : ¬pacer.phase.IsResting) (hwindow : pacer.window = r.pacer.window) :
    Recalls { r with
      pacer
      sendings := r.sendings.modifyHead fun x => { x with started := some now }
      sent } := by
  cases h with
  | resting hresting => exact absurd hresting hsending
  | sending _ hsendings hwaited hdecided hkept =>
    exact .sending hsending' (congrArg (List.modifyHead _) hsendings) hwaited hdecided
      (hwindow ▸ hkept)

/-- The end of a sending takes the place that was left for it. -/
theorem finish (h : r.Recalls) (hsending : ¬r.pacer.phase.IsResting)
    (hresting' : pacer.phase.IsResting) (hwindow : pacer.window = r.pacer.window.stamp now) :
    Recalls { r with
      pacer
      sendings := r.sendings.modifyHead fun x => { x with finished := some now } } := by
  cases h with
  | resting hresting => exact absurd hresting hsending
  | @sending x xs _ hsendings hwaited hdecided hkept =>
    have hfinished : r.sendings.modifyHead (fun x => { x with finished := some now }) =
        { x with finished := some now } :: xs := congrArg (List.modifyHead _) hsendings
    rw [hfinished]
    refine .resting hresting' hdecided ?_
    show pacer.window.stamps.reverse = (now :: finishes xs).take (leftAfter r.waited (_ + 1))
    rw [hwindow, hwaited, stamps_stamp, List.reverse_append, List.reverse_singleton, hkept]
    rfl

theorem change {r' : RecordedPacer α} {moment : Option Instant} (h : r.Recalls)
    (hchange : r.Change moment r') : r'.Recalls := by
  cases hchange with
  | quiet hwindow hphase => exact h.quiet hwindow hphase
  | wait hphase hphase' hwait hwindow =>
    exact h.wait (hphase ▸ trivial) (hphase' ▸ trivial) hwait hwindow
  | grant hphase hphase' hgranted hwindow =>
    exact h.grant (hphase ▸ trivial) (hphase' ▸ id) hgranted hwindow
  | start hphase hphase' hwindow => exact h.start (hphase ▸ id) (hphase' ▸ id) hwindow
  | finish hphase hphase' hwindow => exact h.finish (hphase ▸ id) (hphase' ▸ trivial) hwindow

end Recalls

theorem recalls_foldl {r : RecordedPacer α} (h : r.Recalls) (events : List (PacerEvent α)) :
    (events.foldl step r).Recalls := by
  induction events generalizing r with
  | nil => exact h
  | cons e events ih => exact ih (h.change (r.change_step e))

theorem recalls_run (capacity : Nat) (events : List (PacerEvent α)) :
    (run capacity events).Recalls := by
  have hnew : Recalls ({ pacer := { capacity } } : RecordedPacer α) := .resting trivial trivial rfl
  exact recalls_foldl hnew events

theorem decided_run (capacity : Nat) (events : List (PacerEvent α)) :
    Decided (run capacity events).sendings := by
  cases recalls_run capacity events with
  | resting _ hdecided => exact hdecided
  | sending _ hsendings _ hdecided =>
    rw [hsendings]
    exact hdecided

end RecordedPacer

/-! ## Sendings within a period -/

namespace Sending

theorem not_isRecent_of_finished {x : Sending α} {moment done : Instant} {period : Nat}
    (hdone : x.finished = some done) (hdue : done + period ≤ moment) :
    ¬x.isRecent moment period = true := by
  rw [isRecent, hdone]
  exact fun hrecent => Int.not_lt.2 hdue (of_decide_eq_true hrecent)

end Sending

namespace Orderly

variable {clock : Instant} {x : Sending α} {limit : RateLimit} {older : List (Sending α)}

/-- Behind a sending that was over a period ago nothing is recent. -/
theorem countP_isRecent_le {first : Sending α} {done : Instant}
    (h : Orderly clock (first :: older)) (hdone : first.finished = some done) {moment : Instant}
    {period : Nat} (hdue : done + period ≤ moment) (between : List (Sending α)) :
    (between ++ first :: older).countP (·.isRecent moment period) ≤ between.length := by
  have hearlier : (first :: older).countP (·.isRecent moment period) = 0 := by
    refine List.countP_eq_zero.2 fun y hy => ?_
    rcases List.mem_cons.1 hy with rfl | hafter
    · exact not_isRecent_of_finished hdone hdue
    · obtain ⟨doneY, hdoneY, hle⟩ := h.1.after y hafter
      have hbefore : doneY ≤ done := Int.le_trans hle (h.1.finished_mem done hdone).1
      exact not_isRecent_of_finished hdoneY (Int.le_trans (Int.add_le_add_right hbefore _) hdue)
  rw [List.countP_append, hearlier]
  exact List.countP_le_length

/-- A packet that gets a slot by the ends of `known` sendings has fewer than the limit allows within
the period before it, if there are so few or the ends of as many as the limit allows are known. -/
theorem countP_isRecent_lt {xs : List (Sending α)} {w : Window} {known : Nat}
    (h : Orderly clock (x :: xs)) (hlimit : 0 < limit.maxPackets.toNat)
    (hstamps : w.stamps.reverse = (finishes xs).take known)
    (hgranted : (w.check (some limit) x.granted).2 = .granted)
    (hknown : min limit.maxPackets.toNat xs.length ≤ known) :
    xs.countP (·.isRecent x.granted limit.periodNanos) < limit.maxPackets.toNat := by
  rcases Nat.lt_or_ge xs.length limit.maxPackets.toNat with hfew | hmany
  · exact Nat.lt_of_le_of_lt List.countP_le_length hfew
  · have hlen := List.length_take (i := limit.maxPackets.toNat - 1) (l := xs)
    have hsplit := List.take_append_drop (limit.maxPackets.toNat - 1) xs
    have hrest := List.length_drop (i := limit.maxPackets.toNat - 1) (l := xs)
    generalize xs.take (limit.maxPackets.toNat - 1) = between at hlen hsplit
    cases hdrop : xs.drop (limit.maxPackets.toNat - 1) with
    | nil =>
      rw [hdrop, List.length_nil] at hrest
      omega
    | cons first older =>
      rw [hdrop] at hsplit
      subst hsplit
      obtain ⟨done, hdone, -⟩ := h.1.after first (List.mem_append_right _ List.mem_cons_self)
      have hcount : (finishes between).length = between.length := by
        refine length_finishes fun y hy => ?_
        obtain ⟨doneY, hdoneY, -⟩ := h.1.after y (List.mem_append_left _ hy)
        exact ⟨doneY, hdoneY⟩
      have hlatest : finishes between ++ [done] <+: w.stamps.reverse := by
        rw [hstamps, finishes_append_cons hdone, List.prefix_take_iff]
        refine ⟨⟨finishes older, by rw [List.append_assoc]; rfl⟩, ?_⟩
        rw [List.length_append, List.length_singleton]
        omega
      have hdue := add_period_le_of_granted hgranted hlatest (by omega)
      have hle := h.2.of_append.countP_isRecent_le hdone hdue between
      omega

end Orderly

namespace RecordedPacer

/-- A packet that gets a slot under a limit has fewer sendings than the limit allows within the
period before it, of those that are remembered; and of all that there were, if enough of them are
remembered, as they are when no limit read since the sending as many before was lower. -/
theorem recent_lt_of_granted (capacity : Nat) {events : List (PacerEvent α)}
    (hclock : (events.filterMap PacerEvent.moment?).Pairwise (· ≤ ·)) {limit : RateLimit}
    (hlimit : limit.isEnabled) {newer older : List (Sending α)} {x : Sending α}
    (hsendings : (run capacity events).sendings = newer ++ x :: older) (hx : x.limit = some limit) :
    (∀ y ∈ older, ∃ done, y.finished = some done ∧ done ≤ x.granted) ∧
      (older.take (x.known older)).countP (·.isRecent x.granted limit.periodNanos) <
        limit.maxPackets.toNat ∧
      (min limit.maxPackets.toNat older.length ≤ x.known older →
        older.countP (·.isRecent x.granted limit.periodNanos) < limit.maxPackets.toNat) ∧
      (NotLowered limit.maxPackets.toNat x older →
        older.countP (·.isRecent x.granted limit.periodNanos) < limit.maxPackets.toNat) := by
  have hpos : 0 < limit.maxPackets.toNat := of_decide_eq_true hlimit
  obtain ⟨now, horderly⟩ := orderly_run capacity hclock
  have hdecided := decided_run capacity events
  rw [hsendings] at horderly hdecided
  have hrow := horderly.of_append
  obtain ⟨⟨w, hstamps, hgranted⟩, -⟩ := hdecided.of_append
  rw [hx] at hgranted
  have hall := hrow.countP_isRecent_lt hpos hstamps hgranted
  refine ⟨hrow.1.after, ?_, hall, fun hlowered => hall hlowered.le_known⟩
  rcases Nat.lt_or_ge (x.known older) limit.maxPackets.toNat with hfew | hmany
  · calc
      _ ≤ (older.take (x.known older)).length := List.countP_le_length
      _ ≤ x.known older := List.length_take_le ..
      _ < limit.maxPackets.toNat := hfew
  · calc
      _ ≤ older.countP (·.isRecent x.granted limit.periodNanos) := (List.take_sublist ..).countP_le
      _ < limit.maxPackets.toNat := hall (Nat.le_trans (Nat.min_le_left ..) hmany)

/-- Two packets in a millisecond, and then one in five. -/
def roomy : RateLimit := ⟨2, 1⟩

def narrow : RateLimit := ⟨1, 5⟩

/-- Two packets, of which the second finds the limit lowered. -/
def lowered : List (PacerEvent Nat) :=
  [.push 7, .push 8, .work none 0, .work (some roomy) 1, .work none 2, .work none 30,
    .work none 31, .work (some narrow) 32, .work (some narrow) 5000030]

theorem recent_lt_of_granted_lowered :
    ∃ first last, (run 2 lowered).sendings = [last, first] ∧ last.limit = some narrow ∧
      first.limit = some roomy ∧ last.known [first] = 1 ∧
      [first].countP (·.isRecent last.granted narrow.periodNanos) < 1 := by
  have hsendings : (run 2 lowered).sendings = [] ++
      ⟨8, some narrow, [some narrow], 5000030, none, none⟩ ::
        [⟨7, some roomy, [], 1, some 2, some 30⟩] := by decide
  have hlimit : narrow.isEnabled := by decide
  obtain ⟨-, -, hrecent, -⟩ := recent_lt_of_granted 2 (by decide) hlimit hsendings rfl
  exact ⟨_, _, hsendings, rfl, rfl, rfl, hrecent (by decide)⟩

/-- Two packets in ten seconds. -/
def patient : RateLimit := ⟨2, 10000⟩

/-- Two packets under a limit of one, and a third when the limit is raised. -/
def raised : List (PacerEvent Nat) :=
  [.push 7, .push 8, .push 9, .work none 0, .work (some oneByOne) 1, .work none 2, .work none 3,
    .work none 4, .work (some oneByOne) 5, .work (some oneByOne) 1000003, .work none 1000004,
    .work none 1000005, .work none 1000006, .work (some patient) 1000007]

/-- A limit of one packet leaves one moment, so that after it a limit of two lets a packet go that
both earlier ones are recent for. -/
theorem recent_of_forgotten :
    (raised.filterMap PacerEvent.moment?).Pairwise (· ≤ ·) ∧ patient.isEnabled ∧
      ∃ x older, (run 3 raised).sendings = x :: older ∧ x.limit = some patient ∧
        older.countP (·.isRecent x.granted patient.periodNanos) = patient.maxPackets.toNat := by
  refine ⟨by decide, by decide, _, _, rfl, by decide, by decide⟩

end RecordedPacer

end MediaTransport
