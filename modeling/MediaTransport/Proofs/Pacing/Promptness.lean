import MediaTransport.Proofs.Pacing.Recall

/-!
# No packet waits in vain

Under a limit that stays the same the window forgets nothing that matters
(`reverse_latest_of_fixed`): with a limit of `n` packets it has the ends of the last `n` sendings,
and the sendings are the packets that were sent (`map_packet_of_resting`). Ends come in order, so
that fewer than `n` sendings are recent just when the one `n` back is not. A packet that asks for a
slot therefore gets it unless as many recent ones as the limit allows are before it, and is then
told the moment at which the first of these is a period old (`granted_iff_of_fixed`).
-/

namespace MediaTransport

open Sending

variable {α : Type}

/-! ## Ends in order -/

/-- Of moments in order, the latest first, more than `n` are recent if the one at `n` is. -/
theorem lt_countP_iff_of_descending {recent : Instant → Bool}
    (hrecent : ∀ a b, a ≤ b → recent a = true → recent b = true) {moments : List Instant}
    (h : moments.Pairwise (· ≥ ·)) (n : Nat) :
    n < moments.countP recent ↔ ∃ moment, moments[n]? = some moment ∧ recent moment = true := by
  induction moments generalizing n with
  | nil => simp
  | cons latest earlier ih =>
    obtain ⟨hlatest, hearlier⟩ := List.pairwise_cons.1 h
    by_cases hold : recent latest = true
    · rw [List.countP_cons_of_pos hold]
      cases n with
      | zero => simp [hold]
      | succ n => rw [Nat.add_lt_add_iff_right, ih hearlier, List.getElem?_cons_succ]
    · have hnone : ∀ moment ∈ latest :: earlier, ¬recent moment = true := by
        intro moment hmem hmoment
        rcases List.mem_cons.1 hmem with rfl | hmem
        · exact hold hmoment
        · exact hold (hrecent moment latest (hlatest moment hmem) hmoment)
      rw [List.countP_eq_zero.2 hnone]
      refine iff_of_false (Nat.not_lt_zero n) ?_
      rintro ⟨moment, hget, hmoment⟩
      exact hnone moment (List.mem_of_getElem? hget) hmoment

namespace Orderly

variable {clock : Instant} {xs : List (Sending α)}

/-- A later sending is over later. -/
theorem pairwise_finishes (h : Orderly clock xs) : (finishes xs).Pairwise (· ≥ ·) := by
  induction xs with
  | nil => exact .nil
  | cons x xs ih =>
    obtain ⟨hx, hxs⟩ := h
    cases hfinished : x.finished with
    | none =>
      rw [finishes, List.filterMap_cons_none hfinished]
      exact ih hxs
    | some done =>
      rw [finishes, List.filterMap_cons_some hfinished]
      refine List.pairwise_cons.2 ⟨fun earlier hearlier => ?_, ih hxs⟩
      obtain ⟨y, hy, hdone⟩ := List.mem_filterMap.1 hearlier
      obtain ⟨doneY, hdoneY, hle⟩ := hx.after y hy
      obtain rfl : earlier = doneY := Option.some_inj.1 (hdone.symm.trans hdoneY)
      exact Int.le_trans hle (hx.finished_mem done hfinished).1

/-- Fewer than `n` sendings are recent unless the end of the one `n` back is. -/
theorem countP_isRecent_lt_iff (h : Orderly clock xs) {n : Nat} (hn : 0 < n) (moment : Instant)
    (period : Nat) :
    xs.countP (·.isRecent moment period) < n ↔
      ∀ done, (finishes xs)[n - 1]? = some done → done + period ≤ moment := by
  have hends : xs.countP (·.isRecent moment period) =
      (finishes xs).countP fun done => moment < done + period := by
    rw [finishes, List.countP_filterMap]
    refine List.countP_congr fun x _ => ?_
    rw [isRecent]
    cases x.finished with
    | none => rfl
    | some done => rfl
  have hlater : ∀ a b : Instant, a ≤ b → decide (moment < a + period) = true →
      decide (moment < b + period) = true := by
    intro a b hle ha
    have hlt := of_decide_eq_true ha
    exact decide_eq_true (Int.lt_of_lt_of_le hlt (Int.add_le_add_right hle _))
  have hmany := lt_countP_iff_of_descending hlater h.pairwise_finishes (n - 1)
  rw [← hends] at hmany
  have hless : xs.countP (·.isRecent moment period) < n ↔
      ¬n - 1 < xs.countP (·.isRecent moment period) := by omega
  rw [hless, hmany]
  constructor
  · intro hnone done hdone
    by_contra hlt
    exact hnone ⟨done, hdone, decide_eq_true (Int.not_le.1 hlt)⟩
  · rintro hall ⟨done, hdone, hlt⟩
    exact Int.not_lt.2 (hall done hdone) (of_decide_eq_true hlt)

end Orderly

namespace RecordedPacer

/-- While the worker sends nothing, all the sendings are over, and were in order. -/
theorem Inv.orderly_of_resting {now : Instant} {r : RecordedPacer α} (h : r.Inv now)
    (hresting : r.pacer.phase.IsResting) :
    Orderly now r.sendings ∧ ∀ x ∈ r.sendings, ∃ done, x.finished = some done ∧ done ≤ now := by
  cases h with
  | sending hsending => exact absurd hresting hsending
  | resting _ horderly hdone =>
    refine ⟨horderly, fun x hx => ?_⟩
    obtain ⟨done, hx'⟩ := hdone x hx
    obtain ⟨newer, older, hsplit⟩ := List.append_of_mem hx
    rw [hsplit] at horderly
    exact ⟨done, hx', (horderly.follows.finished_mem done hx').2⟩

end RecordedPacer

/-- The end of a sending stands at its place among the ends, if all are over. -/
theorem getElem?_finishes {xs : List (Sending α)} (h : ∀ x ∈ xs, ∃ done, x.finished = some done)
    (n : Nat) : (finishes xs)[n]? = xs[n]?.bind Sending.finished := by
  induction xs generalizing n with
  | nil => rfl
  | cons x xs ih =>
    obtain ⟨⟨done, hdone⟩, hxs⟩ := List.forall_mem_cons.1 h
    rw [finishes, List.filterMap_cons_some hdone]
    cases n with
    | zero => exact hdone.symm
    | succ n => exact ih hxs n

/-! ## One limit -/

namespace RecordedPacer

/-- The worker has read no limit but one. -/
structure ReadsOnly (limit : Option RateLimit) (r : RecordedPacer α) : Prop where
  sendings : ∀ x ∈ r.sendings, ∀ read ∈ x.reads, read = limit
  waited : ∀ read ∈ r.waited, read = limit

namespace ReadsOnly

variable {limit : Option RateLimit} {r : RecordedPacer α}

/-- What is written down of the latest sending later leaves its limits. -/
theorem modifyHead {xs : List (Sending α)} (h : ∀ x ∈ xs, ∀ read ∈ x.reads, read = limit)
    {f : Sending α → Sending α} (hf : ∀ x, (f x).reads = x.reads) :
    ∀ x ∈ xs.modifyHead f, ∀ read ∈ x.reads, read = limit := by
  cases xs with
  | nil => exact h
  | cons x xs =>
    obtain ⟨hx, hxs⟩ := List.forall_mem_cons.1 h
    exact List.forall_mem_cons.2 ⟨by rwa [hf x], hxs⟩

theorem note (h : r.ReadsOnly limit) (now : Instant) : (r.note limit now).ReadsOnly limit := by
  unfold RecordedPacer.note
  split
  next p hphase =>
    split
    next => exact h
    next =>
      have hreads : ∀ read ∈ limit :: r.waited, read = limit :=
        List.forall_mem_cons.2 ⟨rfl, h.waited⟩
      split
      next => exact ⟨List.forall_mem_cons.2 ⟨hreads, h.sendings⟩, nofun⟩
      next => exact ⟨h.sendings, hreads⟩
  next => exact ⟨modifyHead h.sendings fun _ => rfl, h.waited⟩
  next => exact ⟨modifyHead h.sendings fun _ => rfl, h.waited⟩
  all_goals exact h

theorem step (h : r.ReadsOnly limit) {e : PacerEvent α}
    (he : ∀ read now, e = .work read now → read = limit) : (r.step e).ReadsOnly limit := by
  cases e with
  | push p =>
    simp only [RecordedPacer.step]
    split
    next => exact ⟨h.sendings, h.waited⟩
    all_goals exact h
  | markClosed => exact ⟨h.sendings, h.waited⟩
  | offerStop => exact ⟨h.sendings, h.waited⟩
  | work read now =>
    obtain rfl : read = limit := he read now rfl
    have hnote := h.note now
    exact ⟨hnote.sendings, hnote.waited⟩

theorem foldl (h : r.ReadsOnly limit) {events : List (PacerEvent α)}
    (hfixed : ∀ read now, .work read now ∈ events → read = limit) :
    (events.foldl RecordedPacer.step r).ReadsOnly limit := by
  induction events generalizing r with
  | nil => exact h
  | cons e events ih =>
    refine ih (h.step fun read now he => ?_) fun read now hmem => ?_
    · exact hfixed read now (he ▸ List.mem_cons_self)
    · exact hfixed read now (List.mem_cons_of_mem _ hmem)

end ReadsOnly

theorem readsOnly_run (capacity : Nat) {events : List (PacerEvent α)} {limit : Option RateLimit}
    (hfixed : ∀ read now, .work read now ∈ events → read = limit) :
    (run capacity events).ReadsOnly limit := by
  have hnew : ReadsOnly limit ({ pacer := { capacity } } : RecordedPacer α) := ⟨nofun, nofun⟩
  exact hnew.foldl hfixed

/-- The last moments of the window are the ends of the last sendings, as many as the one limit
allows. -/
theorem reverse_latest_of_fixed {limit : RateLimit} {r : RecordedPacer α}
    (hreads : r.ReadsOnly (some limit)) (hrecalls : r.Recalls)
    (hresting : r.pacer.phase.IsResting) :
    (r.pacer.window.latest limit.maxPackets.toNat).reverse =
      (finishes r.sendings).take limit.maxPackets.toNat := by
  cases hrecalls with
  | sending hsending => exact absurd hresting hsending
  | resting _ _ hwindow =>
    have hplaces : ∀ read, read = some limit → limit.maxPackets.toNat ≤ Window.places read := by
      rintro _ rfl
      exact Nat.le_refl _
    have hall : ∀ x ∈ r.sendings, ∀ read ∈ x.reads, limit.maxPackets.toNat ≤ Window.places read :=
      fun x hx read hread => hplaces read (hreads.sendings x hx read hread)
    have hknown : min limit.maxPackets.toNat r.sendings.length ≤
        leftAfter r.waited (recalled r.sendings) := by
      have hfewer := Nat.min_le_left limit.maxPackets.toNat r.sendings.length
      refine le_leftAfter (fun read hread => ?_)
        (le_recalled (Nat.min_le_right ..) fun x hx read hread => ?_)
      · exact Nat.le_trans hfewer (hplaces read (hreads.waited read hread))
      · exact Nat.le_trans hfewer (hall x (List.mem_of_mem_take hx) read hread)
    have hlen : (finishes r.sendings).length ≤ r.sendings.length := List.length_filterMap_le ..
    rw [Window.reverse_latest, hwindow, List.take_take]
    rcases Nat.lt_or_ge (leftAfter r.waited (recalled r.sendings)) limit.maxPackets.toNat
      with hlt | hge
    · -- All the sendings are remembered, and there are fewer than the limit allows.
      rw [List.take_of_length_le, List.take_of_length_le]
      · omega
      · omega
    · rw [Nat.min_eq_left hge]

/-! ## What was sent -/

/-- How many packets have a slot and are not sent yet. -/
def toSend (phase : Phase α) : Nat :=
  match phase with
  | .granted _ => 1
  | _ => 0

theorem toSend_of_isResting {phase : Phase α} (h : phase.IsResting) : toSend phase = 0 := by
  cases phase with
  | granted p => exact h.elim
  | idle => rfl
  | holding p => rfl
  | sent => rfl
  | leaving => rfl
  | exited => rfl

theorem Change.length_sendings {r r' : RecordedPacer α} {moment : Option Instant}
    (h : r.Change moment r') (hr : r.sendings.length = r.sent.length + toSend r.pacer.phase) :
    r'.sendings.length = r'.sent.length + toSend r'.pacer.phase := by
  cases h with
  | @quiet moment pacer hwindow hphase =>
    have hsame : toSend pacer.phase = toSend r.pacer.phase := by
      rcases hphase with hphase | ⟨hresting, hresting'⟩
      · rw [hphase]
      · rw [toSend_of_isResting hresting, toSend_of_isResting hresting']
    rw [hr, hsame]
  | wait hphase hphase' => rw [hr, hphase, hphase']
  | grant hphase hphase' =>
    rw [List.length_cons, hr, hphase, hphase']
    rfl
  | start hphase hphase' =>
    rw [List.length_modifyHead, hr, hphase, hphase', List.length_cons]
    rfl
  | finish hphase hphase' =>
    rw [List.length_modifyHead, hr, hphase, hphase']
    rfl

theorem length_sendings_foldl {r : RecordedPacer α} (events : List (PacerEvent α))
    (hr : r.sendings.length = r.sent.length + toSend r.pacer.phase) :
    (events.foldl step r).sendings.length =
      (events.foldl step r).sent.length + toSend (events.foldl step r).pacer.phase := by
  induction events generalizing r with
  | nil => exact hr
  | cons e events ih => exact ih ((r.change_step e).length_sendings hr)

/-- While the worker sends nothing, the sendings are the packets that were sent. -/
theorem map_packet_of_resting (capacity : Nat) {events : List (PacerEvent α)}
    (hresting : (run capacity events).pacer.phase.IsResting) :
    (run capacity events).sendings.map Sending.packet = (run capacity events).sent := by
  have hlen : (run capacity events).sendings.length =
      (run capacity events).sent.length + toSend (run capacity events).pacer.phase :=
    length_sendings_foldl events rfl
  rw [toSend_of_isResting hresting, ← packets_started, started, List.length_map] at hlen
  have hall : (run capacity events).sendings.filter (fun x => x.started.isSome) =
      (run capacity events).sendings :=
    List.filter_eq_self.2 (List.length_filter_eq_length_iff.1 hlen.symm)
  rw [← packets_started, started, hall]

/-! ## Slots -/

/-- A packet that asks for a slot gets it, or has to wait on. -/
theorem phase_step_of_holding {r : RecordedPacer α} {p : α} (hholding : r.pacer.phase = .holding p)
    (hopen : r.pacer.closed = false) (limit : Option RateLimit) (now : Instant) :
    (r.step (.work limit now)).pacer.phase =
      match (r.pacer.window.check limit now).2 with
      | .granted => .granted p
      | .waitUntil _ => .holding p := by
  simp only [step, Pacer.work, hholding, hopen, Bool.false_eq_true, if_false]
  rcases r.pacer.window.check limit now with ⟨window, slot⟩
  cases slot with
  | granted => rfl
  | waitUntil due => rfl

theorem due?_of_holding {r : RecordedPacer α} {p : α} (hholding : r.pacer.phase = .holding p)
    {limit : Option RateLimit} {now due : Instant}
    (hslot : (r.pacer.window.check limit now).2 = .waitUntil due) :
    r.pacer.due? limit now = some due := by
  simp only [Pacer.due?, hholding, hslot]

/-- Where there is nothing to limit, a packet gets its slot. -/
theorem check_eq_granted_of_not_enabled {limit : Option RateLimit}
    (h : ∀ rate, limit = some rate → ¬rate.isEnabled) (w : Window) (now : Instant) :
    (w.check limit now).2 = .granted := by
  cases limit with
  | none => rfl
  | some rate =>
    have hzero : rate.maxPackets.toNat = 0 := by
      have hnot : ¬0 < rate.maxPackets := fun hpos => h rate rfl (decide_eq_true hpos)
      rw [UInt64.lt_iff_toNat_lt] at hnot
      exact Nat.eq_zero_of_not_pos hnot
    have hnone : w.latest 0 = [] := List.drop_length
    simp only [Window.check, hzero, hnone]

/-- Under one limit of `n` packets the check goes by the end of the sending `n` before: it lets a
packet go if fewer than `n` are recent, and else says when that sending is a period old. -/
theorem check_of_fixed {rate : RateLimit} (henabled : rate.isEnabled) {r : RecordedPacer α}
    (hreads : r.ReadsOnly (some rate)) (hrecalls : r.Recalls) {now : Instant} (hinv : r.Inv now)
    (hresting : r.pacer.phase.IsResting) :
    ((r.pacer.window.check (some rate) now).2 = .granted ↔
        r.sendings.countP (·.isRecent now rate.periodNanos) < rate.maxPackets.toNat) ∧
      ((r.pacer.window.check (some rate) now).2 ≠ .granted →
        ∃ nth done, r.sendings[rate.maxPackets.toNat - 1]? = some nth ∧ nth.finished = some done ∧
          now < done + rate.periodNanos ∧
          (r.pacer.window.check (some rate) now).2 = .waitUntil (done + rate.periodNanos)) := by
  obtain ⟨horderly, hdone⟩ := hinv.orderly_of_resting hresting
  have hpos : 0 < rate.maxPackets.toNat := of_decide_eq_true henabled
  have hover : ∀ x ∈ r.sendings, ∃ done, x.finished = some done := by
    intro x hx
    obtain ⟨done, hx', -⟩ := hdone x hx
    exact ⟨done, hx'⟩
  have hslot :=
    Window.slot_check_of_latest hpos (reverse_latest_of_fixed hreads hrecalls hresting) now
  have hnth := getElem?_finishes hover (rate.maxPackets.toNat - 1)
  rw [horderly.countP_isRecent_lt_iff hpos, hslot]
  cases hend : (finishes r.sendings)[rate.maxPackets.toNat - 1]? with
  | none => exact ⟨iff_of_true rfl nofun, fun hwait => absurd rfl hwait⟩
  | some done =>
    obtain ⟨nth, hget, hfinished⟩ := Option.bind_eq_some_iff.1 (hnth.symm.trans hend)
    by_cases hdue : done + rate.periodNanos ≤ now
    · simp [hdue]
    · simp only [if_neg hdue]
      refine ⟨iff_of_false nofun fun hall => hdue (hall done rfl), fun _ => ?_⟩
      exact ⟨nth, done, hget, hfinished, Int.not_le.1 hdue, rfl⟩

/-- Under one limit a packet that asks for a slot gets it if fewer packets than the limit allows
were over within the period before it, of all that were sent, and else has to wait until the first
of so many is a period old. Where there is nothing to limit, it gets its slot. -/
theorem granted_iff_of_fixed (capacity : Nat) {events : List (PacerEvent α)}
    {limit : Option RateLimit}
    (hfixed : ∀ read moment, PacerEvent.work read moment ∈ events → read = limit) (now : Instant)
    (hclock : (events.filterMap PacerEvent.moment? ++ [now]).Pairwise (· ≤ ·))
    {p : α} (hholding : (run capacity events).pacer.phase = .holding p)
    (hopen : (run capacity events).pacer.closed = false) :
    let r := run capacity events
    let next := r.step (.work limit now)
    r.sendings.map Sending.packet = r.sent ∧
      (∀ x ∈ r.sendings, ∃ done, x.finished = some done ∧ done ≤ now) ∧
      (∀ rate, limit = some rate → rate.isEnabled →
        (next.pacer.phase = .granted p ↔
          r.sendings.countP (·.isRecent now rate.periodNanos) < rate.maxPackets.toNat) ∧
        (next.pacer.phase ≠ .granted p → next.pacer.phase = .holding p ∧
          ∃ nth done, r.sendings[rate.maxPackets.toNat - 1]? = some nth ∧ nth.finished = some done ∧
            now < done + rate.periodNanos ∧
            r.pacer.due? limit now = some (done + rate.periodNanos))) ∧
      ((∀ rate, limit = some rate → ¬rate.isEnabled) → next.pacer.phase = .granted p) := by
  intro r next
  have hresting : r.pacer.phase.IsResting := hholding ▸ trivial
  have hphase : next.pacer.phase = _ := phase_step_of_holding hholding hopen limit now
  have hinv : r.Inv now := inv_run capacity hclock
  obtain ⟨-, hdone⟩ := hinv.orderly_of_resting hresting
  refine ⟨map_packet_of_resting capacity hresting, hdone, ?_, fun hnot => ?_⟩
  · rintro rate rfl henabled
    obtain ⟨hiff, hwait⟩ := check_of_fixed henabled (readsOnly_run capacity hfixed)
      (recalls_run capacity events) hinv hresting
    rw [← hiff, hphase]
    cases hslot : (r.pacer.window.check (some rate) now).2 with
    | granted => exact ⟨iff_of_true rfl rfl, fun hnot => absurd rfl hnot⟩
    | waitUntil due =>
      refine ⟨iff_of_false nofun nofun, fun _ => ⟨rfl, ?_⟩⟩
      obtain ⟨nth, done, hget, hfinished, hlt, hdue⟩ := hwait (by rw [hslot]; exact nofun)
      exact ⟨nth, done, hget, hfinished, hlt, due?_of_holding hholding hdue⟩
  · rw [hphase, check_eq_granted_of_not_enabled hnot]

/-- Two packets at once, of which the second is about to ask for its slot. -/
def turns : List (PacerEvent Nat) :=
  [.push 7, .push 8, .work (some oneByOne) 0, .work (some oneByOne) 1, .work (some oneByOne) 2,
    .work (some oneByOne) 30, .work (some oneByOne) 31]

theorem granted_iff_of_fixed_turns :
    (run 2 turns).sent = [7] ∧ (run 2 turns).pacer.due? (some oneByOne) 32 = some 1000030 ∧
      ((run 2 turns).step (.work (some oneByOne) 32)).pacer.phase = .holding 8 ∧
      ((run 2 turns).step (.work (some oneByOne) 1000030)).pacer.phase = .granted 8 := by
  have hfixed : ∀ read moment, PacerEvent.work read moment ∈ turns → read = some oneByOne := by
    intro read moment hmem
    simp only [turns, List.mem_cons, reduceCtorEq, PacerEvent.work.injEq, List.not_mem_nil,
      false_or, or_false] at hmem
    rcases hmem with ⟨rfl, -⟩ | ⟨rfl, -⟩ | ⟨rfl, -⟩ | ⟨rfl, -⟩ | ⟨rfl, -⟩ <;> rfl
  have hlimit : oneByOne.isEnabled := by decide
  have hholding : (run 2 turns).pacer.phase = .holding 8 := by decide
  have hopen : (run 2 turns).pacer.closed = false := by decide
  obtain ⟨hsent, -, hearly, -⟩ := granted_iff_of_fixed 2 hfixed 32 (by decide) hholding hopen
  obtain ⟨-, -, hlate, -⟩ := granted_iff_of_fixed 2 hfixed 1000030 (by decide) hholding hopen
  obtain ⟨hgranted, hwait⟩ := hearly oneByOne rfl hlimit
  have hrecent :
      ¬(run 2 turns).sendings.countP (·.isRecent 32 oneByOne.periodNanos) < 1 := by decide
  obtain ⟨hphase, nth, done, hget, hfinished, -, hdue⟩ := hwait (mt hgranted.1 hrecent)
  have hfirst : (run 2 turns).sendings[oneByOne.maxPackets.toNat - 1]?.bind Sending.finished =
      some 30 := by
    decide
  rw [hget] at hfirst
  obtain rfl : done = 30 := Option.some_inj.1 (hfinished.symm.trans hfirst)
  exact ⟨hsent.symm, hdue, hphase, (hlate oneByOne rfl hlimit).1.2 (by decide)⟩

end RecordedPacer

end MediaTransport
