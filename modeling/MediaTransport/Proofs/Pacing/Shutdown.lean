import MediaTransport.Proofs.Pacing.Threads

/-!
# The order of delivery, and the end of it

Until the worker leaves, what it has delivered and what it has yet to send is what the queue took,
in the order in which it took it (`InOrder`). A closed pacer delivers one packet at most, the one
that got its slot before (`length_delivered_foldl_le`), and a worker that is gone delivers nothing
and refuses every call (`gone_foldl`, `refused_proceed`).

That a full queue gets no stop sign does no harm: once the closer is done, a worker that could wait
for the queue finds something in it (`Roused`), so a closed pacer's worker comes to its end by
itself (`isExited_of_closed`).
-/

namespace MediaTransport

variable {α : Type}

def Queued.packet? : Queued α → Option α
  | packet p => some p
  | stop => none

/-- The packet that the worker has taken and not sent. -/
def Phase.packet? : Phase α → Option α
  | holding p | granted p => some p
  | idle | sent | leaving | exited => none

/-- Whether the worker takes no more packets. -/
def Phase.isOver : Phase α → Bool
  | leaving | exited => true
  | idle | holding _ | granted _ | sent => false

/-- Whether the worker turns to the queue next, if the pacer is closed. -/
def Phase.turnsToQueue : Phase α → Bool
  | idle | granted _ | sent => true
  | holding _ | leaving | exited => false

/-- The deliveries that closing the pacer comes too late for. -/
def Phase.owed : Phase α → Nat
  | granted _ => 1
  | idle | holding _ | sent | leaving | exited => 0

theorem Phase.owed_le_one (phase : Phase α) : phase.owed ≤ 1 := by
  cases phase <;> simp [owed]

namespace Pacer

/-- The packets that the queue took and the worker has not sent, the next one first. -/
def pending (s : Pacer α) : List α := s.phase.packet?.toList ++ s.queue.filterMap Queued.packet?

@[simp] theorem phase_offerStop (s : Pacer α) : s.offerStop.phase = s.phase := by
  unfold offerStop
  split <;> rfl

@[simp] theorem closed_offerStop (s : Pacer α) : s.offerStop.closed = s.closed := by
  unfold offerStop
  split <;> rfl

theorem pending_offerStop (s : Pacer α) : s.offerStop.pending = s.pending := by
  unfold offerStop
  split
  · simp [pending, Queued.packet?]
  · rfl

@[simp] theorem capacity_offerStop (s : Pacer α) : s.offerStop.capacity = s.capacity := by
  unfold offerStop
  split <;> rfl

/-- There is room for the stop sign, or else there is no need of it. -/
theorem queue_offerStop_ne_nil {s : Pacer α} (hroom : 0 < s.capacity) (hhere : s.isExited = false) :
    s.offerStop.queue ≠ [] := by
  unfold offerStop
  by_cases hfits : s.queue.length < s.capacity
  · rw [if_pos ⟨by simp [hhere], hfits⟩]
    exact List.append_ne_nil_of_right_ne_nil _ nofun
  · rw [if_neg fun h => hfits h.2]
    exact List.length_pos_iff.1 (Nat.lt_of_lt_of_le hroom (Nat.le_of_not_lt hfits))

theorem isExited_eq_true {s : Pacer α} : s.isExited = true ↔ s.phase = .exited := by
  unfold isExited
  cases s.phase <;> simp

theorem Worked.closed_eq {s s' : Pacer α} {packet : Option α} (h : s.Worked s' packet) :
    s'.closed = s.closed := by
  cases h <;> rfl

/-- A worker that goes on has sent nothing, or the first of what was pending. -/
theorem Worked.pending_eq {s s' : Pacer α} {packet : Option α} (h : s.Worked s' packet)
    (hover : s'.phase.isOver = false) :
    s.phase.isOver = false ∧ s.pending = packet.toList ++ s'.pending := by
  cases h with
  | stay => exact ⟨hover, rfl⟩
  | take hphase hqueue =>
    simp [pending, hphase, hqueue, Phase.isOver, Phase.packet?, Queued.packet?]
  | grant hphase hopen => simp [pending, hphase, Phase.isOver, Phase.packet?]
  | deliver hphase => simp [pending, hphase, Phase.isOver, Phase.packet?]
  | finish hphase => simp [pending, hphase, Phase.isOver, Phase.packet?]
  | obey | giveUp | leave => cases hover

end Pacer

namespace SharedPacer

variable {s s' : SharedPacer α}

/-! ## Order -/

/-- What the queue took comes out in its order. -/
structure InOrder (s : SharedPacer α) : Prop where
  ordered : s.delivered <+: s.accepted.map Prod.snd
  lossless : s.pacer.phase.isOver = false →
    s.delivered ++ s.pacer.pending = s.accepted.map Prod.snd

theorem InOrder.worked {pacer : Pacer α} {packet : Option α} (h : s.InOrder)
    (hworked : s.pacer.Worked pacer packet) :
    InOrder { s with pacer, delivered := s.delivered ++ packet.toList } := by
  have hlossless : pacer.phase.isOver = false →
      s.delivered ++ packet.toList ++ pacer.pending = s.accepted.map Prod.snd := by
    intro hover
    obtain ⟨hbefore, hpending⟩ := hworked.pending_eq hover
    rw [List.append_assoc, ← hpending]
    exact h.lossless hbefore
  refine ⟨?_, hlossless⟩
  cases packet with
  | none => simpa using h.ordered
  | some p =>
    cases hworked with
    | deliver hphase => exact ⟨_, hlossless rfl⟩

theorem InOrder.change (h : s.InOrder) (hchange : s.Change s') : s'.InOrder := by
  cases hchange with
  | quiet hqueued => exact ⟨h.ordered, h.lossless⟩
  | queue hcall hhere =>
    refine ⟨?_, fun hover => ?_⟩
    · rw [List.map_append]
      exact h.ordered.trans (List.prefix_append ..)
    · rw [List.map_append, ← h.lossless hover]
      simp [Pacer.pending, Queued.packet?, setStage]
  | close hopen => exact ⟨h.ordered, h.lossless⟩
  | stop hdue =>
    refine ⟨h.ordered, fun hover => ?_⟩
    rw [Pacer.phase_offerStop] at hover
    rw [Pacer.pending_offerStop]
    exact h.lossless hover
  | work hworked => exact h.worked hworked

/-! ## Calls -/

/-- The calls whose packets the queue took are those of the list of accepted packets, each once. -/
structure Booked (s : SharedPacer α) : Prop where
  nodup : (s.accepted.map Prod.fst).Nodup
  mem_iff : ∀ i p, (i, p) ∈ s.accepted ↔ s.calls[i]? = some (EnqueueCall.mk p .queued)

theorem Booked.change (h : s.Booked) (hchange : s.Change s') : s'.Booked := by
  cases hchange with
  | quiet hqueued => exact ⟨h.nodup, fun i p => (h.mem_iff i p).trans (hqueued i p).symm⟩
  | @queue i p hcall hhere =>
    -- The call was still waiting, so that the list has nothing of it yet.
    have hnew : ∀ q, (i, q) ∉ s.accepted := by
      intro q hmem
      have hqueued := (h.mem_iff i q).1 hmem
      rw [hcall] at hqueued
      cases hqueued
    refine ⟨?_, fun j q => ?_⟩
    · rw [List.map_append, List.nodup_append]
      refine ⟨h.nodup, List.pairwise_singleton _ i, fun j hj k hk hjk => ?_⟩
      obtain ⟨⟨j, q⟩, hmem, rfl⟩ := List.mem_map.1 hj
      have hi : j = i := hjk.trans (List.mem_singleton.1 hk)
      exact hnew q (hi ▸ hmem)
    · show (j, q) ∈ s.accepted ++ [(i, p)] ↔ (s.setStage i .queued).calls[j]? = _
      rw [getElem?_setStage, List.mem_append, List.mem_singleton, h.mem_iff j q]
      by_cases hij : i = j
      · subst hij
        simp [hcall, eq_comm]
      · simp [hij, Ne.symm hij]
  | close hopen => exact ⟨h.nodup, h.mem_iff⟩
  | stop hdue => exact ⟨h.nodup, h.mem_iff⟩
  | work hworked => exact ⟨h.nodup, h.mem_iff⟩

/-! ## Closing -/

/-- Whatever ends the worker goes back to the flag. -/
structure Flagged (s : SharedPacer α) : Prop where
  of_due : s.stopDue = true → s.pacer.closed = true
  of_sign : .stop ∈ s.pacer.queue → s.pacer.closed = true
  of_over : s.pacer.phase.isOver = true → s.pacer.closed = true

theorem Flagged.worked {pacer : Pacer α} {packet : Option α} (h : s.Flagged)
    (hworked : s.pacer.Worked pacer packet) :
    Flagged { s with pacer, delivered := s.delivered ++ packet.toList } := by
  cases hworked with
  | stay => exact ⟨h.of_due, h.of_sign, h.of_over⟩
  | take hphase hqueue =>
    exact ⟨h.of_due, fun hmem => h.of_sign (hqueue ▸ List.mem_cons_of_mem _ hmem), nofun⟩
  | obey hphase hqueue =>
    have hclosed := h.of_sign (hqueue ▸ List.mem_cons_self)
    exact ⟨fun _ => hclosed, fun _ => hclosed, fun _ => hclosed⟩
  | giveUp hphase hclosed => exact ⟨fun _ => hclosed, fun _ => hclosed, fun _ => hclosed⟩
  | grant hphase hopen => exact ⟨h.of_due, h.of_sign, nofun⟩
  | deliver hphase => exact ⟨h.of_due, h.of_sign, nofun⟩
  | finish hphase => exact ⟨h.of_due, h.of_sign, nofun⟩
  | leave hphase => exact ⟨h.of_due, nofun, fun _ => h.of_over (by rw [hphase]; rfl)⟩

theorem Flagged.change (h : s.Flagged) (hchange : s.Change s') : s'.Flagged := by
  cases hchange with
  | quiet hqueued => exact ⟨h.of_due, h.of_sign, h.of_over⟩
  | queue hcall hhere =>
    refine ⟨h.of_due, fun hmem => h.of_sign ?_, h.of_over⟩
    simpa using hmem
  | close hopen => exact ⟨fun _ => rfl, fun _ => rfl, fun _ => rfl⟩
  | stop hdue =>
    have hclosed : s.pacer.offerStop.closed = true := by
      rw [Pacer.closed_offerStop]
      exact h.of_due hdue
    exact ⟨fun _ => hclosed, fun _ => hclosed, fun _ => hclosed⟩
  | work hworked => exact h.worked hworked

/-- A closed pacer stays closed. What it owes is counted with what it has delivered, so that the sum
does not grow. -/
theorem Change.owed_of_closed (hchange : s.Change s') (hclosed : s.pacer.closed = true) :
    s'.pacer.closed = true ∧
      s'.delivered.length + s'.pacer.phase.owed ≤ s.delivered.length + s.pacer.phase.owed := by
  cases hchange with
  | quiet hqueued => exact ⟨hclosed, Nat.le_refl _⟩
  | queue hcall hhere => exact ⟨hclosed, Nat.le_refl _⟩
  | close hopen => exact ⟨rfl, Nat.le_refl _⟩
  | stop hdue => exact ⟨by simpa using hclosed, by simp⟩
  | work hworked =>
    refine ⟨hworked.closed_eq.trans hclosed, ?_⟩
    cases hworked with
    -- A slot is what a closed pacer does not grant, and all else only pays what is owed.
    | grant hphase hopen => exact absurd (hclosed.symm.trans hopen) nofun
    | stay | take | obey | giveUp | deliver | finish | leave =>
      simp_all [Phase.owed, Pacer.exit]

theorem length_delivered_foldl_le (hclosed : s.pacer.closed = true) (later : List (ThreadEvent α)) :
    (later.foldl step s).delivered.length ≤ s.delivered.length + s.pacer.phase.owed := by
  induction later generalizing s with
  | nil => exact Nat.le_add_right ..
  | cons e later ih =>
    obtain ⟨hclosed', hle⟩ := (s.change_step e).owed_of_closed hclosed
    exact Nat.le_trans (ih hclosed') hle

/-! ## After the worker's end -/

/-- Without its worker a pacer neither takes nor delivers packets. -/
theorem Change.gone (hchange : s.Change s') (hexited : s.pacer.isExited = true) :
    s'.pacer.isExited = true ∧ s'.delivered = s.delivered ∧ s'.accepted = s.accepted := by
  cases hchange with
  | quiet hqueued => exact ⟨hexited, rfl, rfl⟩
  | queue hcall hhere => exact absurd (hexited.symm.trans hhere) nofun
  | close hopen => exact ⟨hexited, rfl, rfl⟩
  | stop hdue =>
    refine ⟨?_, rfl, rfl⟩
    rwa [Pacer.isExited_eq_true, Pacer.phase_offerStop, ← Pacer.isExited_eq_true]
  | work hworked =>
    have hphase := Pacer.isExited_eq_true.1 hexited
    cases hworked with
    | stay => exact ⟨hexited, List.append_nil _, rfl⟩
    | take h | obey h | giveUp h | grant h | deliver h | finish h | leave h =>
      exact absurd (hphase.symm.trans h) nofun

theorem gone_foldl (hexited : s.pacer.isExited = true) (later : List (ThreadEvent α)) :
    (later.foldl step s).pacer.isExited = true ∧
      (later.foldl step s).delivered = s.delivered ∧
      (later.foldl step s).accepted = s.accepted := by
  induction later generalizing s with
  | nil => exact ⟨hexited, rfl, rfl⟩
  | cons e later ih =>
    obtain ⟨hexited', hdelivered, haccepted⟩ := (s.change_step e).gone hexited
    obtain ⟨hend, hdelivered', haccepted'⟩ := ih hexited'
    exact ⟨hend, hdelivered'.trans hdelivered, haccepted'.trans haccepted⟩

/-- A call that has not returned when the worker is gone is refused in its next step. -/
theorem refused_proceed (h : s.Flagged) (hexited : s.pacer.isExited = true) {i : Nat}
    {c : EnqueueCall α} (hcall : s.calls[i]? = some c) (hopen : c.stage.isOpen = true) :
    (s.proceed i).calls[i]? = some { c with stage := .refused } := by
  obtain ⟨p, stage⟩ := c
  cases stage with
  | begun =>
    have hclosed : s.pacer.closed = true :=
      h.of_over (by rw [Pacer.isExited_eq_true.1 hexited]; rfl)
    simp [proceed, hcall, hclosed, getElem?_setStage]
  | sending => simp [proceed, hcall, Pacer.push, hexited, getElem?_setStage]
  | queued => cases hopen
  | refused => cases hopen

/-! ## The worker of a closed pacer -/

/-- Once the closer is done, a worker that turns to the queue finds something in it. -/
structure Roused (s : SharedPacer α) : Prop where
  room : 0 < s.pacer.capacity
  finds : s.pacer.closed = true → s.stopDue = false → s.pacer.phase.turnsToQueue = true →
    s.pacer.queue ≠ []

theorem Roused.worked {pacer : Pacer α} {packet : Option α} (h : s.Roused)
    (hworked : s.pacer.Worked pacer packet) :
    Roused { s with pacer, delivered := s.delivered ++ packet.toList } := by
  cases hworked with
  | stay => exact ⟨h.room, h.finds⟩
  | take hphase hqueue => exact ⟨h.room, nofun⟩
  | obey hphase hqueue => exact ⟨h.room, nofun⟩
  | giveUp hphase hclosed => exact ⟨h.room, nofun⟩
  | grant hphase hopen => exact ⟨h.room, fun hclosed => absurd (hclosed.symm.trans hopen) nofun⟩
  | deliver hphase =>
    exact ⟨h.room, fun hclosed hdue _ => h.finds hclosed hdue (by rw [hphase]; rfl)⟩
  | finish hphase =>
    exact ⟨h.room, fun hclosed hdue _ => h.finds hclosed hdue (by rw [hphase]; rfl)⟩
  | leave hphase => exact ⟨h.room, nofun⟩

theorem Roused.change (h : s.Roused) (hchange : s.Change s') : s'.Roused := by
  cases hchange with
  | quiet hqueued => exact ⟨h.room, h.finds⟩
  | queue hcall hhere => exact ⟨h.room, fun _ _ _ => List.append_ne_nil_of_right_ne_nil _ nofun⟩
  | close hopen => exact ⟨h.room, nofun⟩
  | stop hdue =>
    refine ⟨by simpa using h.room, fun _ _ hturns => Pacer.queue_offerStop_ne_nil h.room ?_⟩
    rw [Pacer.phase_offerStop] at hturns
    cases hexited : s.pacer.isExited with
    | false => rfl
    | true =>
      rw [Pacer.isExited_eq_true.1 hexited] at hturns
      cases hturns
  | work hworked => exact h.worked hworked

theorem roused_foldl (h : s.Roused) (events : List (ThreadEvent α)) :
    (events.foldl step s).Roused :=
  List.foldlRecOn events step h fun t ht e _ => ht.change (t.change_step e)

/-- A worker without a load waits for the queue, or is gone. -/
theorem isExited_of_load_eq_zero (h : s.Roused) (hclosed : s.pacer.closed = true)
    (hdue : s.stopDue = false) (hload : s.pacer.load = 0) : s.pacer.isExited = true := by
  unfold Pacer.load at hload
  rw [Pacer.isExited_eq_true]
  cases hphase : s.pacer.phase with
  | idle =>
    have hqueue := h.finds hclosed hdue (by rw [hphase]; rfl)
    have hpos := List.length_pos_iff.2 hqueue
    simp only [hphase] at hload
    omega
  | holding p => simp [hphase] at hload
  | granted p => simp [hphase] at hload
  | sent => simp [hphase] at hload
  | leaving => simp [hphase] at hload
  | exited => rfl

theorem isExited_foldl_work (h : s.Roused) (hclosed : s.pacer.closed = true)
    (hdue : s.stopDue = false) {moments : List Instant} (henough : s.pacer.load ≤ moments.length) :
    ((moments.map ThreadEvent.work).foldl step s).pacer.isExited = true := by
  induction moments generalizing s with
  | nil => exact isExited_of_load_eq_zero h hclosed hdue (Nat.le_zero.1 henough)
  | cons now moments ih =>
    by_cases hload : s.pacer.load = 0
    · exact (gone_foldl (isExited_of_load_eq_zero h hclosed hdue hload) _).1
    · have hless : (s.pacer.work s.limit now).1.load < s.pacer.load :=
        Pacer.load_work_lt (.inl hclosed) (Nat.pos_of_ne_zero hload)
      refine ih (h.change (s.change_step _)) ?_ hdue ?_
      · exact ((s.change_step _).owed_of_closed hclosed).1
      · rw [List.length_cons] at henough
        exact Nat.le_of_lt_succ (Nat.lt_of_lt_of_le hless henough)

/-- The worker of a closed pacer comes to its end in as many steps as its load, whatever the limit
and the clock say, and whether or not the queue had room for the stop sign. -/
theorem isExited_of_closed {capacity : Nat} (hroom : 0 < capacity) (limit : Option RateLimit)
    (events : List (ThreadEvent α)) (hclosed : (run capacity limit events).pacer.closed = true)
    (hdue : (run capacity limit events).stopDue = false) {moments : List Instant}
    (henough : (run capacity limit events).pacer.load ≤ moments.length) :
    (run capacity limit (events ++ moments.map .work)).pacer.isExited = true := by
  have hnew : Roused ({ pacer := { capacity }, limit } : SharedPacer α) := ⟨hroom, nofun⟩
  rw [run_append]
  exact isExited_foldl_work (roused_foldl hnew events) hclosed hdue henough

/-! ## Runs -/

/-- What the steps of the threads keep. -/
structure Inv (s : SharedPacer α) : Prop where
  inOrder : s.InOrder
  booked : s.Booked
  flagged : s.Flagged

theorem Inv.change (h : s.Inv) (hchange : s.Change s') : s'.Inv :=
  ⟨h.inOrder.change hchange, h.booked.change hchange, h.flagged.change hchange⟩

theorem inv_run (capacity : Nat) (limit : Option RateLimit) (events : List (ThreadEvent α)) :
    (run capacity limit events).Inv := by
  have hnew : Inv ({ pacer := { capacity }, limit } : SharedPacer α) :=
    ⟨⟨List.prefix_refl _, fun _ => rfl⟩, ⟨List.nodup_nil, by simp⟩, ⟨nofun, nofun, nofun⟩⟩
  exact List.foldlRecOn events step hnew fun s hs e _ => hs.change (s.change_step e)

/-- In every run the packets delivered are the first of those that the queue took, each from a call
of its own. Once the flag is set one more may follow; once the worker is gone none does, the queue
takes none, and a call that has not returned is refused in its next step. -/
theorem orderly_until_gone (capacity : Nat) (limit : Option RateLimit)
    (before later : List (ThreadEvent α)) :
    ((run capacity limit before).delivered <+: (run capacity limit before).accepted.map Prod.snd ∧
        ((run capacity limit before).accepted.map Prod.fst).Nodup ∧
        ∀ i p, (i, p) ∈ (run capacity limit before).accepted ↔
          (run capacity limit before).calls[i]? = some (EnqueueCall.mk p .queued)) ∧
      ((run capacity limit before).pacer.closed = true →
        (run capacity limit (before ++ later)).delivered.length ≤
          (run capacity limit before).delivered.length + 1) ∧
      ((run capacity limit before).pacer.isExited = true →
        (run capacity limit (before ++ later)).delivered = (run capacity limit before).delivered ∧
        (run capacity limit (before ++ later)).accepted = (run capacity limit before).accepted ∧
        ∀ i c, (run capacity limit (before ++ later)).calls[i]? = some c → c.stage.isOpen = true →
          (run capacity limit (before ++ later ++ [.proceed i])).calls[i]? =
            some { c with stage := .refused }) := by
  have hinv := inv_run capacity limit before
  refine ⟨⟨hinv.inOrder.ordered, hinv.booked.nodup, hinv.booked.mem_iff⟩, ?_, ?_⟩
  · intro hclosed
    rw [run_append]
    exact Nat.le_trans (length_delivered_foldl_le hclosed later)
      (Nat.add_le_add_left (Phase.owed_le_one _) _)
  · intro hexited
    obtain ⟨hgone, hdelivered, haccepted⟩ := gone_foldl hexited later
    rw [← run_append] at hgone hdelivered haccepted
    refine ⟨hdelivered, haccepted, fun i c hcall hopen => ?_⟩
    rw [run_append capacity limit (before ++ later)]
    exact refused_proceed (inv_run capacity limit (before ++ later)).flagged hgone hcall hopen

/-- A packet gets its slot, and a second fills the queue before the pacer is closed; a third
waits. -/
def closing : List (ThreadEvent Nat) :=
  [.enqueue 7, .enqueue 8, .enqueue 9, .proceed 0, .proceed 0, .work 0, .proceed 1, .proceed 1,
    .proceed 2, .work 1, .proceed 2, .markClosed, .offerStop]

/-- The worker sends the packet that has its slot, takes the second and leaves. -/
def ending : List (ThreadEvent Nat) := [.work 2, .work 3, .work 4, .work 5, .work 6]

theorem orderly_until_gone_late :
    (run 1 none (closing ++ ending)).delivered.length ≤ (run 1 none closing).delivered.length + 1 ∧
      (run 1 none (closing ++ ending)).delivered = [7] ∧
      (run 1 none (closing ++ ending)).accepted = [(0, 7), (1, 8)] ∧
      (run 1 none (closing ++ ending ++ [.enqueue 10] ++ [.proceed 2])).calls[2]? =
        some ⟨9, .refused⟩ ∧
      (run 1 none (closing ++ ending ++ [.enqueue 10] ++ [.proceed 3])).calls[3]? =
        some ⟨10, .refused⟩ := by
  obtain ⟨-, hlate, -⟩ := orderly_until_gone 1 none closing ending
  obtain ⟨-, -, hgone⟩ := orderly_until_gone 1 none (closing ++ ending) [.enqueue 10]
  obtain ⟨-, -, hrefused⟩ := hgone (by decide)
  exact ⟨hlate (by decide), by decide, by decide, hrefused 2 ⟨9, .sending⟩ (by decide) rfl,
    hrefused 3 ⟨10, .begun⟩ (by decide) rfl⟩

end SharedPacer

end MediaTransport
