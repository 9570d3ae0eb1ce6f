import MediaTransport.Pacing.Pacer

/-!
# The threads of a pacer

Any number of calls that queue a packet, changes of the rate limit, whoever closes the pacer, and
the worker: what they do is cut into steps, and a run is a sequence of these in any order. A call
begins, looks at the flag, and then tries its packet on the queue until that takes it or the worker
is gone. The worker looks at the flag, the limit and the clock in one step; whatever is set between
these looks could as well have been set before the step or after it.

What a step does to the pacer and its calls is said once, by `worked_work` for the worker and by
`change_step` for all threads, and the invariants of a run go by cases on that.
-/

namespace MediaTransport

/-- Where a call that queues a packet stands. -/
inductive EnqueueStage where
  /-- It has not looked at the flag yet. -/
  | begun
  /-- It waits for room in the queue. -/
  | sending
  /-- The queue has its packet. -/
  | queued
  /-- The pacer is closed. -/
  | refused
  deriving DecidableEq, Repr

/-- Whether a call has not returned. -/
def EnqueueStage.isOpen : EnqueueStage → Bool
  | begun | sending => true
  | queued | refused => false

/-- A call that queues a packet. -/
structure EnqueueCall (α : Type) where
  packet : α
  stage : EnqueueStage := .begun
  deriving DecidableEq, Repr

/-- A step of one of the threads. -/
inductive ThreadEvent (α : Type) where
  /-- A call begins; the calls are numbered in this order. -/
  | enqueue (p : α)
  /-- The call of that number takes its next step, if it has not returned. -/
  | proceed (i : Nat)
  | setLimit (limit : Option RateLimit)
  /-- The first half of closing the pacer, which does nothing the second time. -/
  | markClosed
  | offerStop
  | work (now : Instant)
  deriving DecidableEq, Repr

/-- A pacer with the threads that share it. -/
structure SharedPacer (α : Type) where
  pacer : Pacer α
  limit : Option RateLimit
  /-- Whether the flag is set and the stop sign not offered yet. -/
  stopDue : Bool := false
  calls : List (EnqueueCall α) := []
  /-- The packets that the queue took, each with the number of its call. -/
  accepted : List (Nat × α) := []
  delivered : List α := []
  deriving DecidableEq, Repr

namespace SharedPacer

variable {α : Type}

def setStage (s : SharedPacer α) (i : Nat) (stage : EnqueueStage) : SharedPacer α :=
  { s with calls := s.calls.modify i fun c => { c with stage } }

/-- The next step of a call. One that finds the queue full stays where it is. -/
def proceed (s : SharedPacer α) (i : Nat) : SharedPacer α :=
  match s.calls[i]? with
  | some ⟨_, .begun⟩ => s.setStage i (if s.pacer.closed then .refused else .sending)
  | some ⟨p, .sending⟩ =>
    match s.pacer.push p with
    | .queued pacer => { s.setStage i .queued with pacer, accepted := s.accepted ++ [(i, p)] }
    | .full => s
    | .gone => s.setStage i .refused
  | some ⟨_, .queued⟩ | some ⟨_, .refused⟩ | none => s

def step (s : SharedPacer α) : ThreadEvent α → SharedPacer α
  | .enqueue p => { s with calls := s.calls ++ [{ packet := p }] }
  | .proceed i => s.proceed i
  | .setLimit limit => { s with limit }
  | .markClosed =>
    if s.pacer.closed then s else { s with pacer := s.pacer.markClosed, stopDue := true }
  | .offerStop =>
    if s.stopDue then { s with pacer := s.pacer.offerStop, stopDue := false } else s
  | .work now =>
    let (pacer, packet) := s.pacer.work s.limit now
    { s with pacer, delivered := s.delivered ++ packet.toList }

/-- The run of the threads of a new pacer through the given steps. -/
def run (capacity : Nat) (limit : Option RateLimit) (events : List (ThreadEvent α)) :
    SharedPacer α :=
  events.foldl step { pacer := { capacity }, limit }

theorem run_append (capacity : Nat) (limit : Option RateLimit)
    (before later : List (ThreadEvent α)) :
    run capacity limit (before ++ later) = later.foldl step (run capacity limit before) :=
  List.foldl_append

end SharedPacer

/-! ## What a step can do -/

namespace Pacer

variable {α : Type}

/-- What the worker does in a step, and the packet that it sends in it. -/
inductive Worked (s : Pacer α) : Pacer α → Option α → Prop
  /-- It waits, or is gone. -/
  | stay {window : Window} : Worked s { s with window } none
  | take {p : α} {rest : List (Queued α)} (hphase : s.phase = .idle)
      (hqueue : s.queue = .packet p :: rest) :
    Worked s { s with queue := rest, phase := .holding p } none
  | obey {rest : List (Queued α)} (hphase : s.phase = .idle) (hqueue : s.queue = .stop :: rest) :
    Worked s { s with queue := rest, phase := .leaving } none
  | giveUp {p : α} (hphase : s.phase = .holding p) (hclosed : s.closed = true) :
    Worked s { s with phase := .leaving } none
  | grant {p : α} {window : Window} (hphase : s.phase = .holding p) (hopen : s.closed = false) :
    Worked s { s with window, phase := .granted p } none
  | deliver {p : α} (hphase : s.phase = .granted p) : Worked s { s with phase := .sent } (some p)
  | finish {window : Window} (hphase : s.phase = .sent) :
    Worked s { s with window, phase := .idle } none
  | leave (hphase : s.phase = .leaving) : Worked s s.exit none

theorem worked_work (limit : Option RateLimit) (now : Instant) (s : Pacer α) :
    s.Worked (s.work limit now).1 (s.work limit now).2 := by
  obtain ⟨capacity, queue, closed, phase, window⟩ := s
  cases phase with
  | idle =>
    match queue with
    | [] => exact .stay
    | .packet p :: rest => exact .take rfl rfl
    | .stop :: rest => exact .obey rfl rfl
  | holding p =>
    cases closed with
    | true => exact .giveUp rfl rfl
    | false =>
      simp only [work, Bool.false_eq_true, if_false]
      rcases window.check limit now with ⟨after, _ | due⟩
      · exact .grant rfl rfl
      · exact .stay
  | granted p => exact .deliver rfl
  | sent => exact .finish rfl
  | leaving => exact .leave rfl
  | exited => exact .stay

end Pacer

namespace SharedPacer

variable {α : Type}

/-- What a step does. -/
inductive Change (s : SharedPacer α) : SharedPacer α → Prop
  /-- The limit is set, or a call begins or gets on, and the queue has the packets that it had. -/
  | quiet {limit : Option RateLimit} {calls : List (EnqueueCall α)}
      (hqueued : ∀ (i : Nat) (p : α), calls[i]? = some (EnqueueCall.mk p .queued) ↔
        s.calls[i]? = some (EnqueueCall.mk p .queued)) :
    Change s { s with limit, calls }
  | queue {i : Nat} {p : α} (hcall : s.calls[i]? = some (EnqueueCall.mk p .sending))
      (hhere : s.pacer.isExited = false) :
    Change s { s.setStage i .queued with
      pacer := { s.pacer with queue := s.pacer.queue ++ [.packet p] }
      accepted := s.accepted ++ [(i, p)] }
  | close (hopen : s.pacer.closed = false) :
    Change s { s with pacer := s.pacer.markClosed, stopDue := true }
  | stop (hdue : s.stopDue = true) :
    Change s { s with pacer := s.pacer.offerStop, stopDue := false }
  | work {pacer : Pacer α} {packet : Option α} (hworked : s.pacer.Worked pacer packet) :
    Change s { s with pacer, delivered := s.delivered ++ packet.toList }

theorem Change.refl (s : SharedPacer α) : s.Change s :=
  @Change.quiet α s s.limit s.calls fun _ _ => Iff.rfl

theorem getElem?_setStage (s : SharedPacer α) (i j : Nat) (stage : EnqueueStage) :
    (s.setStage i stage).calls[j]? =
      s.calls[j]?.map fun c => if i = j then { c with stage } else c :=
  List.getElem?_modify ..

theorem change_setStage {s : SharedPacer α} {i : Nat} {c : EnqueueCall α} {stage : EnqueueStage}
    (hcall : s.calls[i]? = some c) (hopen : c.stage.isOpen) (hstage : stage ≠ .queued) :
    s.Change (s.setStage i stage) := by
  refine .quiet fun j p => ?_
  have hj := s.getElem?_setStage i j stage
  simp only [setStage] at hj
  rw [hj]
  by_cases hij : i = j
  · subst hij
    obtain ⟨packet, before⟩ := c
    rw [hcall]
    cases before <;> simp_all [EnqueueStage.isOpen]
  · simp [hij]

theorem change_proceed (s : SharedPacer α) (i : Nat) : s.Change (s.proceed i) := by
  unfold proceed
  cases hcall : s.calls[i]? with
  | none => exact .refl s
  | some c =>
    obtain ⟨p, stage⟩ := c
    cases stage with
    | begun =>
      refine change_setStage hcall rfl ?_
      cases s.pacer.closed <;> exact nofun
    | sending =>
      simp only [Pacer.push]
      by_cases hexited : s.pacer.isExited
      · rw [if_pos hexited]
        exact change_setStage hcall rfl nofun
      · rw [if_neg hexited]
        by_cases hroom : s.pacer.queue.length < s.pacer.capacity
        · rw [if_pos hroom]
          exact .queue hcall (Bool.not_eq_true _ ▸ hexited)
        · rw [if_neg hroom]
          exact .refl s
    | queued => exact .refl s
    | refused => exact .refl s

theorem change_step (s : SharedPacer α) (e : ThreadEvent α) : s.Change (s.step e) := by
  cases e with
  | enqueue p =>
    refine .quiet fun i q => ?_
    -- The new call stands behind all others and has only begun.
    by_cases hi : i < s.calls.length
    · rw [List.getElem?_append_left hi]
    · rw [List.getElem?_append_right (Nat.le_of_not_lt hi),
        List.getElem?_eq_none (Nat.le_of_not_lt hi)]
      cases i - s.calls.length <;> simp
  | proceed i => exact s.change_proceed i
  | setLimit limit => exact .quiet fun _ _ => Iff.rfl
  | markClosed =>
    simp only [step]
    cases hclosed : s.pacer.closed with
    | true => exact .refl s
    | false => exact .close hclosed
  | offerStop =>
    simp only [step]
    cases hdue : s.stopDue with
    | true => exact .stop hdue
    | false => exact .refl s
  | work now => exact .work (s.pacer.worked_work s.limit now)

end SharedPacer

end MediaTransport
