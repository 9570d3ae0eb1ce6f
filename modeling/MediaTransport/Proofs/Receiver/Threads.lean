import MediaTransport.Receiver.Lifecycle

/-!
# The threads of a receiver

Any number of calls that start or close a receiver, and the thread of its loop, cut into the steps
that nothing comes between. A call to start takes the lock on the state to look at it, and has the
lock until the loop is there and callers see that it runs; so that a loop which fails at once has to
wait for that with its first step. A call to close takes the lock for its first step alone. A
closing call that has taken its second step only waits for the loop to end, which changes nothing
more.

What a step does is said once, by `change_step`, and the invariants of a run go by cases on that.
-/

namespace MediaTransport

namespace ReceiverState

/-- Why a receiver cannot be started in a state. -/
def refusal? : ReceiverState → Option TransportError
  | notStarted => none
  | running => some .alreadyStarted
  | failed => some .receiveFailed
  | closed => some .closed

theorem refusal?_eq_none_iff {state : ReceiverState} :
    state.refusal? = none ↔ state = notStarted := by
  cases state <;> decide

end ReceiverState

namespace Lifecycle

/-- The loop is there, and callers do not see it yet. -/
def spawn (l : Lifecycle) : Lifecycle := { l with loop := .reading }

/-- Callers see that the receiver runs. -/
def markRunning (l : Lifecycle) : Lifecycle := { l with state := .running }

/-- To start a receiver is to look at its state and then to take both steps. -/
theorem start_eq (l : Lifecycle) :
    l.start = match l.state.refusal? with
      | none => .ok l.spawn.markRunning
      | some error => .error error := by
  unfold start
  cases l.state <;> rfl

end Lifecycle

/-- Where a call that starts or closes a receiver stands. -/
inductive LifeCall where
  /-- It wants to start the receiver. -/
  | starting
  /-- It has found the receiver not started, and has the lock. -/
  | admitted
  /-- It has made the thread of the loop, and has the lock. -/
  | spawned
  | started
  | refused (error : TransportError)
  /-- There was no thread to be had for the loop. -/
  | threadless
  /-- It wants to close the receiver. -/
  | closing
  /-- It has set the state, and not yet the flag. -/
  | marked
  | closed
  deriving DecidableEq, Repr

/-- Whether a call has the lock between its steps. -/
def LifeCall.holdsLock : LifeCall → Bool
  | admitted | spawned => true
  | _ => false

/-- Whether a call has returned, or only waits for the loop to end. -/
def LifeCall.isOver : LifeCall → Bool
  | started | refused _ | threadless | closed => true
  | _ => false

/-- A step of one of the threads. -/
inductive LifeEvent where
  /-- A call to start begins; the calls are numbered in the order in which they begin. -/
  | start
  /-- A call to close begins. -/
  | close
  /-- The call of that number takes its next step. One that needs the lock stays where it is while
  another call has it. -/
  | proceed (i : Nat)
  /-- The call of that number gets no thread for the loop. -/
  | denyThread (i : Nat)
  /-- The loop looks at the flag. -/
  | leave
  /-- The loop takes its first step after a failure, which needs the lock. -/
  | markFailed
  | raiseFailed
  deriving DecidableEq, Repr

/-- A receiver with the threads that share it. -/
structure SharedReceiver where
  life : Lifecycle := {}
  /-- The call that has the lock on the state between its steps. -/
  holder : Option Nat := none
  calls : List LifeCall := []
  deriving DecidableEq, Repr

namespace SharedReceiver

/-- A call to start looks at the state. -/
def beginStart (s : SharedReceiver) (i : Nat) : SharedReceiver :=
  match s.life.start with
  | .ok _ => { s with calls := s.calls.set i .admitted, holder := some i }
  | .error error => { s with calls := s.calls.set i (.refused error) }

/-- A call to close sets the state, unless another one has. -/
def beginClose (s : SharedReceiver) (i : Nat) : SharedReceiver :=
  if s.life.state = .closed then
    { s with calls := s.calls.set i .closed }
  else
    { s with calls := s.calls.set i .marked, life := s.life.markClosed }

/-- The next step of a call. -/
def proceed (s : SharedReceiver) (i : Nat) : SharedReceiver :=
  match s.calls[i]? with
  | some .starting => if s.holder.isSome then s else s.beginStart i
  | some .admitted => { s with calls := s.calls.set i .spawned, life := s.life.spawn }
  | some .spawned =>
    { s with calls := s.calls.set i .started, life := s.life.markRunning, holder := none }
  | some .closing => if s.holder.isSome then s else s.beginClose i
  | some .marked => { s with calls := s.calls.set i .closed, life := s.life.raiseClosed }
  | some .started | some (.refused _) | some .threadless | some .closed | none => s

def step (s : SharedReceiver) : LifeEvent → SharedReceiver
  | .start => { s with calls := s.calls ++ [.starting] }
  | .close => { s with calls := s.calls ++ [.closing] }
  | .proceed i => s.proceed i
  | .denyThread i =>
    if s.calls[i]? = some .admitted then
      { s with calls := s.calls.set i .threadless, holder := none }
    else s
  | .leave => { s with life := s.life.leave }
  | .markFailed => if s.holder.isSome then s else { s with life := s.life.markFailed }
  | .raiseFailed => { s with life := s.life.raiseFailed }

/-- The run of the threads of a new receiver through the given steps. -/
def run (events : List LifeEvent) : SharedReceiver := events.foldl step {}

theorem run_append (before later : List LifeEvent) :
    run (before ++ later) = later.foldl step (run before) :=
  List.foldl_append

/-! ## What a step can do -/

/-- What a step does. -/
inductive Change (s : SharedReceiver) : SharedReceiver → Prop
  | stay : Change s s
  /-- A call begins. -/
  | call {call : LifeCall} (hnew : call = .starting ∨ call = .closing) :
    Change s { s with calls := s.calls ++ [call] }
  | refuse {i : Nat} {error : TransportError} (hcall : s.calls[i]? = some .starting)
      (hstate : s.life.state.refusal? = some error) :
    Change s { s with calls := s.calls.set i (.refused error) }
  | enter {i : Nat} (hcall : s.calls[i]? = some .starting) (hfree : s.holder = none)
      (hstate : s.life.state = .notStarted) :
    Change s { s with calls := s.calls.set i .admitted, holder := some i }
  | deny {i : Nat} (hcall : s.calls[i]? = some .admitted) :
    Change s { s with calls := s.calls.set i .threadless, holder := none }
  | spawn {i : Nat} (hcall : s.calls[i]? = some .admitted) :
    Change s { s with calls := s.calls.set i .spawned, life := s.life.spawn }
  | publish {i : Nat} (hcall : s.calls[i]? = some .spawned) :
    Change s { s with calls := s.calls.set i .started, life := s.life.markRunning, holder := none }
  /-- A call finds that the receiver is closed. -/
  | closeAgain {i : Nat} (hcall : s.calls[i]? = some .closing) :
    Change s { s with calls := s.calls.set i .closed }
  | markClosed {i : Nat} (hcall : s.calls[i]? = some .closing) (hfree : s.holder = none) :
    Change s { s with calls := s.calls.set i .marked, life := s.life.markClosed }
  | raiseClosed {i : Nat} (hcall : s.calls[i]? = some .marked) :
    Change s { s with calls := s.calls.set i .closed, life := s.life.raiseClosed }
  | leave (hreading : s.life.loop = .reading) (hclosed : s.life.closed = true) :
    Change s { s with life := { s.life with loop := .ended } }
  | markFailed (hfree : s.holder = none) (hreading : s.life.loop = .reading) :
    Change s { s with life := { s.life with
      state := if s.life.state = .running then .failed else s.life.state
      loop := .failing } }
  | raiseFailed (hfailing : s.life.loop = .failing) :
    Change s { s with life := { s.life with failed := true, loop := .ended } }

theorem change_proceed (s : SharedReceiver) (i : Nat) : s.Change (s.proceed i) := by
  unfold proceed
  cases hcall : s.calls[i]? with
  | none => exact .stay
  | some call =>
    cases call with
    | starting =>
      cases hholder : s.holder with
      | some j => exact .stay
      | none =>
        show s.Change (s.beginStart i)
        unfold beginStart
        rw [s.life.start_eq]
        cases hrefusal : s.life.state.refusal? with
        | none => exact .enter hcall hholder (ReceiverState.refusal?_eq_none_iff.1 hrefusal)
        | some error => exact .refuse hcall hrefusal
    | admitted => exact .spawn hcall
    | spawned => exact .publish hcall
    | closing =>
      cases hholder : s.holder with
      | some j => exact .stay
      | none =>
        show s.Change (s.beginClose i)
        unfold beginClose
        split
        next => exact .closeAgain hcall
        next => exact .markClosed hcall hholder
    | marked => exact .raiseClosed hcall
    | started | refused error | threadless | closed => exact .stay

theorem change_step (s : SharedReceiver) (e : LifeEvent) : s.Change (s.step e) := by
  cases e with
  | start => exact .call (.inl rfl)
  | close => exact .call (.inr rfl)
  | proceed i => exact s.change_proceed i
  | denyThread i =>
    simp only [step]
    split
    next hcall => exact .deny hcall
    next => exact .stay
  | leave =>
    simp only [step, Lifecycle.leave]
    split
    next h => exact .leave h.1 h.2
    next => exact .stay
  | markFailed =>
    simp only [step, Lifecycle.markFailed]
    split
    next => exact .stay
    next hheld =>
      have hfree : s.holder = none := Option.not_isSome_iff_eq_none.1 hheld
      split
      next hreading => exact .markFailed hfree hreading
      next => exact .stay
  | raiseFailed =>
    simp only [step, Lifecycle.raiseFailed]
    split
    next hfailing => exact .raiseFailed hfailing
    next => exact .stay

/-- Where a call stands after one of the calls has got on. -/
theorem eq_of_set {calls : List LifeCall} {i j : Nat} {call other : LifeCall}
    (h : (calls.set i call)[j]? = some other) :
    i = j ∧ other = call ∨ i ≠ j ∧ calls[j]? = some other := by
  rw [List.getElem?_set] at h
  by_cases hij : i = j
  · rw [if_pos hij] at h
    split at h
    next => exact .inl ⟨hij, (Option.some.inj h).symm⟩
    next => cases h
  · rw [if_neg hij] at h
    exact .inr ⟨hij, h⟩

/-- A call that does not stand where that one got stood there before. -/
theorem old_of_set {calls : List LifeCall} {i j : Nat} {call other : LifeCall}
    (h : (calls.set i call)[j]? = some other) (hne : other ≠ call) : calls[j]? = some other := by
  rcases eq_of_set h with ⟨-, heq⟩ | ⟨-, hold⟩
  · exact absurd heq hne
  · exact hold

/-- A call does not change while another one gets on. -/
theorem kept_of_set {calls : List LifeCall} {i j : Nat} {before call other : LifeCall}
    (hi : calls[i]? = some before) (hj : calls[j]? = some other) (hne : other ≠ before) :
    (calls.set i call)[j]? = some other := by
  have hij : i ≠ j := by
    rintro rfl
    exact hne (Option.some.inj (hj.symm.trans hi))
  rwa [List.getElem?_set_ne hij]

/-- A call that does not stand where a new one does was there before. -/
theorem old_of_append {calls : List LifeCall} {j : Nat} {call other : LifeCall}
    (h : (calls ++ [call])[j]? = some other) (hne : other ≠ call) : calls[j]? = some other := by
  by_cases hinside : j < calls.length
  · rwa [List.getElem?_append_left hinside] at h
  · rw [List.getElem?_append_right (Nat.le_of_not_lt hinside)] at h
    exact absurd (List.mem_singleton.1 (List.mem_of_getElem? h)) hne

end SharedReceiver

end MediaTransport
