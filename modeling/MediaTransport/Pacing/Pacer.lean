import MediaTransport.Pacing.Window

/-!
# Pacer

A bounded queue, and a worker that takes packets off it and sends each when the rate limit lets it.
What the threads that share a pacer do is cut into steps that nothing comes between: a writer looks
whether the pacer is closed (`closed`) and then queues its packet (`push`), whoever closes it sets
the flag (`markClosed`) and then tries to queue a stop sign (`offerStop`), and the worker goes from
phase to phase (`work`).

A full queue gets no stop sign and needs none: the worker has a packet to look at then, and looks at
the flag before it sends one.
-/

namespace MediaTransport

/-- What stands in the queue. -/
inductive Queued (α : Type) where
  | packet (p : α)
  /-- Nothing after this is sent. -/
  | stop
  deriving DecidableEq, Repr

/-- Where the worker is. -/
inductive Phase (α : Type) where
  /-- It waits for the queue. -/
  | idle
  /-- Its packet waits for a slot. -/
  | holding (p : α)
  /-- Its packet may go. -/
  | granted (p : α)
  /-- Its packet is out, and it is about to look at the clock. -/
  | sent
  /-- It takes no more packets, and is about to drop the queue. -/
  | leaving
  | exited
  deriving DecidableEq, Repr

/-- A queue with its worker. -/
structure Pacer (α : Type) where
  /-- Packets that may wait in the queue. -/
  capacity : Nat
  queue : List (Queued α) := []
  closed : Bool := false
  phase : Phase α := .idle
  window : Window := {}
  deriving DecidableEq, Repr

/-- What became of a packet for the queue. -/
inductive Push (α : Type) where
  | queued (s : Pacer α)
  /-- There is no room now. -/
  | full
  /-- The worker has exited, and nobody takes it. -/
  | gone
  deriving DecidableEq, Repr

namespace Pacer

variable {α : Type}

/-! ## Writers -/

/-- Whether the worker has exited. -/
def isExited (s : Pacer α) : Bool :=
  match s.phase with
  | .exited => true
  | _ => false

/-- Tries to queue a packet. -/
def push (s : Pacer α) (p : α) : Push α :=
  if s.isExited then .gone
  else if s.queue.length < s.capacity then .queued { s with queue := s.queue ++ [.packet p] }
  else .full

/-! ## Closing -/

/-- Sets the flag that the worker looks at before each packet. -/
def markClosed (s : Pacer α) : Pacer α := { s with closed := true }

/-- Queues a stop sign if there is room for it. -/
def offerStop (s : Pacer α) : Pacer α :=
  if ¬s.isExited ∧ s.queue.length < s.capacity then { s with queue := s.queue ++ [.stop] } else s

/-- Sets the flag and wakes a worker that waits for the queue. -/
def close (s : Pacer α) : Pacer α := s.markClosed.offerStop

/-! ## The worker -/

/-- The end of the worker; what is still in the queue is dropped. -/
def exit (s : Pacer α) : Pacer α := { s with queue := [], phase := .exited }

/-- One step of the worker at the moment `now`, under the limit of that moment, and the packet that
it sends in it. A worker that has to wait stays where it is. -/
def work (limit : Option RateLimit) (now : Instant) (s : Pacer α) : Pacer α × Option α :=
  match s.phase with
  | .idle =>
    match s.queue with
    | .packet p :: rest => ({ s with queue := rest, phase := .holding p }, none)
    | .stop :: rest => ({ s with queue := rest, phase := .leaving }, none)
    | [] => (s, none)
  | .holding p =>
    if s.closed then
      ({ s with phase := .leaving }, none)
    else
      match s.window.check limit now with
      | (window, .granted) => ({ s with window, phase := .granted p }, none)
      | (window, .waitUntil _) => ({ s with window }, none)
  | .granted p => ({ s with phase := .sent }, some p)
  | .sent => ({ s with window := s.window.stamp now, phase := .idle }, none)
  | .leaving => (s.exit, none)
  | .exited => (s, none)

/-- When the worker can go on, if it waits for a slot. -/
def due? (limit : Option RateLimit) (now : Instant) (s : Pacer α) : Option Instant :=
  match s.phase with
  | .holding _ =>
    match (s.window.check limit now).2 with
    | .waitUntil due => some due
    | .granted => none
  | _ => none

/-- A bound on the steps that the worker can take before it has to wait: four for each packet in the
queue, and what is left for the one that it has. -/
def load (s : Pacer α) : Nat :=
  let queued := 4 * s.queue.length
  match s.phase with
  | .idle => queued
  | .holding _ => queued + 3
  | .granted _ => queued + 2
  | .sent | .leaving => queued + 1
  | .exited => 0

/-- A worker that does not wait for a slot, or is told to end, gets on with its load. -/
theorem load_work_lt {limit : Option RateLimit} {now : Instant} {s : Pacer α}
    (h : s.closed = true ∨ s.due? limit now = none) (hload : 0 < s.load) :
    (s.work limit now).1.load < s.load := by
  unfold due? at h
  unfold load at hload
  unfold work
  cases hphase : s.phase with
  | idle =>
    cases hqueue : s.queue with
    | nil => simp [hphase, hqueue] at hload
    | cons q rest =>
      cases q with
      | packet p => simp only [load, hphase, hqueue, List.length_cons]; omega
      | stop => simp only [load, hphase, hqueue, List.length_cons]; omega
  | holding p =>
    simp only [hphase] at h
    cases hclosed : s.closed with
    | true => simp only [load, hphase, if_true]; omega
    | false =>
      cases hcheck : s.window.check limit now with
      | mk window slot =>
        cases slot with
        | granted => simp [load, hphase]
        | waitUntil due => simp [hclosed, hcheck] at h
  | granted p => simp [load, hphase]
  | sent => simp [load, hphase]
  | leaving => simp [load, exit, hphase]
  | exited => simp [hphase] at hload

end Pacer

end MediaTransport
