import MediaTransport.Pacing.Pacer

/-!
# The record of a pacer's run

A run is a sequence of steps of the threads that share a pacer, in any order: the writers' and the
closer's, and the worker's, each with the limit and the clock that the worker finds. Beside the
pacer runs a record of what its worker did with each packet that got a slot: the limits that it read
for it, and when the packet got its slot, when its sending began and when that was over. The record
is of the packets that the worker sends, in their order (`packets_started`).
-/

namespace MediaTransport

/-- What the worker did with a packet that got a slot. -/
structure Sending (α : Type) where
  packet : α
  /-- The limit under which it got its slot. -/
  limit : Option RateLimit
  /-- The limits read before that, while the packet had to wait. -/
  waited : List (Option RateLimit)
  granted : Instant
  started : Option Instant := none
  /-- When the clock was read after the sending, which was over by then. -/
  finished : Option Instant := none
  deriving DecidableEq, Repr

/-- A step of one of the threads that share a pacer. -/
inductive PacerEvent (α : Type) where
  | push (p : α)
  | markClosed
  | offerStop
  | work (limit : Option RateLimit) (now : Instant)
  deriving DecidableEq, Repr

/-- The moment of a step, if it is one of the worker, which alone looks at the clock. -/
def PacerEvent.moment? {α : Type} : PacerEvent α → Option Instant
  | work _ now => some now
  | _ => none

/-- A pacer with the record of its run. -/
structure RecordedPacer (α : Type) where
  pacer : Pacer α
  /-- The limits read for the packet that waits now, the latest first. -/
  waited : List (Option RateLimit) := []
  /-- The packets that got a slot, the latest first. -/
  sendings : List (Sending α) := []
  /-- The packets sent, the latest first. -/
  sent : List α := []
  deriving DecidableEq, Repr

namespace RecordedPacer

variable {α : Type}

/-- Writes down what the worker does in its next step, and leaves the pacer as it is. -/
def note (r : RecordedPacer α) (limit : Option RateLimit) (now : Instant) : RecordedPacer α :=
  match r.pacer.phase with
  | .holding p =>
    if r.pacer.closed then r
    else
      match (r.pacer.window.check limit now).2 with
      | .granted => { r with
          waited := []
          sendings := { packet := p, limit, waited := r.waited, granted := now } :: r.sendings }
      | .waitUntil _ => { r with waited := limit :: r.waited }
  | .granted _ => { r with
      sendings := r.sendings.modifyHead fun x => { x with started := some now } }
  | .sent => { r with
      sendings := r.sendings.modifyHead fun x => { x with finished := some now } }
  | .idle | .leaving | .exited => r

/-- One step of a run. A packet that finds no room is not queued. -/
def step (r : RecordedPacer α) : PacerEvent α → RecordedPacer α
  | .push p =>
    match r.pacer.push p with
    | .queued pacer => { r with pacer }
    | .full | .gone => r
  | .markClosed => { r with pacer := r.pacer.markClosed }
  | .offerStop => { r with pacer := r.pacer.offerStop }
  | .work limit now =>
    let (pacer, packet) := r.pacer.work limit now
    { r.note limit now with pacer, sent := packet.toList ++ r.sent }

/-- The run of a new pacer through the given steps. -/
def run (capacity : Nat) (events : List (PacerEvent α)) : RecordedPacer α :=
  events.foldl step { pacer := { capacity } }

end RecordedPacer

/-! ## What a step can do -/

/-- A worker that is not sending. -/
def Phase.IsResting {α : Type} : Phase α → Prop
  | idle | holding _ | leaving | exited => True
  | granted _ | sent => False

theorem Phase.isResting_iff {α : Type} {phase phase' : Phase α}
    (h : phase' = phase ∨ phase.IsResting ∧ phase'.IsResting) :
    phase'.IsResting ↔ phase.IsResting := by
  rcases h with rfl | ⟨hresting, hresting'⟩
  · exact Iff.rfl
  · exact iff_of_true hresting' hresting

namespace RecordedPacer

variable {α : Type}

/-- What a step can do to the phase, the window and the record. Every step of a writer or a closer
is `quiet`. -/
inductive Change (r : RecordedPacer α) : Option Instant → RecordedPacer α → Prop
  /-- Nothing is read, granted or sent. -/
  | quiet {moment : Option Instant} {pacer : Pacer α} (hwindow : pacer.window = r.pacer.window)
      (hphase : pacer.phase = r.pacer.phase ∨
        r.pacer.phase.IsResting ∧ pacer.phase.IsResting) :
    Change r moment { r with pacer }
  | wait {p : α} {now : Instant} {limit : Option RateLimit} {pacer : Pacer α}
      (hphase : r.pacer.phase = .holding p) (hphase' : pacer.phase = .holding p)
      (hwait : (r.pacer.window.check limit now).2 ≠ .granted)
      (hwindow : pacer.window = (r.pacer.window.check limit now).1) :
    Change r (some now) { r with pacer, waited := limit :: r.waited }
  | grant {p : α} {now : Instant} {limit : Option RateLimit} {pacer : Pacer α}
      (hphase : r.pacer.phase = .holding p) (hphase' : pacer.phase = .granted p)
      (hgranted : (r.pacer.window.check limit now).2 = .granted)
      (hwindow : pacer.window = (r.pacer.window.check limit now).1) :
    Change r (some now) { r with
      pacer
      waited := []
      sendings := { packet := p, limit, waited := r.waited, granted := now } :: r.sendings }
  | start {p : α} {now : Instant} {pacer : Pacer α}
      (hphase : r.pacer.phase = .granted p) (hphase' : pacer.phase = .sent)
      (hwindow : pacer.window = r.pacer.window) :
    Change r (some now) { r with
      pacer
      sendings := r.sendings.modifyHead fun x => { x with started := some now }
      sent := p :: r.sent }
  | finish {now : Instant} {pacer : Pacer α}
      (hphase : r.pacer.phase = .sent) (hphase' : pacer.phase = .idle)
      (hwindow : pacer.window = r.pacer.window.stamp now) :
    Change r (some now) { r with
      pacer
      sendings := r.sendings.modifyHead fun x => { x with finished := some now } }

theorem Change.refl (r : RecordedPacer α) (moment : Option Instant) : r.Change moment r :=
  @Change.quiet α r moment r.pacer rfl (.inl rfl)

theorem change_step (r : RecordedPacer α) (e : PacerEvent α) : r.Change e.moment? (r.step e) := by
  cases e with
  | push p =>
    simp only [step, Pacer.push]
    by_cases hexited : r.pacer.isExited
    · rw [if_pos hexited]
      exact .refl r _
    · rw [if_neg hexited]
      by_cases hroom : r.pacer.queue.length < r.pacer.capacity
      · rw [if_pos hroom]
        exact .quiet rfl (.inl rfl)
      · rw [if_neg hroom]
        exact .refl r _
  | markClosed => exact .quiet rfl (.inl rfl)
  | offerStop =>
    simp only [step, Pacer.offerStop]
    by_cases hroom : ¬r.pacer.isExited ∧ r.pacer.queue.length < r.pacer.capacity
    · rw [if_pos hroom]
      exact .quiet rfl (.inl rfl)
    · rw [if_neg hroom]
      exact .refl r _
  | work limit now =>
    obtain ⟨⟨capacity, queue, closed, phase, window⟩, waited, sendings, sent⟩ := r
    cases phase with
    | idle =>
      match queue with
      | [] => exact .refl _ _
      | .packet p :: rest => exact .quiet rfl (.inr ⟨trivial, trivial⟩)
      | .stop :: rest => exact .quiet rfl (.inr ⟨trivial, trivial⟩)
    | holding p =>
      cases closed with
      | true => exact .quiet rfl (.inr ⟨trivial, trivial⟩)
      | false =>
        simp only [step, note, Pacer.work, Bool.false_eq_true, if_false]
        rcases hcheck : window.check limit now with ⟨after, slot⟩
        cases slot with
        | granted => exact .grant rfl rfl (by rw [hcheck]) (by rw [hcheck])
        | waitUntil due => exact .wait rfl rfl (by rw [hcheck]; exact nofun) (by rw [hcheck])
    | granted p => exact .start rfl rfl rfl
    | sent => exact .finish rfl rfl rfl
    | leaving => exact .quiet rfl (.inr ⟨trivial, trivial⟩)
    | exited => exact .refl _ _

/-! ## The record is true -/

/-- The packets whose sending has begun, the latest first. -/
def started (xs : List (Sending α)) : List α :=
  (xs.filter fun x => x.started.isSome).map Sending.packet

/-- The record agrees with what the worker sent and is about to send. -/
structure Faithful (r : RecordedPacer α) : Prop where
  sent_eq : r.sent = started r.sendings
  pending : ∀ p, r.pacer.phase = .granted p →
    ∃ x xs, r.sendings = x :: xs ∧ x.packet = p ∧ x.started = none

theorem Faithful.change {r r' : RecordedPacer α} {moment : Option Instant} (hr : r.Faithful)
    (h : r.Change moment r') : r'.Faithful := by
  cases h with
  | quiet hwindow hphase =>
    refine ⟨hr.sent_eq, fun p hp => ?_⟩
    rcases hphase with hsame | ⟨-, hresting⟩
    · exact hr.pending p (hsame ▸ hp)
    · have hgranted : (Phase.granted p).IsResting := hp ▸ hresting
      exact hgranted.elim
  | wait hphase hphase' hwait hwindow =>
    refine ⟨hr.sent_eq, fun p hp => ?_⟩
    simp only [hphase', reduceCtorEq] at hp
  | grant hphase hphase' hgranted hwindow =>
    refine ⟨hr.sent_eq, fun p hp => ⟨_, _, rfl, ?_, rfl⟩⟩
    simp only [hphase', Phase.granted.injEq] at hp
    exact hp
  | start hphase hphase' hwindow =>
    refine ⟨?_, fun p hp => ?_⟩
    · obtain ⟨x, xs, hsendings, hpacket, hstarted⟩ := hr.pending _ hphase
      have hsent := hr.sent_eq
      rw [hsendings] at hsent ⊢
      rw [hsent]
      simp [started, hpacket, hstarted]
    · simp only [hphase', reduceCtorEq] at hp
  | finish hphase hphase' hwindow =>
    refine ⟨?_, fun p hp => ?_⟩
    · show r.sent = started (r.sendings.modifyHead _)
      rw [hr.sent_eq]
      cases r.sendings with
      | nil => rfl
      | cons x xs => cases hstarted : x.started <;> simp [started, hstarted]
    · simp only [hphase', reduceCtorEq] at hp

theorem faithful_foldl {r : RecordedPacer α} (hr : r.Faithful) (events : List (PacerEvent α)) :
    (events.foldl step r).Faithful := by
  induction events generalizing r with
  | nil => exact hr
  | cons e events ih => exact ih (hr.change (r.change_step e))

/-- The sendings that have begun are of the packets that the worker sent, in their order. -/
theorem packets_started (capacity : Nat) (events : List (PacerEvent α)) :
    started (run capacity events).sendings = (run capacity events).sent := by
  have hnew : Faithful ({ pacer := { capacity } } : RecordedPacer α) := ⟨rfl, nofun⟩
  exact (faithful_foldl hnew events).sent_eq.symm

end RecordedPacer

end MediaTransport
