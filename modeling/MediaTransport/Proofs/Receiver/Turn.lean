import MediaTransport.Receiver.Basic

/-!
# A turn of the receive loop

What one turn does to a receiver that nobody closes: a timeout leaves it as it is, a datagram is
counted and then stopped by a filter, dropped by the stage or handed over (`turn_receive`), and any
other failure ends the loop (`receive_error`). The packet that the stage gets has the bytes of the
datagram, and the copy that is kept has the bytes that are handed over, whatever the two reused
packets had in them before.

A whole run of the loop is then a sequence of turns, up to the first failure that is not a timeout
(`heard_receiveAll`).
-/

namespace MediaTransport

namespace Filter

/-- Whether a datagram gets past the filters. -/
def allAccept (filters : List Filter) (bytes : Bytes) (source : Address) : Bool :=
  filters.all fun f => (f.judge bytes source).accepted

/-- A filter is consulted just when all before it accept the datagram. -/
theorem getElem?_consult (bytes : Bytes) (source : Address) (filters : List Filter) (i : Nat) :
    (consult bytes source filters)[i]? =
      if allAccept (filters.take i) bytes source then
        filters[i]?.map fun f => ⟨f.id, bytes.length, f.judge bytes source⟩
      else none := by
  induction filters generalizing i with
  | nil => simp [consult]
  | cons f filters ih =>
    cases i with
    | zero => simp [consult, allAccept]
    | succ i =>
      cases h : (f.judge bytes source).accepted with
      | true => simpa [consult, allAccept, h] using ih i
      | false => simp [consult, allAccept, h]

theorem any_closes_consult {bytes : Bytes} {source : Address} {filters : List Filter}
    (h : ∀ f ∈ filters, (f.judge bytes source).closes = false) :
    (consult bytes source filters).any (·.verdict.closes) = false := by
  induction filters with
  | nil => rfl
  | cons f filters ih =>
    obtain ⟨hf, hrest⟩ := List.forall_mem_cons.1 h
    cases (f.judge bytes source).accepted <;> simp_all [consult]

end Filter

/-- Whether the loop ends on an arrival. -/
def Arrival.isError : Arrival → Bool
  | datagram _ _ => false
  | failure reason => !reason.isTimeout

namespace Receiver

variable {σ : Type}

/-- A receiver whose loop reads, and which neither its filters nor its handler close. -/
structure Listening (r : Receiver σ) : Prop where
  reading : r.lifecycle.loop = .reading
  notClosed : r.lifecycle.closed = false
  notFailed : r.lifecycle.failed = false
  filters : ∀ f ∈ r.filters, ∀ bytes source, (f.judge bytes source).closes = false
  handler : ∃ h, r.handler = some h ∧ ∀ bytes source, h bytes source = false

/-- What the loop does with an arrival on which it does not end. -/
inductive Turn (now : Instant) (r : Receiver σ) : Arrival → Receiver σ → Intake → Prop
  | timeout {reason : ReceiveFailure} (htimeout : reason.isTimeout = true) :
    Turn now r (.failure reason) r {}
  | filtered {bytes : Bytes} {source : Address}
      (hrefused : Filter.allAccept r.filters bytes source = false) :
    Turn now r (.datagram bytes source)
      { r with counters := r.counters.packet bytes.length }
      { consultations := Filter.consult bytes source r.filters }
  | dropped {bytes : Bytes} {source : Address} {p : Packet} {state : σ} {capture : Option Capture}
      (haccepted : Filter.allAccept r.filters bytes source = true) (hp : p.bytes = bytes)
      (hout : r.stage.incoming now r.stageState p = (none, state)) :
    Turn now r (.datagram bytes source)
      { r with
        counters := r.counters.packet bytes.length
        stageState := state
        current := .empty }
      { consultations := Filter.consult bytes source r.filters, capture }
  | passed {bytes : Bytes} {source : Address} {p q last : Packet} {state : σ}
      {capture : Option Capture}
      (haccepted : Filter.allAccept r.filters bytes source = true) (hp : p.bytes = bytes)
      (hout : r.stage.incoming now r.stageState p = (some q, state))
      (hlast : last.bytes = q.bytes) :
    Turn now r (.datagram bytes source)
      { r with
        counters := r.counters.packet bytes.length
        stageState := state
        current := q
        last := some last }
      { consultations := Filter.consult bytes source r.filters
        capture
        handed := some (q.bytes, source) }

variable {now : Instant} {r r' : Receiver σ}

/-- What a receiver counts and holds is no matter. -/
theorem Listening.of_eq (h : r.Listening) (hlifecycle : r'.lifecycle = r.lifecycle)
    (hfilters : r'.filters = r.filters) (hhandler : r'.handler = r.handler) : r'.Listening where
  reading := hlifecycle ▸ h.reading
  notClosed := hlifecycle ▸ h.notClosed
  notFailed := hlifecycle ▸ h.notFailed
  filters := hfilters ▸ h.filters
  handler := hhandler ▸ h.handler

theorem Listening.turn {arrival : Arrival} {intake : Intake} (h : r.Listening)
    (hturn : r.Turn now arrival r' intake) : r'.Listening := by
  cases hturn <;> exact h.of_eq rfl rfl rfl

theorem Turn.same {arrival : Arrival} {intake : Intake} (h : r.Turn now arrival r' intake) :
    r'.config = r.config ∧ r'.stage = r.stage ∧ r'.filters = r.filters := by
  cases h <;> exact ⟨rfl, rfl, rfl⟩

/-- The handler gets the packet, and a copy of it is kept. -/
theorem handOver_eq (h : r.Listening) (q : Packet) (source : Address) :
    ∃ last, last.bytes = q.bytes ∧
      r.handOver q source =
        ({ r with current := q, last := some last }, some (q.bytes, source)) := by
  obtain ⟨handler, hhandler, hopen⟩ := h.handler
  cases hlast : r.last with
  | none => exact ⟨q, rfl, by simp [handOver, hhandler, hlast, hopen, closeIf]⟩
  | some last =>
    refine ⟨last.fill q.bytes, last.bytes_fill q.bytes, ?_⟩
    simp [handOver, hhandler, hlast, hopen, closeIf]

/-- What becomes of a datagram that gets past the filters. -/
theorem process_cases (h : r.Listening) (now : Instant) (bytes : Bytes) (source : Address) :
    ∃ p state capture, p.bytes = bytes ∧
      (r.stage.incoming now r.stageState p = (none, state) ∧
          r.process now bytes source =
            ({ r with stageState := state, current := .empty }, capture, none) ∨
        ∃ q last, r.stage.incoming now r.stageState p = (some q, state) ∧ last.bytes = q.bytes ∧
          r.process now bytes source =
            ({ r with stageState := state, current := q, last := some last }, capture,
              some (q.bytes, source))) := by
  -- The reused packet is filled, so that its bytes are those of the datagram.
  rcases hout : r.stage.incoming now r.stageState (r.current.fill bytes) with ⟨out, state⟩
  refine ⟨r.current.fill bytes, state, (r.process now bytes source).2.1,
    r.current.bytes_fill bytes, ?_⟩
  cases out with
  | none => exact .inl ⟨hout, by simp only [process, hout]⟩
  | some q =>
    have hthere : ({ r with stageState := state } : Receiver σ).Listening := h.of_eq rfl rfl rfl
    obtain ⟨last, hlast, hhanded⟩ := handOver_eq hthere q source
    exact .inr ⟨q, last, hout, hlast, by simp only [process, hout, hhanded]⟩

theorem turn_datagram (h : r.Listening) {bytes : Bytes} (source : Address)
    (hfits : bytes.length ≤ r.config.receiveBufferLength.toNat) :
    r.Turn now (.datagram bytes source) (r.receive now (.datagram bytes source)).1
      (r.receive now (.datagram bytes source)).2 := by
  have hcloses := Filter.any_closes_consult fun f hf => h.filters f hf bytes source
  have hall := Filter.all_consult bytes source r.filters
  have hcounted : ({ r with counters := r.counters.packet bytes.length } : Receiver σ).Listening :=
    h.of_eq rfl rfl rfl
  simp only [receive, h.reading, h.notClosed, List.take_of_length_le hfits, hcloses, hall, closeIf,
    ne_eq, not_true_eq_false, Bool.false_eq_true, if_false]
  cases haccepted : r.filters.all fun f => (f.judge bytes source).accepted with
  | false => exact .filtered haccepted
  | true =>
    obtain ⟨p, state, capture, hp, ⟨hout, hprocess⟩ | ⟨q, last, hout, hlast, hprocess⟩⟩ :=
      process_cases hcounted now bytes source
    · rw [if_pos rfl, hprocess]
      exact .dropped haccepted hp hout
    · rw [if_pos rfl, hprocess]
      exact .passed haccepted hp hout hlast

/-- An arrival on which the loop does not end makes for a turn of it. -/
theorem turn_receive (h : r.Listening) {arrival : Arrival} (hgood : arrival.isError = false)
    (hfits : ∀ bytes source, arrival = .datagram bytes source →
      bytes.length ≤ r.config.receiveBufferLength.toNat) :
    r.Turn now arrival (r.receive now arrival).1 (r.receive now arrival).2 := by
  cases arrival with
  | datagram bytes source => exact turn_datagram h source (hfits bytes source rfl)
  | failure reason =>
    have htimeout : reason.isTimeout = true := by simpa [Arrival.isError] using hgood
    simp only [receive, h.reading, h.notClosed, htimeout, ne_eq, not_true_eq_false, if_false,
      if_true, Bool.false_eq_true]
    exact .timeout htimeout

/-- Any other ends it. -/
theorem receive_error (h : r.Listening) {arrival : Arrival} (herror : arrival.isError = true) :
    r.receive now arrival =
      ({ r with counters := r.counters.failure, lifecycle := r.lifecycle.fail }, {}) := by
  cases arrival with
  | datagram bytes source => cases herror
  | failure reason =>
    have htimeout : reason.isTimeout = false := by simpa [Arrival.isError] using herror
    simp [receive, h.reading, h.notClosed, htimeout]

/-! ## Turn after turn -/

theorem receiveAll_of_not_reading (h : r.lifecycle.loop ≠ .reading) (arrivals : List Arrival) :
    r.receiveAll now arrivals = (r, arrivals.map fun _ => {}) := by
  induction arrivals with
  | nil => rfl
  | cons arrival arrivals ih =>
    have hnothing : r.receive now arrival = (r, {}) := by
      simp only [receive, h, ne_eq, not_false_eq_true, if_true]
    simp only [receiveAll, hnothing, ih, List.map_cons]

/-- A run of the loop: turns up to the first error, and nothing after it. Each arrival has its
intake, so that the list of these goes on behind the error. -/
inductive Heard (now : Instant) : Receiver σ → List Arrival → Receiver σ → List Intake → Prop
  | nothing {r : Receiver σ} (h : r.Listening) : Heard now r [] r []
  | turn {r next r' : Receiver σ} {arrival : Arrival} {arrivals : List Arrival} {intake : Intake}
      {intakes : List Intake} (hgood : arrival.isError = false)
      (hturn : r.Turn now arrival next intake)
      (hrest : Heard now next arrivals r' intakes) :
    Heard now r (arrival :: arrivals) r' (intake :: intakes)
  | error {r : Receiver σ} {arrival : Arrival} {arrivals : List Arrival} (h : r.Listening)
      (herror : arrival.isError = true) :
    Heard now r (arrival :: arrivals)
      { r with counters := r.counters.failure, lifecycle := r.lifecycle.fail }
      ((arrival :: arrivals).map fun _ => {})

theorem heard_receiveAll (h : r.Listening) {arrivals : List Arrival}
    (hfits : ∀ bytes source, .datagram bytes source ∈ arrivals →
      bytes.length ≤ r.config.receiveBufferLength.toNat) :
    Heard now r arrivals (r.receiveAll now arrivals).1 (r.receiveAll now arrivals).2 := by
  induction arrivals generalizing r with
  | nil => exact .nothing h
  | cons arrival arrivals ih =>
    cases hkind : arrival.isError with
    | false =>
      have hturn : r.Turn now arrival (r.receive now arrival).1 (r.receive now arrival).2 := by
        refine turn_receive h hkind ?_
        rintro bytes source rfl
        exact hfits bytes source List.mem_cons_self
      refine .turn hkind hturn (ih (h.turn hturn) ?_)
      intro bytes source hmem
      rw [hturn.same.1]
      exact hfits bytes source (List.mem_cons_of_mem _ hmem)
    | true =>
      have hended : ({ r with
          counters := r.counters.failure
          lifecycle := r.lifecycle.fail } : Receiver σ).lifecycle.loop ≠ .reading := by
        simp [Lifecycle.fail, Lifecycle.markFailed, Lifecycle.raiseFailed, h.reading]
      simp only [receiveAll, receive_error h hkind, receiveAll_of_not_reading hended]
      exact .error h hkind

end Receiver

end MediaTransport
