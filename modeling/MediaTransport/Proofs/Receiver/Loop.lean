import MediaTransport.Proofs.Receiver.Turn

/-!
# What a receiver makes of its arrivals

The loop is what its parts make of it, in this order: of the arrivals before the first error, the
datagrams; of these, the ones that all filters accept; and of these, what the stage lets through
(`Heard.yields`). So is everything that can be seen of it: the consultations, the counters and what
can be read (`receiveAll_started`).
-/

namespace MediaTransport

namespace Arrival

def datagram? : Arrival → Option (Bytes × Address)
  | datagram bytes source => some (bytes, source)
  | failure _ => none

/-- The arrivals that the loop reads without ending on one. -/
def beforeError (arrivals : List Arrival) : List Arrival := arrivals.takeWhile fun a => !a.isError

/-- The datagrams that the loop reads. -/
def datagrams (arrivals : List Arrival) : List (Bytes × Address) :=
  (beforeError arrivals).filterMap datagram?

/-- The consultations of filters about an arrival that is read. -/
def consultations (filters : List Filter) : Arrival → List Consultation
  | datagram bytes source => Filter.consult bytes source filters
  | failure _ => []

@[simp] theorem datagrams_datagram (bytes : Bytes) (source : Address) (arrivals : List Arrival) :
    datagrams (datagram bytes source :: arrivals) = (bytes, source) :: datagrams arrivals := rfl

theorem datagrams_timeout {reason : ReceiveFailure} (h : reason.isTimeout = true)
    (arrivals : List Arrival) : datagrams (failure reason :: arrivals) = datagrams arrivals := by
  have hgood : (failure reason).isError = false := by simp [isError, h]
  simp only [datagrams, beforeError, List.takeWhile_cons, hgood, Bool.not_false, if_true]
  rfl

theorem datagrams_error {a : Arrival} (h : a.isError = true) (arrivals : List Arrival) :
    datagrams (a :: arrivals) = [] := by
  simp [datagrams, beforeError, h]

end Arrival

open Arrival

variable {σ : Type}

/-- What a stage makes of datagrams one after the other, each of which it gets as a packet of the
same bytes: what it lets through, and the state that it comes to. -/
inductive Stage.Yields (stage : Stage σ) (now : Instant) :
    σ → List (Bytes × Address) → List (Bytes × Address) → σ → Prop
  | nil (state : σ) : Yields stage now state [] [] state
  | drop {state next final : σ} {p : Packet} {source : Address}
      {arrived out : List (Bytes × Address)}
      (hout : stage.incoming now state p = (none, next))
      (hrest : Yields stage now next arrived out final) :
    Yields stage now state ((p.bytes, source) :: arrived) out final
  | pass {state next final : σ} {p q : Packet} {source : Address}
      {arrived out : List (Bytes × Address)}
      (hout : stage.incoming now state p = (some q, next))
      (hrest : Yields stage now next arrived out final) :
    Yields stage now state ((p.bytes, source) :: arrived) ((q.bytes, source) :: out) final

theorem Stage.eq_of_yields_passThrough {now : Instant} {state final : σ}
    {arrived out : List (Bytes × Address)}
    (h : (passThrough σ).Yields now state arrived out final) : out = arrived := by
  induction h with
  | nil state => rfl
  | drop hout hrest ih => cases hout
  | pass hout hrest ih =>
    cases hout
    rw [ih]

namespace Receiver

theorem Turn.consultations_eq {now : Instant} {r r' : Receiver σ} {arrival : Arrival}
    {intake : Intake} (h : r.Turn now arrival r' intake) :
    intake.consultations = consultations r.filters arrival := by
  cases h <;> rfl

variable {now : Instant} {r r' : Receiver σ} {arrivals : List Arrival} {intakes : List Intake}

/-- The datagrams that get past the filters. -/
def accepted (filters : List Filter) (arrivals : List Arrival) : List (Bytes × Address) :=
  (datagrams arrivals).filter fun d => Filter.allAccept filters d.1 d.2

theorem accepted_datagram (filters : List Filter) (bytes : Bytes) (source : Address)
    (arrivals : List Arrival) :
    accepted filters (.datagram bytes source :: arrivals) =
      if Filter.allAccept filters bytes source then (bytes, source) :: accepted filters arrivals
      else accepted filters arrivals :=
  List.filter_cons

/-- What was handed over, the first of it first. -/
def handedOver (intakes : List Intake) : List (Bytes × Address) := intakes.filterMap (·.handed)

theorem handedOver_nothing (arrivals : List Arrival) :
    handedOver (arrivals.map fun _ => {}) = [] := by
  simp [handedOver]

theorem handedOver_cons (intake : Intake) (intakes : List Intake) :
    handedOver (intake :: intakes) = intake.handed.toList ++ handedOver intakes := by
  cases h : intake.handed <;> simp [handedOver, h]

/-- What the handler gets is what the stage makes of the accepted datagrams. -/
theorem Heard.yields (h : Heard now r arrivals r' intakes) :
    r.stage.Yields now r.stageState (accepted r.filters arrivals) (handedOver intakes)
      r'.stageState := by
  induction h with
  | nothing h => exact .nil _
  | error h herror =>
    rw [accepted, datagrams_error herror, handedOver_nothing]
    exact .nil _
  | turn hgood hturn hrest ih =>
    cases hturn with
    | timeout htimeout =>
      rw [accepted, datagrams_timeout htimeout]
      exact ih
    | filtered hrefused =>
      rw [accepted_datagram, if_neg (Bool.eq_false_iff.1 hrefused)]
      exact ih
    | dropped haccepted hp hout =>
      rw [accepted_datagram, if_pos haccepted, ← hp]
      exact .drop hout ih
    | passed haccepted hp hout hlast =>
      rw [accepted_datagram, if_pos haccepted, ← hp]
      exact .pass hout ih

/-- The filters are asked about the datagrams that are read, and about nothing else. -/
theorem Heard.consultations_eq (h : Heard now r arrivals r' intakes) :
    intakes.map (·.consultations) =
      (beforeError arrivals).map (consultations r.filters) ++
        (arrivals.dropWhile fun a => !a.isError).map fun _ => [] := by
  induction h with
  | nothing h => rfl
  | error h herror => simp [beforeError, herror]
  | turn hgood hturn hrest ih =>
    have hsame := hturn.same.2.2
    have hconsulted := hturn.consultations_eq
    rw [List.map_cons, ih, hsame]
    simp [beforeError, hgood, hconsulted]

/-- The counters count what the loop reads, whatever becomes of it, and the error on which it
ends. -/
theorem Heard.counters_eq (h : Heard now r arrivals r' intakes) :
    r'.counters =
      { packets := r.counters.packets + .ofNat (datagrams arrivals).length
        bytes :=
          r.counters.bytes + .ofNat (Bytes.total ((datagrams arrivals).map fun d => d.1.length))
        errors := r.counters.errors + if arrivals.any Arrival.isError then 1 else 0 } := by
  induction h with
  | nothing h => simp [datagrams, beforeError]
  | error h herror => simp [datagrams_error herror, herror, Counters.failure]
  | turn hgood hturn hrest ih =>
    rw [ih]
    cases hturn with
    | timeout htimeout => simp [datagrams_timeout htimeout, hgood]
    | filtered | dropped | passed =>
      simp [hgood, Counters.packet, UInt64.ofNat_add, UInt64.add_assoc, UInt64.add_comm]

/-- The copy that is kept is of the packet handed over last. -/
theorem Heard.last_eq (h : Heard now r arrivals r' intakes) :
    r'.last.map Packet.bytes =
      ((handedOver intakes).getLast?.map Prod.fst).or (r.last.map Packet.bytes) := by
  induction h with
  | nothing h => rfl
  | error h herror => rw [handedOver_nothing]; rfl
  | turn hgood hturn hrest ih =>
    rw [ih]
    cases hturn with
    | timeout | filtered | dropped => rfl
    | passed haccepted hp hout hlast =>
      rw [handedOver_cons, List.getLast?_append, Option.map_or, Option.or_assoc]
      simp [hlast]

theorem Heard.failed_eq (h : Heard now r arrivals r' intakes) :
    r'.lifecycle.failed = arrivals.any Arrival.isError := by
  induction h with
  | nothing h => exact h.notFailed
  | error h herror =>
    simp [Lifecycle.fail, Lifecycle.markFailed, Lifecycle.raiseFailed, h.reading, herror]
  | turn hgood hturn hrest ih => simp [ih, hgood]

/-! ## Reading -/

theorem Heard.read_handed (h : Heard now r arrivals r' intakes)
    (hgood : arrivals.any Arrival.isError = false) {bytes : Bytes} {source : Address}
    (hhanded : (handedOver intakes).getLast? = some (bytes, source)) {buffer : Bytes}
    (hfits : bytes.length ≤ buffer.length) :
    r'.read buffer = .ok (bytes.length, bytes ++ buffer.drop bytes.length) := by
  have hlast := h.last_eq
  rw [hhanded, Option.map_some, Option.some_or, Option.map_eq_some_iff] at hlast
  obtain ⟨last, hkept, rfl⟩ := hlast
  have hfailed := h.failed_eq.trans hgood
  rw [Packet.length_bytes] at hfits ⊢
  simp [read, hkept, hfailed, Nat.not_lt.2 hfits]

theorem Heard.read_failed (h : Heard now r arrivals r' intakes)
    (herror : arrivals.any Arrival.isError = true) (buffer : Bytes) :
    r'.read buffer = .error .receiveFailed := by
  simp [read, h.failed_eq, herror]

/-! ## Started receivers -/

theorem eq_of_started {config : TransportConfig} {link : Link} {stage : Stage σ} {state : σ}
    {filters : List Filter} {logger : Option Logger} {handler : Handler} {new started : Receiver σ}
    (hnew : create config link stage state = .ok new)
    (hstarted : start { new with filters, logger, handler := some handler } = .ok started) :
    started =
      { config, link, stage, stageState := state, filters, logger, handler := some handler,
        lifecycle.state := .running, lifecycle.loop := .reading } := by
  unfold create at hnew
  cases hvalid : config.validate with
  | error e => simp [hvalid] at hnew
  | ok =>
    simp only [hvalid, Except.ok.injEq] at hnew
    subst hnew
    cases hstarted
    rfl

/-- A new receiver with a handler that is started, and that nobody closes, takes in a script of
arrivals as follows. The handler gets what the stage makes of the datagrams that come before the
first error and that all filters accept, in order; without a stage it gets these themselves. A
filter is asked about such a datagram just when all before it accept it. The datagrams are counted
whatever becomes of them, in counters that wrap, and so is the error. What was handed over last can
be read, and after the error nothing can. -/
theorem receiveAll_started (now : Instant) {config : TransportConfig} {link : Link}
    {stage : Stage σ} {state : σ} {filters : List Filter} {logger : Option Logger}
    {handler : Handler} {new started ended : Receiver σ}
    (hnew : create config link stage state = .ok new)
    (hstarted : start { new with filters, logger, handler := some handler } = .ok started)
    (hfilters : ∀ f ∈ filters, ∀ bytes source, (f.judge bytes source).closes = false)
    (hhandler : ∀ bytes source, handler bytes source = false)
    (hfits : ∀ bytes source, .datagram bytes source ∈ arrivals →
      bytes.length ≤ config.receiveBufferLength.toNat)
    (hended : started.receiveAll now arrivals = (ended, intakes)) :
    (stage.Yields now state (accepted filters arrivals) (handedOver intakes) ended.stageState ∧
        (stage = .passThrough σ → handedOver intakes = accepted filters arrivals)) ∧
      (intakes.map (·.consultations) =
          (beforeError arrivals).map (consultations filters) ++
            (arrivals.dropWhile fun a => !a.isError).map (fun _ => []) ∧
        ∀ bytes source i, (consultations filters (.datagram bytes source))[i]? =
          if Filter.allAccept (filters.take i) bytes source then
            filters[i]?.map fun f => ⟨f.id, bytes.length, f.judge bytes source⟩
          else none) ∧
      ended.counters =
        { packets := .ofNat (datagrams arrivals).length
          bytes := .ofNat (Bytes.total ((datagrams arrivals).map fun d => d.1.length))
          errors := if arrivals.any Arrival.isError then 1 else 0 } ∧
      (arrivals.any Arrival.isError = false → ∀ bytes source,
        (handedOver intakes).getLast? = some (bytes, source) → ∀ buffer : Bytes,
          bytes.length ≤ buffer.length →
            ended.read buffer = .ok (bytes.length, bytes ++ buffer.drop bytes.length)) ∧
      (arrivals.any Arrival.isError = true →
        ∀ buffer, ended.read buffer = .error .receiveFailed) := by
  have hsame := eq_of_started hnew hstarted
  have hlistening : started.Listening := by
    rw [hsame]
    exact ⟨rfl, rfl, rfl, hfilters, handler, rfl, hhandler⟩
  have hheard : Heard now started arrivals ended intakes := by
    have hrun : Heard now started arrivals (started.receiveAll now arrivals).1
        (started.receiveAll now arrivals).2 := by
      refine heard_receiveAll hlistening ?_
      rw [hsame]
      exact hfits
    rwa [hended] at hrun
  subst hsame
  refine ⟨⟨hheard.yields, ?_⟩, ⟨hheard.consultations_eq, ?_⟩, ?_, ?_, hheard.read_failed⟩
  · rintro rfl
    exact Stage.eq_of_yields_passThrough hheard.yields
  · intro bytes source i
    exact Filter.getElem?_consult bytes source filters i
  · simpa using hheard.counters_eq
  · intro hgood bytes source hhanded buffer hroom
    exact hheard.read_handed hgood hhanded hroom

/-- Drops a packet that is like the one before, and cuts the last byte off any other. -/
def trimUnlike : Stage Bytes where
  outgoing _ state p := (.ok (some p), state)
  incoming _ state p := (if p.bytes = state then none else some (p.shrink 1), p.bytes)

/-- Refuses what is empty or begins with a zero. -/
def strict : List Filter :=
  [⟨1, fun bytes _ => { accepted := bytes.length != 0 }⟩,
    ⟨2, fun bytes _ => { accepted := bytes.head? != some 0 }⟩]

def home : Address := .ipv4 127 0 0 1 5004

def listener : Receiver Bytes where
  stage := trimUnlike
  stageState := []
  filters := strict
  handler := some fun _ _ => false
  lifecycle := { state := .running, loop := .reading }

/-- A datagram, a timeout, the same datagram, one to refuse and a shorter one; then an error, and a
datagram that comes too late. -/
def script : List Arrival :=
  [.datagram [1, 2, 3] home, .failure .timedOut, .datagram [1, 2, 3] home, .datagram [0, 9] home,
    .datagram [5] home, .failure .other, .datagram [7, 7] home]

theorem receiveAll_started_script :
    handedOver (listener.receiveAll 0 script).2 = [([1, 2], home), ([], home)] ∧
      (listener.receiveAll 0 script).1.counters = { packets := 4, bytes := 9, errors := 1 } ∧
      (listener.receiveAll 0 script).1.read [8, 8, 8] = .error .receiveFailed ∧
      (listener.receiveAll 0 (script.take 4)).1.read [8, 8, 8] = .ok (2, [1, 2, 8]) := by
  have hfilters : ∀ f ∈ strict, ∀ bytes source, (f.judge bytes source).closes = false := by
    simp [strict]
  have hshort : ∀ a ∈ script, ∀ d ∈ a.datagram?, d.1.length ≤ 3 := by decide
  have hfits : ∀ bytes source, .datagram bytes source ∈ script →
      bytes.length ≤ listener.config.receiveBufferLength.toNat := by
    intro bytes source hmem
    exact Nat.le_trans (hshort _ hmem (bytes, source) rfl) (by decide)
  have hfirst : ∀ bytes source, .datagram bytes source ∈ script.take 4 →
      bytes.length ≤ listener.config.receiveBufferLength.toNat := by
    intro bytes source hmem
    exact hfits bytes source (List.mem_of_mem_take hmem)
  have hstart : start { listener with lifecycle := {} } = .ok listener := rfl
  obtain ⟨-, -, hcounters, -, hfailed⟩ :=
    receiveAll_started 0 rfl hstart hfilters (fun _ _ => rfl) hfits rfl
  obtain ⟨-, -, -, hread, -⟩ :=
    receiveAll_started 0 rfl hstart hfilters (fun _ _ => rfl) hfirst rfl
  exact ⟨by decide, hcounters, hfailed rfl _, hread rfl [1, 2] home (by decide) _ (by decide)⟩

end Receiver

end MediaTransport
