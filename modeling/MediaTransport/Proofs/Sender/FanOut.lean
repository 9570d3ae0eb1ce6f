import MediaTransport.Proofs.Roster
import MediaTransport.Sender.Basic

/-!
# Writing to all targets

A sender without a rate limit and without a transformer offers what is written to it to its targets
in the write itself. The targets are what the additions and removals before the write left
(`targets_runCalls`), and each is offered the written bytes once, whichever of the others fail. The
packet that carries the bytes is the only one the sender ever needs: the pool gives it out and has
it back before the write ends, so that it never holds more than one (`Unpaced`), and what was in it
before is seen by nobody, since the bytes, the result and what the logger is shown go by the written
bytes alone (`write_unpaced`).
-/

namespace MediaTransport

/-- A call on a sender; which targets can be reached is different from write to write. -/
inductive SenderCall where
  | addTarget (target : Address)
  | removeTarget (target : Address)
  | write (wire : Wire) (now : Instant) (bytes : Bytes)

namespace SenderCall

/-- What a call does to the list of targets. -/
def change? : SenderCall → Option (Roster.Change Address)
  | addTarget target => some (.add target)
  | removeTarget target => some (.remove target)
  | write .. => none

/-- Whether a call is a write. -/
def isWrite : SenderCall → Bool
  | write .. => true
  | addTarget _ | removeTarget _ => false

end SenderCall

/-! ## What is left of a packet -/

/-- The header ends where the bytes of a packet say. -/
theorem Packet.headerLength_congr {p q : Packet} (h : p.bytes = q.bytes) :
    p.headerLength = q.headerLength := by
  have hlen : p.len = q.len := by rw [← p.length_bytes, h, q.length_bytes]
  unfold Packet.headerLength
  rw [h, hlen]

namespace Logger

/-- A logger is shown the bytes of a packet, and nothing of its buffer. -/
theorem capture?_congr {p q : Packet} (h : p.bytes = q.bytes) (logger : Logger) (link : Link)
    (remote : Address) (direction : Direction) :
    logger.capture? link remote direction p = logger.capture? link remote direction q := by
  unfold capture?
  rw [h, Packet.headerLength_congr h]

theorem isSome_capture? (logger : Logger) (link : Link) (remote : Address) (direction : Direction)
    (p : Packet) : (logger.capture? link remote direction p).isSome = logger (.of p.bytes) := by
  cases hwants : logger (.of p.bytes) <;> simp [capture?, hwants]

end Logger

/-! ## Counting -/

namespace Counters

/-- The counts of some attempts, as far as the counters reach. -/
def ofAttempts (attempts : List Attempt) : Counters where
  packets := .ofNat (attempts.countP (·.sent))
  bytes := .ofNat (Bytes.total ((attempts.filter (·.sent)).map (·.bytes.length)))
  errors := .ofNat (attempts.countP (!·.sent))

/-- Attempts are counted one by one, on top of what was counted. -/
theorem foldl_attempt (attempts : List Attempt) (c : Counters) :
    attempts.foldl .attempt c =
      { packets := c.packets + (ofAttempts attempts).packets
        bytes := c.bytes + (ofAttempts attempts).bytes
        errors := c.errors + (ofAttempts attempts).errors } := by
  induction attempts generalizing c with
  | nil => simp [ofAttempts]
  | cons a attempts ih =>
    have hone : UInt64.ofNat 1 = 1 := rfl
    rw [List.foldl_cons, ih]
    cases hsent : a.sent with
    | true =>
      simp [attempt, ofAttempts, packet, hsent, UInt64.ofNat_add, hone, UInt64.add_assoc,
        UInt64.add_comm]
    | false =>
      simp [attempt, ofAttempts, failure, hsent, UInt64.ofNat_add, hone, UInt64.add_assoc,
        UInt64.add_comm]

end Counters

namespace Sender

variable {σ : Type}

/-- The sender after a call, and the attempts made in it. -/
def call (s : Sender σ) : SenderCall → Sender σ × List Attempt
  | .addTarget target => (s.addTarget target, [])
  | .removeTarget target => (s.removeTarget target, [])
  | .write wire now bytes =>
    let (s, attempts, _) := s.write wire now bytes
    (s, attempts)

/-- The sender after calls, and all attempts made in them. -/
def runCalls (s : Sender σ) : List SenderCall → Sender σ × List Attempt
  | [] => (s, [])
  | c :: calls =>
    let (s, first) := s.call c
    let (s, others) := runCalls s calls
    (s, first ++ others)

/-- A sender that writes at once and passes on what is written to it; its pool has one packet at
most. -/
structure Unpaced (config : TransportConfig) (link : Link) (logger : Option Logger) (s : Sender σ) :
    Prop where
  config_eq : s.config = config
  link_eq : s.link = link
  logger_eq : s.logger = logger
  stage_eq : s.stage = .passThrough σ
  open_eq : s.closed = false
  pacer_eq : s.pacer = none
  pool_le : s.pool.size ≤ 1

variable {config : TransportConfig} {link : Link} {logger : Option Logger} {s : Sender σ}

/-- What comes of offering `bytes` to one target: it gets them if it can be reached, and a logger
that wants them is shown them if it does and packets are logged at all. -/
structure Offer (config : TransportConfig) (link : Link) (logger : Option Logger) (wire : Wire)
    (now : Instant) (bytes : Bytes) (a : Attempt) : Prop where
  moment_eq : a.moment = now
  bytes_eq : a.bytes = bytes
  sent_eq : a.sent = wire a.target
  capture_eq : a.capture =
    if a.sent ∧ config.packetLogging then
      logger.bind fun logger => logger.capture? link a.target .sent (.ofBytes bytes)
    else none

/-- A packet that the logger wants and that was sent is shown to it. -/
theorem Offer.isSome_capture {wire : Wire} {now : Instant} {bytes : Bytes} {a : Attempt}
    (h : Offer config link logger wire now bytes a) :
    a.capture.isSome =
      (a.sent && config.packetLogging && logger.any fun logger => logger (.of bytes)) := by
  rw [h.capture_eq]
  by_cases hshown : a.sent ∧ config.packetLogging
  · rw [if_pos hshown, hshown.1, hshown.2]
    cases logger with
    | none => rfl
    | some logger => simp [Logger.isSome_capture?]
  · rw [if_neg hshown]
    simpa [Bool.and_eq_true] using fun hsent hlogging => absurd ⟨hsent, hlogging⟩ hshown

/-! ## One write -/

/-- The pool has one packet to give out, or makes one. -/
theorem size_acquire {pool : PacketPool} (h : pool.size ≤ 1) (bytes : Bytes) :
    (pool.acquire bytes).2.size = 0 := by
  obtain ⟨free⟩ := pool
  cases free with
  | nil => rfl
  | cons p rest =>
    simp only [PacketPool.size, List.length_cons] at h
    simp only [PacketPool.acquire, PacketPool.size]
    omega

/-- What a write makes of an unpaced sender: it has the same targets and settings, it has counted
the attempts, and its pool has the packet that carried the bytes. -/
theorem write_unpaced (h : Unpaced config link logger s) (wire : Wire) (now : Instant)
    (bytes : Bytes) :
    ∃ pool attempts,
      s.write wire now bytes =
          ({ s with counters := attempts.foldl .attempt s.counters, pool }, attempts,
            .finished (result bytes.length attempts)) ∧
        pool.size = 1 ∧
        attempts.map (·.target) = s.targets ∧
        ∀ a ∈ attempts, Offer config link logger wire now bytes a := by
  obtain ⟨p, pool, hacquire⟩ : ∃ p pool, s.pool.acquire bytes = (p, pool) := ⟨_, _, rfl⟩
  have hbytes : p.bytes = bytes := by simpa [hacquire] using s.pool.bytes_acquire bytes
  have hsize : pool.size = 0 := by simpa [hacquire] using size_acquire h.pool_le bytes
  refine ⟨pool.release p, s.targets.map (s.attempt wire now p), ?_, ?_, ?_, ?_⟩
  · simp only [write, h.open_eq, hacquire, h.stage_eq, h.pacer_eq, Stage.passThrough, deliver]
    rfl
  · exact congrArg (· + 1) hsize
  · rw [List.map_map]
    exact List.map_id _
  · intro a ha
    obtain ⟨target, -, rfl⟩ := List.mem_map.1 ha
    refine ⟨rfl, hbytes, rfl, ?_⟩
    simp only [attempt, h.config_eq, h.link_eq, h.logger_eq]
    have hshown : ∀ logger : Logger, logger.capture? link target .sent p =
        logger.capture? link target .sent (.ofBytes bytes) :=
      fun logger => logger.capture?_congr (hbytes.trans (Packet.bytes_ofBytes bytes).symm)
        link target .sent
    simp only [hshown]

theorem result_eq (length : Nat) (attempts : List Attempt) :
    result length attempts =
      if attempts.all (·.sent) then .ok length
      else .error (.sendFailed (attempts.countP (!·.sent)) attempts.length) := by
  have hall : attempts.countP (!·.sent) = 0 ↔ attempts.all (·.sent) = true := by
    simp [List.countP_eq_zero]
  simp only [result, hall]

/-! ## Runs -/

/-- What a call does to an unpaced sender. -/
theorem call_unpaced (h : Unpaced config link logger s) (c : SenderCall) :
    Unpaced config link logger (s.call c).1 ∧
      (s.call c).1.targets = c.change?.toList.foldl Roster.change s.targets ∧
      (s.call c).1.counters = (s.call c).2.foldl .attempt s.counters ∧
      (s.call c).1.pool.size = if c.isWrite then 1 else s.pool.size := by
  cases c with
  | addTarget target =>
    by_cases ht : target ∈ s.targets
    · simp only [call, addTarget, if_pos ht]
      exact ⟨h, (if_pos ht).symm, rfl, rfl⟩
    · simp only [call, addTarget, if_neg ht]
      exact ⟨{ h with }, (if_neg ht).symm, rfl, rfl⟩
  | removeTarget target => exact ⟨{ h with }, rfl, rfl, rfl⟩
  | write wire now bytes =>
    obtain ⟨pool, attempts, hwrite, hsize, -⟩ := write_unpaced h wire now bytes
    have hcall : s.call (.write wire now bytes) =
        ({ s with counters := attempts.foldl .attempt s.counters, pool }, attempts) := by
      rw [call, hwrite]
    rw [hcall]
    exact ⟨{ h with pool_le := hsize.le }, rfl, rfl, hsize⟩

/-- What calls do to an unpaced sender. -/
theorem runCalls_unpaced (h : Unpaced config link logger s) (calls : List SenderCall) :
    Unpaced config link logger (s.runCalls calls).1 ∧
      (s.runCalls calls).1.targets =
        (calls.filterMap SenderCall.change?).foldl Roster.change s.targets ∧
      (s.runCalls calls).1.counters = (s.runCalls calls).2.foldl .attempt s.counters ∧
      (s.runCalls calls).1.pool.size = if calls.any SenderCall.isWrite then 1 else s.pool.size := by
  induction calls generalizing s with
  | nil => exact ⟨h, rfl, rfl, rfl⟩
  | cons c calls ih =>
    obtain ⟨hcall, htargets, hcounters, hsize⟩ := call_unpaced h c
    obtain ⟨hcalls, htargets', hcounters', hsize'⟩ := ih hcall
    refine ⟨hcalls, ?_, ?_, ?_⟩
    · rw [runCalls, htargets', htargets]
      cases hc : c.change? with
      | none => rw [List.filterMap_cons_none hc]; rfl
      | some change => rw [List.filterMap_cons_some hc]; rfl
    · rw [runCalls, hcounters', hcounters, List.foldl_append]
    · rw [runCalls, hsize', hsize, List.any_cons]
      cases c.isWrite <;> simp

theorem eq_of_create {state : σ} {new : Sender σ}
    (hnew : create config link (.passThrough σ) state = .ok new) (hlimit : config.rateLimit = none)
    (logger : Option Logger) :
    { new with logger } =
      ({ config, link, stage := .passThrough σ, stageState := state, logger } : Sender σ) := by
  unfold create at hnew
  cases hvalid : config.validate with
  | error e => simp [hvalid] at hnew
  | ok =>
    simp only [hvalid, hlimit, Except.ok.injEq] at hnew
    subst hnew
    rfl

/-- A new sender without a rate limit and a transformer, after any calls in which any attempts
failed. Its targets are distinct and in the order in which they were added. It has counted what was
sent, the bytes of that, and what failed, each modulo `2^64`. Its pool has one packet from the first
write on. And the next write offers the bytes to each target once and in order, and fails just when
an attempt does. -/
theorem fanOut_runCalls {state : σ} {new ended : Sender σ} {calls : List SenderCall}
    {attempts : List Attempt} (hnew : create config link (.passThrough σ) state = .ok new)
    (hlimit : config.rateLimit = none)
    (hended : { new with logger }.runCalls calls = (ended, attempts)) :
    (ended.targets.Nodup ∧ Roster.Lists (calls.filterMap SenderCall.change?) ended.targets) ∧
      ended.counters = .ofAttempts attempts ∧
      ended.pool.size = (if calls.any SenderCall.isWrite then 1 else 0) ∧
      ∀ wire now bytes, ∃ after made status,
        ended.write wire now bytes = (after, made, .finished status) ∧
          made.map (·.target) = ended.targets ∧
          (∀ a ∈ made, Offer config link logger wire now bytes a ∧
            a.capture.isSome =
              (a.sent && config.packetLogging && logger.any fun logger => logger (.of bytes))) ∧
          status =
            (if made.all (·.sent) then .ok bytes.length
            else .error (.sendFailed (made.countP (!·.sent)) ended.targets.length)) ∧
          after.pool.size = 1 := by
  have hunpaced : Unpaced config link logger { new with logger } := by
    rw [eq_of_create hnew hlimit]
    exact ⟨rfl, rfl, rfl, rfl, rfl, rfl, Nat.zero_le 1⟩
  obtain ⟨hrun, htargets, hcounters, hpool⟩ := runCalls_unpaced hunpaced calls
  rw [hended] at hrun htargets hcounters hpool
  rw [eq_of_create hnew hlimit] at htargets hcounters hpool
  have hlists : Roster.Lists (calls.filterMap SenderCall.change?) ended.targets := by
    rw [htargets]
    exact Roster.lists_foldl_change _
  refine ⟨⟨hlists.nodup, hlists⟩, ?_, hpool, fun wire now bytes => ?_⟩
  · rw [hcounters, Counters.foldl_attempt]
    simp
  · obtain ⟨pool, made, hwrite, hsize, hmade, hoffers⟩ := write_unpaced hrun wire now bytes
    have hlength : made.length = ended.targets.length := by rw [← hmade, List.length_map]
    refine ⟨_, made, _, hwrite, hmade, fun a ha => ⟨hoffers a ha, (hoffers a ha).isSome_capture⟩,
      ?_, hsize⟩
    rw [result_eq, hlength]

def studio : Address := .ipv4 10 0 0 1 5000

def relay : Address := .ipv4 10 0 0 2 5000

/-- Two targets, one of them added twice, and one that fails in the first write. -/
def broadcast : List SenderCall :=
  [.addTarget studio, .addTarget relay, .write (· != studio) 0 [128, 96, 7, 7, 7],
    .addTarget studio, .write (fun _ => true) 1 [128, 96, 8]]

def newSender : Sender Unit where
  stageState := ()

theorem fanOut_runCalls_broadcast :
    (newSender.runCalls broadcast).1.targets = [studio, relay] ∧
      (newSender.runCalls broadcast).1.counters = { packets := 3, bytes := 11, errors := 1 } ∧
      (newSender.runCalls broadcast).1.pool.size = 1 ∧
      ∃ after made, (newSender.runCalls broadcast).1.write (· != relay) 2 [128, 96] =
        (after, made, .finished (.error (.sendFailed 1 2))) := by
  have hnew : create {} {} (.passThrough Unit) () = .ok newSender := rfl
  have hended : runCalls { newSender with logger := none } broadcast =
      ((newSender.runCalls broadcast).1, (newSender.runCalls broadcast).2) := rfl
  obtain ⟨-, hcounters, hpool, hwrite⟩ := fanOut_runCalls hnew rfl hended
  obtain ⟨after, made, status, hnext, -, -, hstatus, -⟩ := hwrite (· != relay) 2 [128, 96]
  have hmade : made = ((newSender.runCalls broadcast).1.write (· != relay) 2 [128, 96]).2.1 :=
    (congrArg (fun o => o.2.1) hnext).symm
  refine ⟨by decide, hcounters, hpool, after, made, ?_⟩
  rw [hmade] at hstatus
  exact hnext.trans (congrArg (fun status => (after, made, WriteStatus.finished status)) hstatus)

/-- Where packets are not logged, a logger is not shown what it wants. -/
theorem unseen_of_packetLogging_off :
    ∃ new : Sender Unit, create { packetLogging := false } {} (.passThrough Unit) () = .ok new ∧
      Logger.mediaOnly (.of [128, 96]) = true ∧
      (runCalls { new with logger := some Logger.mediaOnly }
          [.addTarget studio, .write (fun _ => true) 0 [128, 96]]).2.map
        (fun a => (a.sent, a.capture)) = [(true, none)] :=
  ⟨_, rfl, by decide, by decide⟩

end Sender

end MediaTransport
