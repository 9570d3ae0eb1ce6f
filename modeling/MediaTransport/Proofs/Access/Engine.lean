import MediaTransport.Proofs.Access.Splice
import MediaTransport.Proofs.Engine.Transparency

/-!
# The engine in place

The engine as it works on a packet in its buffer, every access checked. Whatever bytes a packet
holds, wherever they stand in the buffer, whatever the engine has seen before and whatever
statistics it is given, no access leaves its range, and what comes of the packet is what the engine
says (`Engine.accesses_in_range`). The extended reports that an engine generates fit the room that
is made for them because they are well formed (`Engine.wellFormed_of_mem_generated`). What can stop
the processing of a packet on its way out is a quotient, that of a stream which cannot be rated
(`Engine.outgoing_eq_error_iff`).
-/

namespace MediaTransport

open Bytes Rtcp

/-! ## Header fields -/

namespace Packet

/-- The bytes from position `start` up to position `stop` of the packet, if it has that many. -/
def field? (p : Packet) (start stop : Nat) : Except Fault (Option Bytes) := do
  let bytes ← p.slice
  if stop ≤ bytes.length then return some (← Bytes.slice bytes start stop) else return none

/-- The source of a media packet. -/
def fetchSsrc (p : Packet) : Except Fault (Option Ssrc) := do
  match ← p.field? 8 12 with
  | some field => return some ⟨← word32At field 0⟩
  | none => return none

/-- The sequence number of a media packet. -/
def fetchSequenceNumber (p : Packet) : Except Fault (Option UInt16) := do
  match ← p.field? 2 4 with
  | some field => return some (← word16At field 0)
  | none => return none

theorem field?_eq {p : Packet} {start stop : Nat} (hle : start ≤ stop) :
    p.field? start stop =
      .ok (if stop ≤ p.len then some ((p.bytes.take stop).drop start) else none) := by
  unfold field?
  rw [slice_eq]
  show (if stop ≤ p.bytes.length then _ else _) = _
  rw [length_bytes]
  split
  next hlen =>
    rw [slice_eq_take_drop hle (by rwa [length_bytes])]
    rfl
  next => rfl

theorem fetchSsrc_eq (p : Packet) : p.fetchSsrc = .ok p.ssrc := by
  unfold fetchSsrc ssrc
  rw [field?_eq (by decide), ← length_bytes]
  generalize p.bytes = bytes
  iterate 12
    rcases bytes with _ | ⟨_, bytes⟩
    · rfl
  rw [if_pos (by simp)]
  rfl

theorem fetchSequenceNumber_eq (p : Packet) : p.fetchSequenceNumber = .ok p.sequenceNumber := by
  unfold fetchSequenceNumber sequenceNumber
  rw [field?_eq (by decide), ← length_bytes]
  generalize p.bytes = bytes
  iterate 4
    rcases bytes with _ | ⟨_, bytes⟩
    · rfl
  rw [if_pos (by simp)]
  rfl

end Packet

namespace Engine

/-! ## Outgoing packets -/

/-- Puts the extended reports that go with some reports into a packet, one after the other; also
says which went in. -/
def addInPlace (e : Engine) (p : Packet) :
    List ReportSources → Except Fault (Packet × List ExtendedReport)
  | [] => return (p, [])
  | r :: reports => do
    match ← e.extendedReport? r with
    | none => addInPlace e p reports
    | some x =>
      let (p, added) ← p.insertInPlace x
      let (p, rest) ← addInPlace e p reports
      return (p, if added then x :: rest else rest)

/-- The reports of an outgoing packet that extended reports go with. -/
def fetchReportsToExtend (e : Engine) (p : Packet) : Except Fault (List ReportSources) := do
  if e.config.sendsVoipMetrics then return (← p.fetchReportSources).getD [] else return []

/-- Processes an outgoing packet. -/
def outgoingInPlace (reactions : Reactions) (now : Instant) (e : Engine) (p : Packet) :
    Except Fault Passage := do
  let bytes ← p.slice
  if (← Compound.fetchLength bytes).isSome then
    let messages ← Compound.fetch bytes
    let reports ← e.fetchReportsToExtend p
    let (packet, added) ← e.addInPlace p reports
    let sent := messages.filterMap fun m => (Report.ofMessage? m).map (.report .sent)
    return { e.pass reactions now (sent ++ added.map (.extended .sent)) packet with
      queries := reports.flatMap fun r => r.sources.map fun source => (source, r.sender) }
  else
    match ← p.fetchSsrc, ← p.fetchSequenceNumber with
    | some ssrc, some seq =>
      let e := { e with lastSent := e.lastSent.insert ssrc seq }
      return e.pass reactions now [.firstPacket .sent ssrc now] p
    | _, _ => return e.pass reactions now [] p

theorem fetchReportsToExtend_eq (e : Engine) (p : Packet) :
    e.fetchReportsToExtend p = .ok (e.reportsToExtend p.bytes) := by
  unfold fetchReportsToExtend reportsToExtend
  rw [Packet.fetchReportSources_eq]
  split <;> rfl

theorem addInPlace_eq (e : Engine) (p : Packet) (reports : List ReportSources) :
    e.addInPlace p reports = e.addReports p reports := by
  induction reports generalizing p with
  | nil => rfl
  | cons r reports ih =>
    refine bind_congr fun extended => ?_
    cases extended with
    | none => exact ih p
    | some x =>
      show p.insertInPlace x >>= _ = p.insertReport x >>= _
      rw [Packet.insertInPlace_eq]
      refine bind_congr fun ⟨spliced, added⟩ => ?_
      show e.addInPlace spliced reports >>= _ = e.addReports spliced reports >>= _
      rw [ih spliced]

theorem isSome_length? (bytes : Bytes) :
    (Compound.length? bytes).isSome = Compound.isControl bytes := by
  unfold Compound.length? Compound.isControl
  rw [Option.isSome_map]

theorem outgoingInPlace_eq (reactions : Reactions) (now : Instant) (e : Engine) (p : Packet) :
    e.outgoingInPlace reactions now p = e.outgoing reactions now p := by
  unfold outgoingInPlace outgoing
  simp only [Packet.slice_eq, Compound.fetchLength_eq, Compound.fetch_eq, fetchReportsToExtend_eq,
    Packet.fetchSsrc_eq, Packet.fetchSequenceNumber_eq, bind, Except.bind, isSome_length?,
    addInPlace_eq]
  split
  next => rfl
  next => rfl

/-- Every outgoing packet is processed to its end, but one on a source whose stream cannot be
rated. -/
theorem outgoing_eq_error_iff {reactions : Reactions} {now : Instant} {e : Engine} {p : Packet}
    {fault : Fault} :
    e.outgoing reactions now p = .error fault ↔ fault = .overflow ∧ e.CannotRate p.bytes := by
  by_cases hrate : e.CannotRate p.bytes
  · rw [outgoing_of_cannotRate reactions now hrate, Except.error.injEq, eq_comm, and_iff_left hrate]
  · have hends : ∃ out, e.outgoing reactions now p = .ok out := by
      cases hcontrol : Compound.isControl p.bytes with
      | true =>
        obtain ⟨xs, q, hxs, -, hinserts, -⟩ := exists_insertsAll_of_not_cannotRate p hrate
        obtain ⟨out, hout, -⟩ := outgoing_control reactions now hcontrol hxs hinserts
        exact ⟨out, hout⟩
      | false =>
        obtain ⟨out, hout, -⟩ := outgoing_media reactions now e hcontrol
        exact ⟨out, hout⟩
    obtain ⟨out, hout⟩ := hends
    rw [hout]
    exact iff_of_false nofun fun h => hrate h.2

/-! ## Incoming packets -/

/-- The messages of what is left of an incoming control packet, if that is a control packet. -/
def fetchReceived (bytes : Bytes) : Except Fault (List Message) := do
  if (← Compound.fetchLength bytes).isSome then Compound.fetch bytes else return []

/-- Processes an incoming packet. -/
def incomingInPlace (reactions : Reactions) (now : Instant) (e : Engine) (p : Packet) :
    Except Fault Passage := do
  if (← Compound.fetchLength (← p.slice)).isSome then
    let (rest, removed) ← p.extractInPlace 0
    let messages ← fetchReceived (← rest.slice)
    let operations := messages.flatMap e.messageOperations ++ removed.map (.extended .received)
    let packet := if removed ≠ [] ∧ rest.isEmpty then none else some rest
    let e := { e with indicators := e.indicators.updateAll (messages.filterMap Report.ofMessage?) }
    return e.pass reactions now operations packet
  else
    match ← p.fetchSsrc with
    | some ssrc => return e.pass reactions now [.firstPacket .received ssrc now] p
    | none => return e.pass reactions now [] p

/-- What is no control packet has no messages. -/
theorem fetchReceived_eq (bytes : Bytes) : fetchReceived bytes = .ok (Compound.read bytes) := by
  unfold fetchReceived
  rw [Compound.fetchLength_eq, Compound.length?]
  show (if ((Compound.next? bytes).map _).isSome then _ else _) = _
  cases hnext : Compound.next? bytes with
  | none =>
    rw [Compound.read_of_next?_none hnext]
    rfl
  | some step => exact Compound.fetch_eq bytes

theorem incomingInPlace_eq (reactions : Reactions) (now : Instant) (e : Engine) (p : Packet) :
    e.incomingInPlace reactions now p = .ok (e.incoming reactions now p) := by
  unfold incomingInPlace incoming
  simp only [Packet.slice_eq, Compound.fetchLength_eq, fetchReceived_eq,
    Packet.extractInPlace_zero, Packet.fetchSsrc_eq, bind, Except.bind, isSome_length?]
  split
  next => rfl
  next => cases p.ssrc <;> rfl

/-- No byte string makes an access leave its range: neither in a packet of any layout on its way
through an engine in any state, nor on its own in the readers of control packets. A packet on its
way in is processed to its end, and so is one on its way out that is on no source whose stream
cannot be rated. -/
theorem accesses_in_range (reactions : Reactions) (now : Instant) (e : Engine) (p : Packet)
    (bytes : Bytes) :
    (e.outgoingInPlace reactions now p = e.outgoing reactions now p ∧
      ∀ fault, e.outgoing reactions now p = .error fault ↔
        fault = .overflow ∧ e.CannotRate p.bytes) ∧
    e.incomingInPlace reactions now p = .ok (e.incoming reactions now p) ∧
    Compound.fetch bytes = .ok (Compound.read bytes) ∧
    (Message.fetch bytes).run = .ok (Message.read bytes) ∧
    (Message.fetchParse bytes).run = .ok (Message.parse bytes) ∧
    Compound.fetchLength bytes = .ok (Compound.length? bytes) ∧
    (ExtendedReport.fetchBody bytes).run = .ok (ExtendedReport.readBody bytes) := by
  refine ⟨⟨outgoingInPlace_eq reactions now e p, fun fault => outgoing_eq_error_iff⟩,
    incomingInPlace_eq reactions now e p, Compound.fetch_eq bytes, ?_, ?_,
    Compound.fetchLength_eq bytes, ?_⟩
  · exact congrArg ExceptT.run (Message.fetch_eq bytes)
  · exact congrArg ExceptT.run (Message.fetchParse_eq bytes)
  · exact congrArg ExceptT.run (ExtendedReport.fetchBody_eq bytes)

end Engine

end MediaTransport
