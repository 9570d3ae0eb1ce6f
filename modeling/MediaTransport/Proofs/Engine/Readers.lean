import MediaTransport.Proofs.Engine.Transparency

/-!
# The two readers of extended reports

Extended reports are read in two places: the reader of whole compound packets gives them among the
other messages, and an extraction reads each of them for itself while it takes them out. The two
agree wherever padding makes no difference (`PaddingAside`): an extraction takes out what the reader
reads, and the reader reads the rest as before (`recorded_eq_read`).

They part on padding, which the reader takes off and an extraction reads as blocks
(`recorded_ne_read_padded`).
-/

namespace MediaTransport

open Rtcp

namespace Rtcp

namespace Message

/-- The extended report that a message is. -/
def extended? : Message → Option ExtendedReport
  | extendedReport x => some x
  | _ => none

/-- To ask a packet for an extended report is to read it as a message. -/
theorem extendedReport?_eq (bytes : Bytes) :
    extendedReport? bytes = (read bytes).toOption.bind extended? := by
  unfold extendedReport?
  cases hheader : Header.read bytes with
  | error e =>
    simp only [parse, read, hheader, bind, Except.bind, Except.mapError]
    rfl
  | ok header =>
    by_cases hinterprets : interprets header.type
    · rw [parse_of_interprets hheader hinterprets]
      cases read bytes with
      | error e => rfl
      | ok m => cases m <;> rfl
    · rw [parse_of_not_interprets hheader hinterprets]
      cases hmessage : read bytes with
      | error e => rfl
      | ok m =>
        cases m with
        | extendedReport x =>
          rw [type_of_read hheader hmessage] at hinterprets
          exact absurd rfl hinterprets
        | senderReport r => rfl
        | receiverReport r => rfl
        | goodbye g => rfl

end Message

namespace Compound

/-- Padding makes no difference to where extended reports are found: no sub-packet has more of it
than there is room for, and extended reports have none. -/
structure PaddingAside (bytes : Bytes) : Prop where
  fits : ∀ sub ∈ subPackets bytes, (unpadded? sub).isSome
  bare : ∀ sub ∈ subPackets bytes, sub[1]? = some PacketType.extendedReport.toByte →
    unpadded? sub = some sub

/-- Padding leaves the header. -/
theorem getElem?_of_unpadded? {sub packet : Bytes} (h : unpadded? sub = some packet) :
    packet[1]? = sub[1]? := by
  unfold unpadded? at h
  split at h
  next first last hfirst hlast =>
    split at h
    next hpadded =>
      split at h
      next hfits =>
        cases h
        have hone : 1 < sub.length - last.toNat := by
          unfold headerLength at hfits
          omega
        rw [List.getElem?_take, if_pos hone]
      next => cases h
    next => cases h; rfl
  next => cases h

/-- The second byte of a sub-packet is the type of its message. -/
theorem getElem?_of_message? {sub : Bytes} {m : Message} (h : message? sub = some m) :
    sub[1]? = some m.header.type.toByte := by
  obtain ⟨packet, hpacket, hread⟩ := Option.bind_eq_some_iff.1 h
  rw [← getElem?_of_unpadded? hpacket]
  cases hmessage : Message.read packet with
  | error e =>
    rw [hmessage] at hread
    cases hread
  | ok message =>
    rw [hmessage] at hread
    cases hread
    exact Message.getElem?_of_read hmessage

/-- An extended report without padding is the same to both readers, and so is everything else. -/
theorem extendedReport?_eq_message? {sub : Bytes}
    (hbare : sub[1]? = some PacketType.extendedReport.toByte → unpadded? sub = some sub) :
    extendedReport? sub = (message? sub).bind Message.extended? := by
  unfold extendedReport? message?
  by_cases htype : sub[1]? = some PacketType.extendedReport.toByte
  · rw [if_pos htype, hbare htype, Option.bind_some, Message.extendedReport?_eq]
  · rw [if_neg htype]
    refine Eq.symm (Option.eq_none_iff_forall_not_mem.2 fun x hx => htype ?_)
    obtain ⟨m, hm, hx⟩ := Option.bind_eq_some_iff.1 hx
    rw [getElem?_of_message? hm]
    cases m with
    | extendedReport y => rfl
    | senderReport r => cases hx
    | receiverReport r => cases hx
    | goodbye g => cases hx

theorem filterMap_message?_kept {subs : List Bytes}
    (h : ∀ sub ∈ subs, extendedReport? sub = (message? sub).bind Message.extended?) :
    (kept subs).filterMap message? =
      (subs.filterMap message?).filter fun m => m.extended?.isNone := by
  unfold kept
  rw [List.filterMap_filter, List.filter_filterMap]
  refine List.filterMap_congr fun sub hsub => ?_
  rw [h sub hsub]
  cases message? sub with
  | none => rfl
  | some m => cases m <;> rfl

end Compound

end Rtcp

open Compound StoreOperation

namespace Packet

/-- Where padding makes no difference, an extraction takes out the extended reports that the reader
of compound packets reads, and leaves a packet that it reads as the rest. -/
theorem extractReports_eq_read {p : Packet} (h : PaddingAside p.bytes) :
    p.extractReports.2 = (Compound.read p.bytes).filterMap Message.extended? ∧
      Compound.read p.extractReports.1.bytes =
        (Compound.read p.bytes).filter fun m => m.extended?.isNone := by
  have hsubs : ∀ sub ∈ subPackets p.bytes,
      Compound.extendedReport? sub = (message? sub).bind Message.extended? :=
    fun sub hsub => extendedReport?_eq_message? (h.bare sub hsub)
  have hkept : ∀ sub ∈ kept (subPackets p.bytes), sub ∈ subPackets p.bytes :=
    fun sub hsub => List.mem_of_mem_filter hsub
  rw [read_eq_filterMap h.fits, reports_extractReports, bytes_extractReports]
  constructor
  · rw [List.filterMap_filterMap]
    exact List.filterMap_congr hsubs
  · rw [read_flatten_append (fun sub hsub => isSubPacket_of_mem_subPackets (hkept sub hsub))
      (fun sub hsub => h.fits sub (hkept sub hsub)) (next?_trailing p.bytes)]
    exact filterMap_message?_kept hsubs

end Packet

namespace Engine

/-- An incoming packet passes to the store the extended reports that are taken out of it. -/
theorem extendedReports_incoming (reactions : Reactions) (now : Instant) (e : Engine) (p : Packet) :
    extendedReports .received (e.incoming reactions now p).operations = p.extractReports.2 := by
  cases hcontrol : isControl p.bytes with
  | false =>
    have hwalk := walk_of_next?_none (next?_of_not_isControl hcontrol)
    rw [(e.incoming_media reactions now hcontrol).2.2, Packet.reports_extractReports, subPackets,
      hwalk]
    rfl
  | true =>
    rw [operations_incoming reactions now e hcontrol]
    exact e.extendedReports_receivedOperations p

/-- Where padding makes no difference, the extended reports that the reader of compound packets
reads are those that an extraction takes out and an engine passes to its store, and the reader reads
what is left as before. -/
theorem recorded_eq_read {p : Packet} (h : PaddingAside p.bytes) :
    p.extractReports.2 = (Compound.read p.bytes).filterMap Message.extended? ∧
      Compound.read p.extractReports.1.bytes =
        (Compound.read p.bytes).filter (fun m => m.extended?.isNone) ∧
      ∀ (reactions : Reactions) (now : Instant) (e : Engine),
        extendedReports .received (e.incoming reactions now p).operations =
          (Compound.read p.bytes).filterMap Message.extended? := by
  obtain ⟨htaken, hleft⟩ := Packet.extractReports_eq_read h
  refine ⟨htaken, hleft, fun reactions now e => ?_⟩
  rw [extendedReports_incoming, htaken]

/-- A receiver report with four bytes of padding, and an extended report. -/
def cushioned : List Bytes :=
  [[0xa0, 201, 0, 2, 0, 0, 0, 1, 0, 0, 0, 4],
    [0x80, 207, 0, 4, 0, 0, 0, 1, 4, 0, 0, 2, 0, 0, 0, 0, 0, 0, 0, 9]]

theorem recorded_eq_read_cushioned :
    PaddingAside cushioned.flatten ∧
      extendedReports .received
          (({} : Engine).incoming (fun _ _ _ => []) 0 (.ofBytes cushioned.flatten)).operations =
        [⟨⟨1⟩, [.referenceTime ⟨9⟩]⟩] := by
  have hsubs : subPackets cushioned.flatten = cushioned := by
    rw [← List.append_nil cushioned.flatten]
    exact subPackets_flatten_append (by decide) rfl
  have haside : PaddingAside cushioned.flatten := by
    constructor
    · rw [hsubs]
      decide
    · rw [hsubs]
      decide
  obtain ⟨-, -, hrecorded⟩ := @recorded_eq_read (.ofBytes cushioned.flatten)
    (by rw [Packet.bytes_ofBytes]; exact haside)
  refine ⟨haside, ?_⟩
  rw [hrecorded, Packet.bytes_ofBytes]
  decide +kernel

/-- A receiver report, and an extended report with four bytes of padding. -/
def padded : Bytes :=
  [0x80, 201, 0, 1, 0, 0, 0, 1, 0xa0, 207, 0, 5, 0, 0, 0, 1, 4, 0, 0, 2, 0, 0, 0, 0, 0, 0, 0, 9,
    0, 0, 0, 4]

/-- The reader reads an extended report with padding, but nothing is taken out and passed to the
store. -/
theorem recorded_ne_read_padded :
    (Compound.read padded).filterMap Message.extended? = [⟨⟨1⟩, [.referenceTime ⟨9⟩]⟩] ∧
      (Packet.ofBytes padded).extractReports.2 = [] ∧
      extendedReports .received
        (({} : Engine).incoming (fun _ _ _ => []) 0 (.ofBytes padded)).operations = [] := by
  have hnone : (Packet.ofBytes padded).extractReports.2 = [] := by decide +kernel
  refine ⟨by decide +kernel, hnone, ?_⟩
  rw [extendedReports_incoming, hnone]

end Engine

end MediaTransport
