import MediaTransport.Proofs.Codec.Extended
import MediaTransport.Proofs.Codec.Report

/-!
# Messages on the wire

A message that can be written is one sub-packet, and a reader makes of it what it makes of its parts
(`read_encode`). It is the same message again exactly when every part has room on the wire
(`asRead_eq_self_iff`). Whatever bytes a message is read from, it is of the type that they name
(`getElem?_of_parse`).
-/

namespace MediaTransport.Rtcp.Message

/-- A message that can be written: an extended report must be whole words, and few enough for its
header to count. -/
def Encodable : Message → Prop
  | extendedReport x => x.Encodable
  | _ => True

/-- A message whose values have room on the wire: the packets lost in 24 bits, the adjustment rate
in four, and no uninterpreted block looks like an interpreted one. -/
def Exact : Message → Prop
  | senderReport r => ∀ f ∈ r.reports.toList, f.packetsLost.toNat < 16777216
  | receiverReport r => ∀ f ∈ r.reports.toList, f.packetsLost.toNat < 16777216
  | extendedReport x => ∀ b ∈ x.blocks, b.Exact
  | goodbye _ => True

instance : (m : Message) → Decidable m.Encodable
  | extendedReport x => inferInstanceAs (Decidable x.Encodable)
  | senderReport _ | receiverReport _ | goodbye _ => .isTrue trivial

instance : (m : Message) → Decidable m.Exact
  | senderReport r | receiverReport r =>
    inferInstanceAs (Decidable (∀ f ∈ r.reports.toList, f.packetsLost.toNat < 16777216))
  | extendedReport x => inferInstanceAs (Decidable (∀ b ∈ x.blocks, b.Exact))
  | goodbye _ => .isTrue trivial

/-- What a reader makes of a written message. -/
def asRead : Message → Message
  | senderReport r => senderReport r.asRead
  | receiverReport r => receiverReport r.asRead
  | extendedReport x => extendedReport x.asRead
  | goodbye g => goodbye g

/-- The bytes after the header. -/
def encodeBody : Message → Bytes
  | senderReport r => r.encodeBody
  | receiverReport r => r.encodeBody
  | extendedReport x => x.encodeBody
  | goodbye g => g.encodeBody

theorem asRead_eq_self_iff {m : Message} : m.asRead = m ↔ m.Exact := by
  cases m with
  | senderReport r =>
    simp only [asRead, senderReport.injEq, Exact]
    exact SenderReport.asRead_eq_self_iff
  | receiverReport r =>
    simp only [asRead, receiverReport.injEq, Exact]
    exact ReceiverReport.asRead_eq_self_iff
  | extendedReport x =>
    simp only [asRead, extendedReport.injEq, Exact]
    exact ExtendedReport.asRead_eq_self_iff
  | goodbye g => exact iff_of_true rfl trivial

theorem encode_eq (m : Message) : m.encode = m.header.encode ++ m.encodeBody := by
  cases m <;> rfl

theorem padding_header (m : Message) : m.header.padding = false := by
  cases m <;> rfl

theorem length_encodeBody (m : Message) : headerLength + m.encodeBody.length = m.written := by
  cases m with
  | senderReport r => exact r.length_encodeBody
  | receiverReport r => exact r.length_encodeBody
  | extendedReport x => exact x.length_encodeBody
  | goodbye g => exact g.length_encodeBody

@[simp] theorem length_encode (m : Message) : m.encode.length = m.written := by
  rw [encode_eq, List.length_append, Header.length_encode, length_encodeBody]

theorem Encodable.written_eq {m : Message} (hm : m.Encodable) : m.written = m.words * 4 := by
  cases m with
  | extendedReport x => exact ExtendedReport.written_eq_of_whole hm.whole
  | senderReport r => rfl
  | receiverReport r => rfl
  | goodbye g => rfl

/-- A message that can be written has a header and no more words than a header can count. -/
theorem Encodable.words_mem {m : Message} (hm : m.Encodable) : 1 ≤ m.words ∧ m.words ≤ 65536 := by
  cases m with
  | extendedReport x =>
    refine ⟨?_, hm.words_le⟩
    simp only [words, ExtendedReport.words]
    omega
  | senderReport r =>
    have := r.reports.length_le
    simp only [words, SenderReport.words, ReportList.length, maxItems] at this ⊢
    omega
  | receiverReport r =>
    have := r.reports.length_le
    simp only [words, ReceiverReport.words, ReportList.length, maxItems] at this ⊢
    omega
  | goodbye g =>
    have := g.sources.length_le
    simp only [words, Goodbye.words, ReportList.length, maxItems] at this ⊢
    omega

/-- The length that a header declares is the length of the message. -/
theorem Encodable.bytes_header {m : Message} (hm : m.Encodable) : m.header.bytes = m.written := by
  have hfield : m.header.wordsLessOne = .ofNat (m.words - 1) := by cases m <;> rfl
  obtain ⟨hpos, hle⟩ := hm.words_mem
  rw [hm.written_eq]
  simp only [Header.bytes, Header.words, hfield, UInt16.toNat_ofNat']
  omega

theorem Encodable.isSubPacket_encode {m : Message} (hm : m.Encodable) :
    Compound.IsSubPacket m.encode := by
  rw [encode_eq]
  exact Header.isSubPacket_encode_append _ (m.length_encodeBody.trans hm.bytes_header.symm)

theorem unpadded?_encode (m : Message) : Compound.unpadded? m.encode = some m.encode := by
  rw [encode_eq]
  exact Header.unpadded?_encode_append m.padding_header _

/-! ## What is read -/

/-- A message is what a body reads as, given the count in the header in front of it. -/
def ReadFrom (count : Nat) (body : Bytes) : Message → Prop
  | senderReport r => SenderReport.readBody count body = .ok r
  | receiverReport r => ReceiverReport.readBody count body = .ok r
  | extendedReport x => ExtendedReport.readBody body = .ok x
  | goodbye g => Goodbye.readBody count body = .ok g

/-- A message is read from a header that names its type, and from the bytes behind the header as far
as the declared length goes. -/
theorem read_eq_ok_iff {bytes : Bytes} {m : Message} :
    read bytes = .ok m ↔ ∃ header, Header.read bytes = .ok header ∧ header.type = m.header.type ∧
      m.ReadFrom header.count.val ((bytes.take header.bytes).drop headerLength) := by
  constructor
  · intro h
    obtain ⟨header, hheader, hmessage⟩ := Except.bind_eq_ok_iff.1 h
    refine ⟨header, hheader, ?_⟩
    cases htype : header.type with
    | senderReport | receiverReport | extendedReport | goodbye =>
      simp only [htype] at hmessage
      obtain ⟨body, hbody, ⟨⟩⟩ := Except.bind_eq_ok_iff.1 hmessage
      exact ⟨rfl, hbody⟩
    | sourceDescription | applicationDefined | transportLayerFeedback | payloadSpecificFeedback =>
      simp only [htype] at hmessage
      cases hmessage
  · rintro ⟨header, hheader, htype, hbody⟩
    simp only [read, hheader, bind, Except.bind]
    cases m with
    | senderReport r | receiverReport r | extendedReport x | goodbye g =>
      simp only [ReadFrom] at hbody
      rw [htype]
      simp only [Message.header, SenderReport.header, ReceiverReport.header, ExtendedReport.header,
        Goodbye.header, Header.ofParts, hbody]
      rfl

theorem Encodable.readFrom_encodeBody {m : Message} (hm : m.Encodable) :
    m.asRead.ReadFrom m.header.count.val m.encodeBody := by
  cases m with
  | senderReport r => exact r.readBody_encodeBody
  | receiverReport r => exact r.readBody_encodeBody
  | extendedReport x => exact ExtendedReport.readBody_encodeBody hm
  | goodbye g => exact g.readBody_encodeBody

/-- A written body is read behind any header of its type and count that reaches to its end. -/
theorem Encodable.read_header_append {m : Message} (hm : m.Encodable) {h : Header} {rest : Bytes}
    (htype : h.type = m.header.type) (hcount : h.count = m.header.count)
    (hbody : ((h.encode ++ rest).take h.bytes).drop headerLength = m.encodeBody) :
    Message.read (h.encode ++ rest) = .ok m.asRead := by
  refine read_eq_ok_iff.2 ⟨_, h.read_encode rest, ?_, ?_⟩
  · rw [htype]
    cases m <;> rfl
  · have hread := hm.readFrom_encodeBody
    rw [← hbody, ← hcount] at hread
    -- Only an extended report loses its count, and it is read without it.
    by_cases hextended : h.type = .extendedReport
    · rw [htype] at hextended
      cases m with
      | extendedReport x => exact hread
      | senderReport r | receiverReport r | goodbye g => cases hextended
    · rw [if_neg hextended]
      exact hread

/-- A written message is read off the front of whatever follows it. -/
theorem Encodable.read_encode {m : Message} (hm : m.Encodable) (rest : Bytes) :
    Message.read (m.encode ++ rest) = .ok m.asRead := by
  have hbody : ((m.encode ++ rest).take m.header.bytes).drop headerLength = m.encodeBody := by
    rw [hm.bytes_header, ← length_encode, List.take_left', encode_eq, List.drop_left']
    · exact Header.length_encode _
    · rfl
  rw [encode_eq, List.append_assoc] at hbody ⊢
  exact hm.read_header_append rfl rfl hbody

/-! ## The type of what is read -/

theorem type_of_read {bytes : Bytes} {header : Header} {m : Message}
    (hheader : Header.read bytes = .ok header) (h : read bytes = .ok m) :
    header.type = m.header.type := by
  obtain ⟨other, hother, htype, -⟩ := read_eq_ok_iff.1 h
  rw [hheader] at hother
  cases hother
  exact htype

theorem getElem?_of_read {bytes : Bytes} {m : Message} (h : read bytes = .ok m) :
    bytes[1]? = some m.header.type.toByte := by
  obtain ⟨header, hheader, htype, -⟩ := read_eq_ok_iff.1 h
  rw [Header.getElem?_of_read hheader, htype]

/-- Of the types that are interpreted, a packet is parsed as it is read. -/
theorem parse_of_interprets {bytes : Bytes} {header : Header}
    (hheader : Header.read bytes = .ok header) (h : interprets header.type = true) :
    parse bytes = (read bytes).mapError ReadError.malformed := by
  unfold parse
  rw [hheader]
  exact if_pos h

theorem parse_of_not_interprets {bytes : Bytes} {header : Header}
    (hheader : Header.read bytes = .ok header) (h : ¬interprets header.type = true) :
    parse bytes = .error (.unexpectedType header.type) := by
  unfold parse
  rw [hheader]
  exact if_neg h

theorem read_of_parse {bytes : Bytes} {m : Message} (h : parse bytes = .ok m) :
    read bytes = .ok m := by
  cases hheader : Header.read bytes with
  | error e =>
    unfold parse at h
    rw [hheader] at h
    cases h
  | ok header =>
    by_cases hinterprets : interprets header.type = true
    · rw [parse_of_interprets hheader hinterprets] at h
      cases hread : read bytes with
      | error e =>
        rw [hread] at h
        cases h
      | ok read =>
        rw [hread] at h
        cases h
        rfl
    · rw [parse_of_not_interprets hheader hinterprets] at h
      cases h

theorem getElem?_of_parse {bytes : Bytes} {m : Message} (h : parse bytes = .ok m) :
    bytes[1]? = some m.header.type.toByte :=
  getElem?_of_read (read_of_parse h)

end MediaTransport.Rtcp.Message
