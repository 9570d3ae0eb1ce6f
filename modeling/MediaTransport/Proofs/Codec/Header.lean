import MediaTransport.Proofs.Compound.Walk
import MediaTransport.Proofs.Faults

/-!
# Headers on the wire

What a header says survives the four bytes it is written in, except that the count of an extended
report is not read (`read_encode`), and a header with as many bytes behind it as it declares makes a
sub-packet (`isSubPacket_encode_append`). Whatever is read, its type is in the second byte
(`getElem?_of_read`).
-/

namespace MediaTransport.Rtcp

namespace PacketType

theorem toByte_range (t : PacketType) : 192 ≤ t.toByte ∧ t.toByte ≤ 223 := by
  cases t <;> decide

theorem toByte_inj {s t : PacketType} : s.toByte = t.toByte ↔ s = t := by
  refine ⟨fun h => ?_, congrArg toByte⟩
  have hread : ofByte? s.toByte = ofByte? t.toByte := congrArg ofByte? h
  rw [ofByte?_toByte, ofByte?_toByte] at hread
  exact Option.some.inj hread

theorem eq_toByte_of_ofByte? {b : UInt8} {t : PacketType} (h : ofByte? b = some t) :
    b = t.toByte := by
  unfold ofByte? at h
  split at h <;> cases h <;> rfl

end PacketType

namespace Header

/-- The first byte of a header with the given flag and count. -/
def firstByte (padding : Bool) (count : Fin 32) : UInt8 :=
  .ofNat (protocolVersion.toNat * 64 + (if padding then 32 else 0) + count.val)

/-- The version, the padding flag and the count fill the eight bits of the first byte, and none of
them touches another. -/
theorem bits_firstByte : ∀ (padding : Bool) (count : Fin 32),
    firstByte padding count >>> 6 = protocolVersion ∧
      paddingBit (firstByte padding count) = padding ∧
      countBits (firstByte padding count) = count := by
  decide

theorem encode_eq (h : Header) :
    h.encode = firstByte h.padding h.count :: h.type.toByte :: Bytes.ofUInt16 h.wordsLessOne := rfl

@[simp] theorem length_encode (h : Header) : h.encode.length = headerLength := rfl

theorem word16_ofUInt16 (n : UInt16) :
    Bytes.word16 (.ofNat (n.toNat / 256)) (.ofNat n.toNat) = n :=
  (Prod.mk.inj (Option.some.inj (Bytes.uint16?_ofUInt16 n []))).1

/-- A header is read as it was written, but for the count of an extended report. -/
theorem read_encode (h : Header) (rest : Bytes) :
    read (h.encode ++ rest) =
      .ok { h with count := if h.type = .extendedReport then 0 else h.count } := by
  obtain ⟨hversion, hpadding, hcount⟩ := bits_firstByte h.padding h.count
  rw [encode_eq]
  simp only [read, Bytes.ofUInt16, List.cons_append, List.nil_append]
  rw [if_neg (not_not_intro hversion), PacketType.ofByte?_toByte]
  simp only [hpadding, hcount, word16_ofUInt16]

/-- The bytes that a header is read from. -/
theorem exists_parts_of_read {bytes : Bytes} {header : Header} (h : read bytes = .ok header) :
    ∃ first third fourth rest, bytes = first :: header.type.toByte :: third :: fourth :: rest ∧
      first >>> 6 = protocolVersion ∧ header.wordsLessOne = Bytes.word16 third fourth := by
  unfold read at h
  split at h
  next first second third fourth rest =>
    by_cases hversion : first >>> 6 = protocolVersion
    · rw [if_neg (not_not_intro hversion)] at h
      cases htype : PacketType.ofByte? second with
      | none =>
        rw [htype] at h
        cases h
      | some type =>
        rw [htype] at h
        cases h
        obtain rfl := PacketType.eq_toByte_of_ofByte? htype
        exact ⟨first, third, fourth, rest, rfl, hversion, rfl⟩
    · rw [if_pos hversion] at h
      cases h
  next => cases h

/-- A header is read only where its type stands. -/
theorem getElem?_of_read {bytes : Bytes} {header : Header} (h : read bytes = .ok header) :
    bytes[1]? = some header.type.toByte := by
  obtain ⟨first, third, fourth, rest, rfl, -, -⟩ := exists_parts_of_read h
  rfl

/-- A sub-packet is as long as its header says. -/
theorem bytes_of_read {sub : Bytes} {header : Header} (hsub : Compound.IsSubPacket sub)
    (h : read sub = .ok header) : header.bytes = sub.length := by
  obtain ⟨first, third, fourth, rest, rfl, -, hwords⟩ := exists_parts_of_read h
  rw [bytes, words, hwords]
  simp only [Compound.IsSubPacket, Compound.next?] at hsub
  split at hsub
  next => exact (Bytes.take?_eq_some_iff.1 hsub).2.symm
  next => cases hsub

/-- A header and as many bytes as it declares make a sub-packet. -/
theorem isSubPacket_encode_append (h : Header) {body : Bytes}
    (hlen : headerLength + body.length = h.bytes) : Compound.IsSubPacket (h.encode ++ body) := by
  obtain ⟨hversion, -, -⟩ := bits_firstByte h.padding h.count
  have hrange := h.type.toByte_range
  have hwords : (h.wordsLessOne.toNat + 1) * 4 = (h.encode ++ body).length := by
    rw [List.length_append, length_encode, hlen]
    rfl
  rw [encode_eq] at hwords ⊢
  simp only [Compound.IsSubPacket, Compound.next?, Bytes.ofUInt16, List.cons_append,
    List.nil_append] at hwords ⊢
  rw [if_pos ⟨hversion, hrange⟩, Bytes.take?_eq_some_iff, word16_ofUInt16]
  exact ⟨(List.append_nil _).symm, hwords.symm⟩

/-- A packet without the padding flag is read whole. -/
theorem unpadded?_encode_append {h : Header} (hpadding : h.padding = false) (body : Bytes) :
    Compound.unpadded? (h.encode ++ body) = some (h.encode ++ body) := by
  have hne : h.encode ++ body ≠ [] := List.cons_ne_nil _ _
  have hhead : (h.encode ++ body).head? = some (firstByte h.padding h.count) := rfl
  have hbit : paddingBit (firstByte h.padding h.count) = false := by
    rw [(bits_firstByte h.padding h.count).2.1, hpadding]
  unfold Compound.unpadded?
  rw [hhead, List.getLast?_eq_some_getLast hne]
  simp only [hbit]
  rfl

/-- The second byte of a packet is its type. -/
theorem getElem?_encode_one (h : Header) (rest : Bytes) :
    (h.encode ++ rest)[1]? = some h.type.toByte := rfl

end Header

end MediaTransport.Rtcp
