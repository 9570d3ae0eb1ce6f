import MediaTransport.Proofs.Codec.Image

/-!
# Padding

A packet may have padding behind it, which a bit in its first byte announces, its length counts and
its own last byte measures. No packet is written with padding, but the reader takes it off: a
compound packet is read the same with any of its packets padded (`Compound.read_padded`). The
padding is taken off before a message is read, since an extended report would read on to the end of
its packet.
-/

namespace MediaTransport.Rtcp

theorem Header.firstByte_or :
    ∀ count : Fin 32, firstByte false count ||| 0x20 = firstByte true count := by
  decide

/-- Padding: any bytes, and one behind them that counts them and itself. It is made of whole
words. -/
structure Padding where
  filler : Bytes
  whole : (filler.length + 1) % 4 = 0
  short : filler.length + 1 ≤ 252
  deriving DecidableEq, Repr

namespace Padding

variable (p : Padding)

/-- Length in bytes. -/
def length : Nat := p.filler.length + 1

/-- Length in words. -/
def words : Nat := p.length / 4

def bytes : Bytes := p.filler ++ [.ofNat p.length]

/-- A packet with padding behind it: the padding bit is set, and the length counts the padding. -/
def pad : Bytes → Bytes
  | first :: second :: third :: fourth :: rest =>
    (first ||| 0x20) :: second ::
      (Bytes.ofUInt16 (Bytes.word16 third fourth + .ofNat p.words) ++ (rest ++ p.bytes))
  | packet => packet

/-- The header of a padded packet. -/
def onHeader (h : Header) : Header :=
  { h with padding := true, wordsLessOne := h.wordsLessOne + .ofNat p.words }

@[simp] theorem length_bytes : p.bytes.length = p.length := by
  rw [bytes, List.length_append, List.length_singleton, length]

theorem getLast?_bytes : p.bytes.getLast? = some (.ofNat p.length) := by
  rw [bytes, List.getLast?_concat]

theorem length_bounds : p.length = p.words * 4 ∧ 0 < p.length ∧ p.length ≤ 252 := by
  have hwhole := p.whole
  have hshort := p.short
  unfold words length
  omega

/-- The byte at the end says how long the padding is. -/
theorem toNat_length : (UInt8.ofNat p.length).toNat = p.length := by
  obtain ⟨-, -, hshort⟩ := p.length_bounds
  rw [UInt8.toNat_ofNat']
  omega

/-- A padded packet has the header of one. -/
theorem pad_encode_append {h : Header} (hpadding : h.padding = false) (body : Bytes) :
    p.pad (h.encode ++ body) = (p.onHeader h).encode ++ (body ++ p.bytes) := by
  have hfirst := Header.firstByte_or h.count
  rw [Header.encode_eq, Header.encode_eq, hpadding]
  simp only [Bytes.ofUInt16, List.cons_append, List.nil_append, pad, hfirst, Header.word16_ofUInt16]
  rfl

/-- The padding is taken off as it was put on. -/
theorem unpadded?_append {h : Header} (hpadding : h.padding = true) (body : Bytes) :
    Compound.unpadded? (h.encode ++ (body ++ p.bytes)) = some (h.encode ++ body) := by
  have hhead : (h.encode ++ (body ++ p.bytes)).head? = some (Header.firstByte h.padding h.count) :=
    rfl
  have hlast : (h.encode ++ (body ++ p.bytes)).getLast? = some (.ofNat p.length) := by
    rw [List.getLast?_append, List.getLast?_append, getLast?_bytes]
    rfl
  have hbit : Header.paddingBit (Header.firstByte h.padding h.count) = true := by
    rw [(Header.bits_firstByte h.padding h.count).2.1, hpadding]
  have hlen : (h.encode ++ (body ++ p.bytes)).length = (h.encode ++ body).length + p.length := by
    rw [← List.append_assoc, List.length_append, length_bytes]
  unfold Compound.unpadded?
  rw [hhead, hlast]
  simp only [hbit, p.toNat_length, hlen]
  rw [if_pos trivial, if_pos, Nat.add_sub_cancel, ← List.append_assoc, List.take_left]
  rw [List.length_append, Header.length_encode]
  omega

end Padding

namespace Compound

/-- A message may have padding where it has the words for it. -/
def Fits (row : Message × Option Padding) : Prop :=
  ∀ p ∈ row.2, row.1.words + p.words ≤ 65536

/-- The packet of a message, with padding or without. -/
def encodePadded : Message × Option Padding → Bytes
  | (m, some p) => p.pad m.encode
  | (m, none) => m.encode

/-- A padded message is one step of the reader. -/
theorem read_pad_append {m : Message} {p : Padding} (hm : m.Encodable)
    (hfits : m.words + p.words ≤ 65536) (rest : Bytes) :
    read (p.pad m.encode ++ rest) = m.asRead :: read rest := by
  have hwritten := hm.written_eq
  have hbody := m.length_encodeBody
  have hbytes : (p.onHeader m.header).bytes = m.written + p.length := by
    have hfield := hm.bytes_header
    obtain ⟨hwhole, -, hshort⟩ := p.length_bounds
    simp only [Header.bytes, Header.words] at hfield
    simp only [Padding.onHeader, Header.bytes, Header.words, UInt16.toNat_add, UInt16.toNat_ofNat']
    omega
  have hsub : IsSubPacket ((p.onHeader m.header).encode ++ (m.encodeBody ++ p.bytes)) := by
    refine Header.isSubPacket_encode_append _ ?_
    rw [List.length_append, p.length_bytes, hbytes, ← hbody, Nat.add_assoc]
  have hmessage : Message.read ((p.onHeader m.header).encode ++ m.encodeBody) = .ok m.asRead := by
    refine hm.read_header_append rfl rfl ?_
    rw [List.take_of_length_le, List.drop_left']
    · exact Header.length_encode _
    · rw [List.length_append, Header.length_encode, hbody, hbytes]
      omega
  rw [Message.encode_eq, p.pad_encode_append m.padding_header, hsub.read_append,
    p.unpadded?_append rfl]
  simp only [hmessage]
  rfl

theorem read_padded_append {row : Message × Option Padding} (hm : row.1.Encodable)
    (hfits : Fits row) (rest : Bytes) :
    read (encodePadded row ++ rest) = row.1.asRead :: read rest := by
  obtain ⟨m, _ | p⟩ := row
  · exact read_encode_append hm rest
  · exact read_pad_append hm (hfits p rfl) rest

theorem read_flatMap_padded {rows : List (Message × Option Padding)}
    (h : ∀ row ∈ rows, row.1.Encodable ∧ Fits row) :
    read (rows.flatMap encodePadded) = rows.map fun row => row.1.asRead := by
  induction rows with
  | nil => exact read_of_next?_none rfl
  | cons row rows ih =>
    obtain ⟨⟨hm, hfits⟩, hrows⟩ := List.forall_mem_cons.1 h
    rw [List.flatMap_cons, read_padded_append hm hfits, ih hrows, List.map_cons]

/-- Messages that survive the round trip survive it with padding behind any of them. -/
theorem read_padded {rows : List (Message × Option Padding)} {bytes : Bytes}
    (hwrite : write (rows.map Prod.fst) = .ok bytes) (hread : read bytes = rows.map Prod.fst)
    (hfits : ∀ row ∈ rows, Fits row) :
    bytes = (rows.flatMap fun row => row.1.encode) ∧
      read (rows.flatMap encodePadded) = rows.map Prod.fst := by
  have hrows : ∀ row ∈ rows, row.1.Encodable ∧ row.1.Exact := fun row hrow =>
    roundTrip_iff.1 ⟨bytes, hwrite, hread⟩ row.1 (List.mem_map_of_mem hrow)
  constructor
  · have hencoded := write_eq (List.forall_mem_map.2 fun row hrow => (hrows row hrow).1)
    rw [hwrite, List.flatMap_map] at hencoded
    exact Except.ok.inj hencoded
  · rw [read_flatMap_padded fun row hrow => ⟨(hrows row hrow).1, hfits row hrow⟩]
    exact List.map_congr_left fun row hrow => Message.asRead_eq_self_iff.2 (hrows row hrow).2

/-- The messages of `lastWords`, with padding behind all but the first. -/
def paddedWords : List (Message × Option Padding) :=
  lastWords.zip [none, some ⟨[7, 7, 7], by decide, by decide⟩,
    some ⟨[0xff, 0xff, 0xff, 0xff, 0xff, 0xff, 0xff], by decide, by decide⟩]

theorem read_padded_paddedWords :
    ∃ bytes, write lastWords = .ok bytes ∧ read bytes = lastWords ∧
      read (paddedWords.flatMap encodePadded) = lastWords ∧
      (paddedWords.flatMap encodePadded).length = bytes.length + 12 := by
  obtain ⟨bytes, hwrite, hread⟩ := (@roundTrip_iff lastWords).2 (by decide)
  have hfits : ∀ row ∈ paddedWords, Fits row := by
    simp only [paddedWords, lastWords, List.zip_cons_cons, List.forall_mem_cons]
    exact ⟨nofun, by rintro p ⟨⟩; decide, by rintro p ⟨⟩; decide, List.forall_mem_nil _⟩
  obtain ⟨hbytes, hsame⟩ := @read_padded paddedWords bytes hwrite hread hfits
  refine ⟨bytes, hwrite, hread, hsame, ?_⟩
  rw [hbytes]
  decide

end Compound

end MediaTransport.Rtcp
