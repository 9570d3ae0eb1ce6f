import MediaTransport.Proofs.Codec.Image

/-!
# Writing what was read

To read bytes and to write what was read brings them into a normal form, which the reader does not
tell from them (`Compound.write_read`). An extended report changes little on the way. Its header
loses the padding bit and the bits that would be a count, the reserved bytes of its interpreted
blocks become zero (`Block.encode_of_readFrom`), and every other byte stays
(`ExtendedReport.Normalized`).
-/

namespace MediaTransport

namespace Bytes

/-- The bytes with zeros at some positions. -/
def clear (positions : List Nat) (bytes : Bytes) : Bytes :=
  positions.foldl (fun bytes i => bytes.set i 0) bytes

theorem getElem?_clear {positions : List Nat} {i : Nat} (h : i ∉ positions) (bytes : Bytes) :
    (clear positions bytes)[i]? = bytes[i]? := by
  induction positions generalizing bytes with
  | nil => rfl
  | cons j positions ih =>
    rw [List.mem_cons, not_or] at h
    obtain ⟨hne, hrest⟩ := h
    exact (ih hrest (bytes.set j 0)).trans (List.getElem?_set_ne (Ne.symm hne))

end Bytes

namespace Rtcp

/-! ## Blocks -/

theorem ReferenceTime.encodeBody_of_readBody? {body : Bytes} {t : ReferenceTime}
    (hlen : body.length = 8) (h : readBody? body = some t) : t.encodeBody = body := by
  match body with
  | [a, b, c, d, e, f, g, h'] =>
    cases h
    rw [encodeBody, Bytes.ofUInt64_word64, Bytes.ofUInt32_word32, Bytes.ofUInt32_word32]
    rfl

theorem ReceiverDelay.flatMap_encode_readAll {body : Bytes} (hlen : body.length % size = 0) :
    (readAll body).flatMap encode = body := by
  fun_induction readAll body with
  | case1 a b c d e f g h i j k l rest ih =>
    have hrest : rest.length % size = 0 := by
      simp only [List.length_cons, size] at hlen ⊢
      omega
    rw [List.flatMap_cons, ih hrest, encode, Ssrc.encode, Bytes.ofUInt32_word32,
      Bytes.ofUInt32_word32, Bytes.ofUInt32_word32]
    rfl
  | case2 body hshort =>
    have hempty : body.length = 0 := by
      have := length_lt_size hshort
      rwa [Nat.mod_eq_of_lt this] at hlen
    rw [List.length_eq_zero_iff.1 hempty]
    rfl

namespace VoipMetrics

/-- The configuration byte is the fields that are read from it. -/
theorem bits_of_configuration (byte : UInt8) :
    (LossConcealment.ofBits (byte >>> 6)).toBits <<< 6 |||
      (Adaptivity.ofBits (byte >>> 4)).toBits <<< 4 ||| (byte &&& 0x0f &&& 0x0f) = byte := by
  have key : ∀ n : Fin 256,
      (LossConcealment.ofBits (UInt8.ofNat n.val >>> 6)).toBits <<< 6 |||
        (Adaptivity.ofBits (UInt8.ofNat n.val >>> 4)).toBits <<< 4 |||
          (UInt8.ofNat n.val &&& 0x0f &&& 0x0f) = UInt8.ofNat n.val := by
    decide +kernel
  have h := key ⟨byte.toNat, byte.toNat_lt⟩
  rwa [UInt8.ofNat_toNat] at h

/-- Metrics that were read are written as they were, but for the byte behind the configuration. -/
theorem encodeBody_of_readBody? {body : Bytes} {m : VoipMetrics} (hlen : body.length = 32)
    (h : readBody? body = some m) : m.encodeBody = body.set 25 0 := by
  iterate 32
    rcases body with _ | ⟨_, body⟩
    · cases hlen
  obtain rfl : body = [] := List.length_eq_zero_iff.1 (by simpa using hlen)
  cases h
  simp only [encodeBody, configuration, Ssrc.encode, Bytes.ofUInt32_word32, Bytes.ofUInt16_word16,
    bits_of_configuration, UInt8.toUInt8_toInt8]
  rfl

end VoipMetrics

namespace Block

/-- Positions of the bytes of a block that say nothing. -/
def reserved : Block → List Nat
  | referenceTime _ | delays _ => [1]
  | voipMetrics _ => [1, 29]
  | unknown _ => []

theorem encodeHeader_word16 (blockType typeSpecific third fourth : UInt8) :
    encodeHeader blockType typeSpecific (Bytes.word16 third fourth).toNat =
      [blockType, typeSpecific, third, fourth] := by
  rw [encodeHeader, UInt16.ofNat_toNat, Bytes.ofUInt16_word16]

/-- A block that was read is written as its frame was, but for the bytes that say nothing. -/
theorem encode_of_readFrom {frame : Bytes} {b : Block} (h : ReadFrom frame b) :
    b.encode = Bytes.clear b.reserved frame := by
  obtain ⟨blockType, typeSpecific, third, fourth, body, rfl, hlen, rfl⟩ := h.exists_parts
  have hheader := encodeHeader_word16 blockType
  obtain ⟨rfl, hwords, t, ht, hblock⟩ | ⟨rfl, hwords, hblock⟩ | ⟨rfl, hwords, m, hm, hblock⟩ |
    ⟨hunknown, hblock⟩ := ofParts_cases blockType typeSpecific (Nat.le_of_eq hlen.symm)
  · rw [hblock, encode, ReferenceTime.encodeBody_of_readBody? (by rw [hlen, hwords]) ht]
    have hfour := hheader 0 third fourth
    rw [hwords] at hfour
    exact congrArg (· ++ body) hfour
  · have hsize : body.length % ReceiverDelay.size = 0 := by
      rw [ReceiverDelay.size]
      omega
    have hitems : 3 * (ReceiverDelay.readAll body).length = (Bytes.word16 third fourth).toNat := by
      rw [ReceiverDelay.length_readAll, ReceiverDelay.size]
      omega
    rw [hblock, encode, hitems, ReceiverDelay.flatMap_encode_readAll hsize]
    exact congrArg (· ++ body) (hheader 0 third fourth)
  · rw [hblock, encode, VoipMetrics.encodeBody_of_readBody? (by rw [hlen, hwords]) hm]
    have hfour := hheader 0 third fourth
    rw [hwords] at hfour
    exact congrArg (· ++ body.set 25 0) hfour
  · have hwords : body.length / 4 = (Bytes.word16 third fourth).toNat := by omega
    rw [hblock, encode, hwords]
    exact congrArg (· ++ body) (hheader typeSpecific third fourth)

/-- Blocks in a row, each with the position at which it starts. -/
def placesFrom : Nat → List Block → List (Nat × Block)
  | _, [] => []
  | start, b :: blocks => (start, b) :: placesFrom (start + b.length) blocks

/-- The bytes of blocks in a row that say nothing. -/
def reservedIn (places : List (Nat × Block)) : List Nat :=
  places.flatMap fun place => place.2.reserved.map (place.1 + ·)

/-- Where a row of frames and what its blocks are written as differ, nothing is said. -/
theorem mem_reservedIn_of_ne {frames : List Bytes} {blocks : List Block}
    (h : List.Forall₂ ReadFrom frames blocks) (start : Nat) {i : Nat}
    (hne : (blocks.flatMap encode)[i]? ≠ frames.flatten[i]?) :
    start + i ∈ reservedIn (placesFrom start blocks) := by
  induction h generalizing start i with
  | nil => exact absurd rfl hne
  | @cons frame b frames blocks hb _ ih =>
    rw [List.flatMap_cons, List.flatten_cons] at hne
    rw [placesFrom, reservedIn, List.flatMap_cons, List.mem_append]
    by_cases hi : i < frame.length
    · rw [List.getElem?_append_left (by rwa [length_encode, hb.length]),
        List.getElem?_append_left hi, encode_of_readFrom hb] at hne
      exact .inl (List.mem_map.2 ⟨i, Decidable.of_not_not fun hout =>
        hne (Bytes.getElem?_clear hout frame), rfl⟩)
    · rw [List.getElem?_append_right (by rw [length_encode, hb.length]; omega),
        List.getElem?_append_right (by omega), length_encode, hb.length] at hne
      have hrest := ih (start + b.length) hne
      have hpos : start + b.length + (i - frame.length) = start + i := by
        rw [hb.length]
        omega
      rw [hpos] at hrest
      exact .inr hrest

/-- A row of frames, and what its blocks are written as, split at one of the blocks. -/
theorem exists_split_of_mem_placesFrom {frames : List Bytes} {blocks : List Block}
    (h : List.Forall₂ ReadFrom frames blocks) {start : Nat} {place : Nat × Block}
    (hplace : place ∈ placesFrom start blocks) :
    ∃ before frame after before' after', frames.flatten = before ++ (frame ++ after) ∧
      blocks.flatMap encode = before' ++ (place.2.encode ++ after') ∧
      before'.length = before.length ∧ place.1 = start + before.length ∧
      ReadFrom frame place.2 := by
  induction h generalizing start with
  | nil => cases hplace
  | @cons frame b frames blocks hb _ ih =>
    rcases List.mem_cons.1 hplace with rfl | hrest
    · exact ⟨[], frame, frames.flatten, [], blocks.flatMap encode, rfl, rfl, rfl, rfl, hb⟩
    · obtain ⟨before, frame', after, before', after', hframes, hblocks, hlen, hstart, hframe⟩ :=
        ih hrest
      refine ⟨frame ++ before, frame', after, b.encode ++ before', after', ?_, ?_, ?_, ?_, hframe⟩
      · rw [List.flatten_cons, hframes, List.append_assoc]
      · rw [List.flatMap_cons, hblocks, List.append_assoc]
      · rw [List.length_append, List.length_append, length_encode, hb.length, hlen]
      · rw [hstart, List.length_append, hb.length, Nat.add_assoc]

end Block

/-! ## Extended reports -/

namespace ExtendedReport

/-- The blocks of a report, each with its position in the packet. -/
def places (x : ExtendedReport) : List (Nat × Block) := Block.placesFrom 8 x.blocks

/-- The report `x` stands in `old`, and `new` differs from `old` only where it says nothing: in the
six low bits of the first byte, and in reserved bytes of blocks. -/
structure Normalized (x : ExtendedReport) (old new : Bytes) : Prop where
  length : new.length = old.length
  version : new[0]?.map (fun byte : UInt8 => byte >>> 6) =
    old[0]?.map fun byte : UInt8 => byte >>> 6
  differ : ∀ i, new[i]? ≠ old[i]? → i = 0 ∨ i ∈ Block.reservedIn x.places
  placed : ∀ place ∈ x.places,
    Block.read (old.drop place.1) = .ok (place.2, old.drop (place.1 + place.2.length))
  unknown : ∀ start b, (start, .unknown b) ∈ x.places →
    ∀ i < 4 + b.body.length, new[start + i]? = old[start + i]?

/-- A sub-packet that is read as an extended report, and what that report is written as. -/
theorem exists_parts_of_read {sub : Bytes} {x : ExtendedReport} (hsub : Compound.IsSubPacket sub)
    (h : Message.read sub = .ok (.extendedReport x)) :
    ∃ (first : UInt8) (front : Bytes) (frames : List Bytes),
      first >>> 6 = protocolVersion ∧ front.length = 7 ∧ sub = first :: (front ++ frames.flatten) ∧
      x.encode = 0x80 :: (front ++ x.blocks.flatMap Block.encode) ∧
      List.Forall₂ Block.ReadFrom frames x.blocks := by
  obtain ⟨header, hheader, htype, hbody⟩ := Message.read_eq_ok_iff.1 h
  have hlen := Header.bytes_of_read hsub hheader
  obtain ⟨first, third, fourth, rest, rfl, hversion, hfield⟩ := Header.exists_parts_of_read hheader
  have hrest : ((first :: header.type.toByte :: third :: fourth :: rest).take header.bytes).drop
      headerLength = rest := by
    rw [hlen, List.take_length]
    rfl
  rw [hrest] at hbody
  obtain ⟨frames, rfl, -, hrow⟩ := exists_frames_of_readBody hbody
  have hwords : x.header.wordsLessOne = header.wordsLessOne := by
    obtain ⟨hwhole, -, hwritten⟩ := isWhole_exact_of_readBody hbody
    rw [written_eq_of_whole hwhole, headerLength] at hwritten
    simp only [List.length_cons, Header.bytes, Header.words] at hlen
    rw [ExtendedReport.header, ← UInt16.toNat_inj, UInt16.toNat_ofNat']
    have := header.wordsLessOne.toNat_lt
    omega
  have hencode : x.header.encode = [0x80, header.type.toByte, third, fourth] := by
    rw [Header.encode, hwords, hfield, Bytes.ofUInt16_word16, htype]
    rfl
  refine ⟨first, header.type.toByte :: third :: fourth :: x.ssrc.encode, frames, hversion, rfl,
    rfl, ?_, hrow⟩
  rw [encode, hencode]
  rfl

/-- Where a block stands in a packet, and what it is written as. -/
theorem exists_split_of_mem_places {sub : Bytes} {x : ExtendedReport}
    (hsub : Compound.IsSubPacket sub) (h : Message.read sub = .ok (.extendedReport x))
    {place : Nat × Block} (hplace : place ∈ x.places) :
    ∃ before frame after before' after', sub = before ++ (frame ++ after) ∧
      x.encode = before' ++ (place.2.encode ++ after') ∧ before.length = place.1 ∧
      before'.length = place.1 ∧ Block.ReadFrom frame place.2 := by
  obtain ⟨first, front, frames, -, hfront, rfl, hencode, hrow⟩ := exists_parts_of_read hsub h
  obtain ⟨before, frame, after, before', after', hframes, hblocks, hlen, hstart, hframe⟩ :=
    Block.exists_split_of_mem_placesFrom hrow hplace
  refine ⟨first :: (front ++ before), frame, after, 0x80 :: (front ++ before'), after', ?_, ?_, ?_,
    ?_, hframe⟩
  · rw [hframes, List.cons_append, List.append_assoc]
  · rw [hencode, hblocks, List.cons_append, List.append_assoc]
  · rw [List.length_cons, List.length_append, hfront, hstart]
    omega
  · rw [List.length_cons, List.length_append, hfront, hlen, hstart]
    omega

/-- To write what was read changes nothing that says something. -/
theorem normalized_of_read {sub : Bytes} {x : ExtendedReport} (hsub : Compound.IsSubPacket sub)
    (h : Message.read sub = .ok (.extendedReport x)) : x.Normalized sub x.encode := by
  obtain ⟨first, front, frames, hversion, hfront, hsplit, hencode, hrow⟩ :=
    exists_parts_of_read hsub h
  have hlen : (x.blocks.flatMap Block.encode).length = frames.flatten.length := by
    rw [Bytes.length_flatMap, List.map_congr_left fun b _ => Block.length_encode b,
      total_length_of_readFrom hrow]
  refine { length := ?_, version := ?_, differ := fun i hne => ?_, placed := fun place hplace => ?_,
           unknown := fun start b hplace i hi => ?_ }
  · rw [hencode, hsplit, List.length_cons, List.length_cons, List.length_append, List.length_append,
      hlen]
  · rw [hencode, hsplit, List.getElem?_cons_zero, List.getElem?_cons_zero, Option.map_some,
      Option.map_some, hversion]
    rfl
  · cases i with
    | zero => exact .inl rfl
    | succ i =>
      rw [hencode, hsplit, List.getElem?_cons_succ, List.getElem?_cons_succ] at hne
      by_cases hi : i < front.length
      · rw [List.getElem?_append_left hi, List.getElem?_append_left hi] at hne
        exact absurd rfl hne
      · have hle := Nat.le_of_not_lt hi
        rw [List.getElem?_append_right hle, List.getElem?_append_right hle, hfront] at hne
        have hpos : 8 + (i - 7) = i + 1 := by omega
        exact .inr (hpos ▸ Block.mem_reservedIn_of_ne hrow 8 hne)
  · obtain ⟨before, frame, after, -, -, rfl, -, hstart, -, hframe⟩ :=
      exists_split_of_mem_places hsub h hplace
    rw [← hstart, hframe.length, ← List.drop_drop, List.drop_left, List.drop_left]
    exact hframe.read_append after
  · obtain ⟨before, frame, after, before', after', hold, hnew, hstart, hstart', hframe⟩ :=
      exists_split_of_mem_places hsub h hplace
    have hsame : (Block.unknown b).encode = frame := Block.encode_of_readFrom hframe
    have hi' : i < frame.length := hframe.length ▸ hi
    simp only at hstart hstart' hnew
    rw [hold, hnew, hsame, ← List.getElem?_drop, ← List.getElem?_drop, List.drop_left' hstart,
      List.drop_left' hstart', List.getElem?_append_left hi', List.getElem?_append_left hi']

end ExtendedReport

/-! ## Compound packets -/

namespace Compound

/-- What was read can be written, it is read from what is written again, and an extended report that
came alone is written as it came, but for what says nothing. -/
theorem write_read (bytes : Bytes) :
    (∃ normal, write (read bytes) = .ok normal ∧ read normal = read bytes) ∧
      ∀ x, IsSubPacket bytes → Message.parse bytes = .ok (.extendedReport x) →
        ∃ normal, write [.extendedReport x] = .ok normal ∧ x.Normalized bytes normal := by
  refine ⟨roundTrip_iff.2 fun m hm => encodable_exact_of_mem_read hm, fun x hsub hparse => ?_⟩
  have hread := Message.read_of_parse hparse
  obtain ⟨hx, -⟩ := Message.encodable_exact_of_read hread
  refine ⟨x.encode, ?_, ExtendedReport.normalized_of_read hsub hread⟩
  have hwrite := write_eq (List.forall_mem_singleton.2 hx)
  rw [List.flatMap_singleton] at hwrite
  exact hwrite

/-- A reference time and a block of another type, with bits set that are ignored. -/
def spareBits : Bytes :=
  [0x9f, 207, 0, 6, 0, 0, 0, 1, 4, 9, 0, 2, 0, 0, 0, 0, 0, 0, 0, 7, 42, 5, 0, 1, 1, 2, 3, 4]

theorem write_read_spareBits :
    ∃ x normal, Message.parse spareBits = .ok (.extendedReport x) ∧
      write [.extendedReport x] = .ok normal ∧ x.Normalized spareBits normal ∧
      normal ≠ spareBits := by
  have hparse : Message.parse spareBits = .ok (.extendedReport
      ⟨⟨1⟩, [.referenceTime ⟨7⟩, .unknown ⟨42, 5, [1, 2, 3, 4]⟩]⟩) := by cbv
  obtain ⟨normal, hwrite, hnormal⟩ := (write_read spareBits).2 _ (by decide) hparse
  refine ⟨_, normal, hparse, hwrite, hnormal, ?_⟩
  rintro rfl
  revert hwrite
  decide

end Compound

end Rtcp

end MediaTransport
