import MediaTransport.Proofs.Codec.Header

/-!
# Extended reports on the wire

What the reader makes of the bytes of an extended report. A voice quality block has four bits for
the adjustment rate, and an uninterpreted block that has the type and the length of an interpreted
one is read as that one (`asRead`); every other block comes back as it was. The bytes of a block
must be whole words, few enough for its header to count, and then a block is read off the front of
whatever follows it (`read_encode`), which gives the report by induction on its blocks
(`readBody_encodeBody`).
-/

namespace MediaTransport

/-! ## Readers in a row

A block of readers is stepped through from the outside: each of these takes the first reader off,
and leaves the rest of the block alone. -/

namespace Bytes

variable {α : Type}

theorem bind_uint8? (b : UInt8) (rest : Bytes) (k : UInt8 × Bytes → Option α) :
    (uint8? (b :: rest) >>= k) = k (b, rest) := rfl

theorem bind_uint16? (n : UInt16) (rest : Bytes) (k : UInt16 × Bytes → Option α) :
    (uint16? (ofUInt16 n ++ rest) >>= k) = k (n, rest) := by
  rw [uint16?_ofUInt16]
  rfl

end Bytes

namespace Rtcp

theorem Ssrc.bind_read? {α : Type} (s : Ssrc) (rest : Bytes) (k : Ssrc × Bytes → Option α) :
    (Ssrc.read? (s.encode ++ rest) >>= k) = k (s, rest) := by
  rw [Ssrc.read?_encode]
  rfl

/-! ## Voice quality -/

namespace VoipMetrics

/-- What a reader makes of a written block: the adjustment rate comes in four bits. -/
def asRead (m : VoipMetrics) : VoipMetrics :=
  { m with adjustmentRate := m.adjustmentRate &&& 0x0f }

theorem rate_and_eq (rate : UInt8) : rate &&& 0x0f = .ofNat (rate.toNat % 16) := by
  rw [← UInt8.toNat_inj, UInt8.toNat_and, UInt8.toNat_ofNat']
  have := Nat.and_two_pow_sub_one_eq_mod rate.toNat 4
  have hlit : (0x0f : UInt8).toNat = 2 ^ 4 - 1 := rfl
  rw [hlit, this]
  omega

/-- The three fields of the configuration byte do not touch one another. -/
theorem bits_configuration (m : VoipMetrics) :
    LossConcealment.ofBits (m.configuration >>> 6) = m.concealment ∧
      Adaptivity.ofBits (m.configuration >>> 4) = m.adaptivity ∧
      m.configuration &&& 0x0f = m.adjustmentRate &&& 0x0f := by
  have key : ∀ (c : LossConcealment) (a : Adaptivity) (rate : Fin 16),
      let byte := c.toBits <<< 6 ||| a.toBits <<< 4 ||| UInt8.ofNat rate.val
      LossConcealment.ofBits (byte >>> 6) = c ∧ Adaptivity.ofBits (byte >>> 4) = a ∧
        byte &&& 0x0f = UInt8.ofNat rate.val := by
    intro c a rate
    cases c <;> cases a <;> revert rate <;> decide
  have h := key m.concealment m.adaptivity
    ⟨m.adjustmentRate.toNat % 16, Nat.mod_lt _ (by decide)⟩
  unfold configuration
  rw [rate_and_eq]
  exact h

theorem readBody?_encodeBody (m : VoipMetrics) : readBody? m.encodeBody = some m.asRead := by
  obtain ⟨hconcealment, hadaptivity, hrate⟩ := bits_configuration m
  have hlast := Bytes.uint16?_ofUInt16 m.absoluteMaximumDelay []
  rw [List.append_nil] at hlast
  unfold readBody? encodeBody asRead
  simp only [↓Ssrc.bind_read?, ↓Bytes.bind_uint8?, ↓Bytes.bind_uint16?, hlast, hconcealment,
    hadaptivity, hrate, Int8.toInt8_toUInt8]
  rfl

theorem asRead_eq_self_iff {m : VoipMetrics} : m.asRead = m ↔ m.adjustmentRate.toNat ≤ 15 := by
  have hrate := m.adjustmentRate.toNat_lt
  have hfield : m.asRead = m ↔ m.adjustmentRate &&& 0x0f = m.adjustmentRate := by
    constructor
    · intro h
      exact congrArg adjustmentRate h
    · intro h
      unfold asRead
      rw [h]
  rw [hfield, rate_and_eq, ← UInt8.toNat_inj, UInt8.toNat_ofNat']
  omega

theorem readBody?_isSome {bytes : Bytes} (h : bodyWords * 4 ≤ bytes.length) :
    (readBody? bytes).isSome := by
  simp only [bodyWords] at h
  iterate 32
    rcases bytes with _ | ⟨_, bytes⟩
    · simp at h
  rfl

end VoipMetrics

/-! ## The other interpreted blocks -/

namespace ReferenceTime

theorem readBody?_encodeBody (t : ReferenceTime) : readBody? t.encodeBody = some t := by
  have h := Bytes.uint64?_ofUInt64 t.ntpTime []
  rw [List.append_nil] at h
  simp [readBody?, encodeBody, h]

theorem readBody?_isSome {bytes : Bytes} (h : bodyWords * 4 ≤ bytes.length) :
    (readBody? bytes).isSome := by
  simp only [bodyWords] at h
  iterate 8
    rcases bytes with _ | ⟨_, bytes⟩
    · simp at h
  rfl

end ReferenceTime

theorem word32_ofUInt32 (n : UInt32) :
    Bytes.word32 (.ofNat (n.toNat / 16777216)) (.ofNat (n.toNat / 65536)) (.ofNat (n.toNat / 256))
      (.ofNat n.toNat) = n :=
  (Prod.mk.inj (Option.some.inj (Bytes.uint32?_ofUInt32 n []))).1

theorem ReceiverDelay.readAll_flatMap_encode (items : List ReceiverDelay) :
    readAll (items.flatMap encode) = items := by
  induction items with
  | nil => rfl
  | cons d items ih =>
    rw [List.flatMap_cons]
    simp only [encode, Ssrc.encode, Bytes.ofUInt32, List.cons_append, List.nil_append, readAll,
      word32_ofUInt32]
    exact congrArg (d :: ·) ih

/-! ## Blocks -/

namespace Block

/-- What a reader makes of a written block. -/
def asRead : Block → Block
  | referenceTime t => referenceTime t
  | delays items => delays items
  | voipMetrics m => voipMetrics m.asRead
  | unknown b => ofParts b.blockType b.typeSpecific (b.body.length / 4) b.body

/-- A block that is a whole number of words. Only an uninterpreted one can be anything else. -/
def IsWhole : Block → Prop
  | unknown b => b.body.length % 4 = 0
  | _ => True

/-- Whether a block with this type and so many words after its header is one of the interpreted
blocks. -/
def Interpreted (blockType : UInt8) (words : Nat) : Prop :=
  (blockType = 4 ∧ words = 2) ∨ (blockType = 5 ∧ words % 3 = 0) ∨ (blockType = 7 ∧ words = 8)

/-- A block that has its own reading: the adjustment rate fits its four bits, and an uninterpreted
block looks like no interpreted one. -/
def Exact : Block → Prop
  | voipMetrics m => m.adjustmentRate.toNat ≤ 15
  | unknown b => ¬Interpreted b.blockType (b.body.length / 4)
  | _ => True

instance : (b : Block) → Decidable b.IsWhole
  | unknown b => inferInstanceAs (Decidable (b.body.length % 4 = 0))
  | referenceTime _ | delays _ | voipMetrics _ => .isTrue trivial

instance (blockType : UInt8) (words : Nat) : Decidable (Interpreted blockType words) :=
  inferInstanceAs (Decidable (_ ∨ _ ∨ _))

instance : (b : Block) → Decidable b.Exact
  | voipMetrics m => inferInstanceAs (Decidable (m.adjustmentRate.toNat ≤ 15))
  | unknown b => inferInstanceAs (Decidable (¬Interpreted b.blockType (b.body.length / 4)))
  | referenceTime _ | delays _ => .isTrue trivial

/-- What becomes of a block whose body has the words that its header counts. -/
theorem ofParts_cases (blockType typeSpecific : UInt8) {words : Nat} {body : Bytes}
    (hlen : words * 4 ≤ body.length) :
    (blockType = 4 ∧ words = 2 ∧ ∃ t, ReferenceTime.readBody? body = some t ∧
        ofParts blockType typeSpecific words body = referenceTime t) ∨
      (blockType = 5 ∧ words % 3 = 0 ∧
        ofParts blockType typeSpecific words body = delays (ReceiverDelay.readAll body)) ∨
      (blockType = 7 ∧ words = 8 ∧ ∃ m, VoipMetrics.readBody? body = some m ∧
        ofParts blockType typeSpecific words body = voipMetrics m) ∨
      (¬Interpreted blockType words ∧
        ofParts blockType typeSpecific words body = unknown ⟨blockType, typeSpecific, body⟩) := by
  unfold ofParts
  split
  next htime =>
    have hsome : (ReferenceTime.readBody? body).isSome :=
      ReferenceTime.readBody?_isSome (by rw [← htime.2]; exact hlen)
    obtain ⟨t, ht⟩ := Option.isSome_iff_exists.1 hsome
    exact .inl ⟨htime.1, htime.2, t, ht, by rw [ht]; rfl⟩
  next htime =>
    split
    next hdelays => exact .inr (.inl ⟨hdelays.1, hdelays.2, rfl⟩)
    next hdelays =>
      split
      next hvoip =>
        have hsome : (VoipMetrics.readBody? body).isSome :=
          VoipMetrics.readBody?_isSome (by rw [← hvoip.2]; exact hlen)
        obtain ⟨m, hm⟩ := Option.isSome_iff_exists.1 hsome
        exact .inr (.inr (.inl ⟨hvoip.1, hvoip.2, m, hm, by rw [hm]; rfl⟩))
      next hvoip =>
        exact .inr (.inr (.inr ⟨fun h => h.elim htime fun h => h.elim hdelays hvoip, rfl⟩))

theorem asRead_unknown_eq_self_iff {b : UnknownBlock} :
    (unknown b).asRead = unknown b ↔ ¬Interpreted b.blockType (b.body.length / 4) := by
  simp only [asRead]
  obtain ⟨htype, hwords, t, -, hblock⟩ | ⟨htype, hwords, hblock⟩ | ⟨htype, hwords, m, -, hblock⟩ |
    ⟨hunknown, hblock⟩ :=
      ofParts_cases b.blockType b.typeSpecific (Nat.div_mul_le_self b.body.length 4)
  · rw [hblock]
    exact iff_of_false nofun fun h => h (.inl ⟨htype, hwords⟩)
  · rw [hblock]
    exact iff_of_false nofun fun h => h (.inr (.inl ⟨htype, hwords⟩))
  · rw [hblock]
    exact iff_of_false nofun fun h => h (.inr (.inr ⟨htype, hwords⟩))
  · rw [hblock]
    exact iff_of_true rfl hunknown

theorem asRead_eq_self_iff {b : Block} : b.asRead = b ↔ b.Exact := by
  cases b with
  | referenceTime t => exact iff_of_true rfl trivial
  | delays items => exact iff_of_true rfl trivial
  | voipMetrics m =>
    simp only [asRead, voipMetrics.injEq, Exact]
    exact VoipMetrics.asRead_eq_self_iff
  | unknown b => exact asRead_unknown_eq_self_iff

/-- A block header that counts the body is followed through to the end of the body. -/
theorem read_encodeHeader_append (blockType typeSpecific : UInt8) {words : Nat} {body : Bytes}
    (hwords : words < 65536) (hlen : body.length = words * 4) (rest : Bytes) :
    read (encodeHeader blockType typeSpecific words ++ body ++ rest) =
      .ok (ofParts blockType typeSpecific words body, rest) := by
  have hword : (Bytes.word16 (.ofNat ((UInt16.ofNat words).toNat / 256))
      (.ofNat (UInt16.ofNat words).toNat)).toNat = words := by
    rw [Header.word16_ofUInt16, UInt16.toNat_ofNat']
    exact Nat.mod_eq_of_lt hwords
  simp only [read, encodeHeader, Bytes.ofUInt16, List.cons_append, List.nil_append, hword]
  rw [← hlen, Bytes.take?_append]

/-- A written block is read off the front of whatever follows it. -/
theorem read_encode {b : Block} (hwhole : b.IsWhole) (hlen : b.length / 4 ≤ 65536) (rest : Bytes) :
    read (b.encode ++ rest) = .ok (b.asRead, rest) := by
  cases b with
  | referenceTime t =>
    rw [encode, read_encodeHeader_append _ _ (by decide) t.length_encodeBody]
    simp [ofParts, asRead, ReferenceTime.readBody?_encodeBody]
  | delays items =>
    simp only [length, ReceiverDelay.size] at hlen
    have hbody : (items.flatMap ReceiverDelay.encode).length = 3 * items.length * 4 := by
      rw [Bytes.length_flatMap_of_length_eq ReceiverDelay.length_encode, ReceiverDelay.size]
      omega
    rw [encode, read_encodeHeader_append _ _ (by omega) hbody]
    simp [ofParts, asRead, delaysBlockType, ReferenceTime.blockType,
      ReceiverDelay.readAll_flatMap_encode]
  | voipMetrics m =>
    rw [encode, read_encodeHeader_append _ _ (by decide) m.length_encodeBody]
    simp [ofParts, asRead, delaysBlockType, ReferenceTime.blockType, VoipMetrics.blockType,
      VoipMetrics.readBody?_encodeBody]
  | unknown b =>
    simp only [IsWhole, length] at hwhole hlen
    rw [encode, read_encodeHeader_append _ _ (by omega) (by omega)]
    rfl

theorem length_mod_four {b : Block} (hwhole : b.IsWhole) : b.length % 4 = 0 := by
  cases b with
  | referenceTime t => simp only [length, ReferenceTime.bodyWords]
  | delays items => simp only [length, ReceiverDelay.size]; omega
  | voipMetrics m => simp only [length, VoipMetrics.bodyWords]
  | unknown b => simp only [IsWhole, length] at hwhole ⊢; omega

theorem isWhole_of_length_mod_four {b : Block} (h : b.length % 4 = 0) : b.IsWhole := by
  cases b with
  | unknown b =>
    simp only [IsWhole, length] at h ⊢
    omega
  | referenceTime t | delays items | voipMetrics m => trivial

end Block

/-! ## Extended reports -/

namespace ExtendedReport

/-- A report that can be written: whole words, and few enough for its header to count. -/
structure Encodable (x : ExtendedReport) : Prop where
  words_le : x.words ≤ 65536
  whole : ∀ b ∈ x.blocks, b.IsWhole

instance (x : ExtendedReport) : Decidable x.Encodable :=
  decidable_of_iff (x.words ≤ 65536 ∧ ∀ b ∈ x.blocks, b.IsWhole)
    ⟨fun h => ⟨h.1, h.2⟩, fun h => ⟨h.words_le, h.whole⟩⟩

/-- What a reader makes of a written report. -/
def asRead (x : ExtendedReport) : ExtendedReport :=
  { x with blocks := x.blocks.map Block.asRead }

/-- The bytes after the header. -/
def encodeBody (x : ExtendedReport) : Bytes := x.ssrc.encode ++ x.blocks.flatMap Block.encode

theorem encode_eq (x : ExtendedReport) : x.encode = x.header.encode ++ x.encodeBody := rfl

theorem length_encodeBody (x : ExtendedReport) :
    headerLength + x.encodeBody.length = x.written := by
  unfold encodeBody written
  rw [List.length_append, Ssrc.length_encode, Bytes.length_flatMap,
    List.map_congr_left fun b _ => Block.length_encode b]
  simp only [headerLength]
  omega

@[simp] theorem length_encode (x : ExtendedReport) : x.encode.length = x.written := by
  rw [encode_eq, List.length_append, Header.length_encode, length_encodeBody]

/-- Blocks of whole words add up to the declared length. -/
theorem written_eq_of_whole {x : ExtendedReport} (hwhole : ∀ b ∈ x.blocks, b.IsWhole) :
    x.written = x.words * 4 := by
  obtain ⟨ssrc, blocks⟩ := x
  simp only [written, words]
  induction blocks with
  | nil => rfl
  | cons b blocks ih =>
    have hb := Block.length_mod_four (hwhole b List.mem_cons_self)
    have hi := ih fun c hc => hwhole c (List.mem_cons_of_mem _ hc)
    simp only [List.map_cons, Bytes.total_cons]
    omega

theorem Encodable.length_div_le {x : ExtendedReport} (hx : x.Encodable) {b : Block}
    (hb : b ∈ x.blocks) : b.length / 4 ≤ 65536 := by
  obtain ⟨before, after, hsplit⟩ := List.append_of_mem hb
  have hle := hx.words_le
  rw [words, hsplit, List.map_append, Bytes.total_append, List.map_cons, Bytes.total_cons] at hle
  omega

theorem readBlocks_nil : readBlocks [] = .ok [] := by
  rw [readBlocks]
  rfl

/-- The blocks are read one after the other. -/
theorem readBlocks_of_read {bytes rest : Bytes} {b : Block} (h : Block.read bytes = .ok (b, rest)) :
    readBlocks bytes = (readBlocks rest).map (b :: ·) := by
  rw [readBlocks]
  split
  next hempty =>
    -- No block is empty: `read` has taken one off the front.
    rw [List.isEmpty_iff.1 hempty] at h
    cases h
  next =>
    split
    next block rest' hs =>
      rw [h] at hs
      cases hs
      cases readBlocks rest <;> rfl
    next e hs =>
      rw [h] at hs
      cases hs

theorem readBlocks_flatMap_encode {blocks : List Block}
    (h : ∀ b ∈ blocks, b.IsWhole ∧ b.length / 4 ≤ 65536) :
    readBlocks (blocks.flatMap Block.encode) = .ok (blocks.map Block.asRead) := by
  induction blocks with
  | nil => exact readBlocks_nil
  | cons b blocks ih =>
    obtain ⟨⟨hwhole, hlen⟩, hblocks⟩ := List.forall_mem_cons.1 h
    rw [List.flatMap_cons, readBlocks_of_read (Block.read_encode hwhole hlen _), ih hblocks]
    rfl

theorem readBody_encodeBody {x : ExtendedReport} (hx : x.Encodable) :
    readBody x.encodeBody = .ok x.asRead := by
  unfold readBody encodeBody
  rw [Ssrc.read?_encode]
  simp only [readBlocks_flatMap_encode fun b hb => ⟨hx.whole b hb, hx.length_div_le hb⟩]
  rfl

theorem asRead_eq_self_iff {x : ExtendedReport} : x.asRead = x ↔ ∀ b ∈ x.blocks, b.Exact := by
  obtain ⟨ssrc, blocks⟩ := x
  simp only [asRead, mk.injEq, true_and]
  constructor
  · intro h b hb
    exact Block.asRead_eq_self_iff.1
      (List.map_inj_left.1 (h.trans (List.map_id blocks).symm) b hb)
  · intro h
    exact (List.map_congr_left fun b hb => Block.asRead_eq_self_iff.2 (h b hb)).trans
      (List.map_id blocks)

end ExtendedReport

end Rtcp

end MediaTransport
