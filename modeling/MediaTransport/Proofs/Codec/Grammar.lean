import Mathlib.Data.List.Forall2
import MediaTransport.Proofs.Access.Extended

/-!
# The grammar of extended reports

Behind its originator an extended report is a row of frames, each as long as the number in its
header says (`Block.IsFrame`). Nothing else is read as an extended report, and every such row is
(`readBody_grammar`). The loop over the blocks does not step by the number in the header but by the
length of the block that it has read, so it stays in the row because the two agree: a block is of
the kind that its frame's type and number of words stand for, and as long as its frame
(`Block.ReadFrom`).
-/

namespace MediaTransport

namespace Bytes

theorem toNat_word16 (a b : UInt8) : (word16 a b).toNat = a.toNat * 256 + b.toNat := by
  have ha := a.toNat_lt
  have hb := b.toNat_lt
  simp only [word16, UInt16.toNat_ofNat']
  omega

end Bytes

namespace Rtcp

theorem Ssrc.read?_eq_some_iff {bytes rest : Bytes} {s : Ssrc} :
    Ssrc.read? bytes = some (s, rest) ↔ bytes = s.encode ++ rest := by
  constructor
  · intro h
    match bytes with
    | [] | [_] | [_, _] | [_, _, _] => cases h
    | a :: b :: c :: d :: tail =>
      cases h
      rw [Ssrc.encode, Bytes.ofUInt32_word32]
      rfl
  · rintro rfl
    exact s.read?_encode rest

/-! ## Blocks -/

namespace Block

/-- The kinds of block. -/
inductive Kind where
  | referenceTime
  | delays
  | voipMetrics
  | unknown
  deriving DecidableEq, Repr

/-- The kind of a block with this type and so many words after its header. -/
def Kind.ofHeader (blockType : UInt8) (words : Nat) : Kind :=
  if blockType = 4 ∧ words = 2 then referenceTime
  else if blockType = 5 ∧ words % 3 = 0 then delays
  else if blockType = 7 ∧ words = 8 then voipMetrics
  else unknown

def kind : Block → Kind
  | referenceTime _ => .referenceTime
  | delays _ => .delays
  | voipMetrics _ => .voipMetrics
  | unknown _ => .unknown

/-- The type byte of a frame. -/
def declaredType (frame : Bytes) : UInt8 := frame[0]?.getD 0

/-- The number of words after the header of a frame, as the header has it in its bytes 2 and 3. -/
def declaredWords (frame : Bytes) : Nat :=
  (frame[2]?.getD 0).toNat * 256 + (frame[3]?.getD 0).toNat

/-- Bytes that are as long as the block header in front of them says. -/
def IsFrame (frame : Bytes) : Prop := frame.length = 4 + 4 * declaredWords frame

instance (frame : Bytes) : Decidable (IsFrame frame) :=
  inferInstanceAs (Decidable (_ = _))

/-- A block is what a frame reads as, of the kind and of the length that the frame is. -/
structure ReadFrom (frame : Bytes) (b : Block) : Prop where
  read : read frame = .ok (b, [])
  kind : b.kind = Kind.ofHeader (declaredType frame) (declaredWords frame)
  length : b.length = frame.length

theorem declaredWords_cons (blockType typeSpecific third fourth : UInt8) (body : Bytes) :
    declaredWords (blockType :: typeSpecific :: third :: fourth :: body) =
      (Bytes.word16 third fourth).toNat :=
  (Bytes.toNat_word16 third fourth).symm

/-- A frame is a header and as many words as that counts. -/
theorem isFrame_iff {frame : Bytes} :
    IsFrame frame ↔ ∃ blockType typeSpecific third fourth body,
      frame = blockType :: typeSpecific :: third :: fourth :: body ∧
        body.length = (Bytes.word16 third fourth).toNat * 4 := by
  constructor
  · intro h
    match frame with
    | [] | [_] | [_, _] | [_, _, _] =>
      simp only [IsFrame, List.length_cons, List.length_nil] at h
      omega
    | blockType :: typeSpecific :: third :: fourth :: body =>
      rw [IsFrame, declaredWords_cons] at h
      simp only [List.length_cons] at h
      exact ⟨blockType, typeSpecific, third, fourth, body, rfl, by omega⟩
  · rintro ⟨blockType, typeSpecific, third, fourth, body, rfl, hlen⟩
    rw [IsFrame, declaredWords_cons]
    simp only [List.length_cons]
    omega

theorem kind_ofParts {blockType typeSpecific : UInt8} {words : Nat} {body : Bytes}
    (hlen : body.length = words * 4) :
    (ofParts blockType typeSpecific words body).kind = Kind.ofHeader blockType words := by
  obtain ⟨rfl, rfl, t, -, hblock⟩ | ⟨rfl, hwords, hblock⟩ | ⟨rfl, rfl, m, -, hblock⟩ |
    ⟨hunknown, hblock⟩ := ofParts_cases blockType typeSpecific (Nat.le_of_eq hlen.symm)
  · rw [hblock]
    rfl
  · rw [hblock, Kind.ofHeader, if_neg fun h => absurd h.1 (by decide), if_pos ⟨rfl, hwords⟩]
    rfl
  · rw [hblock]
    rfl
  · simp only [Interpreted, not_or] at hunknown
    obtain ⟨htime, hdelays, hvoip⟩ := hunknown
    rw [hblock, Kind.ofHeader, if_neg htime, if_neg hdelays, if_neg hvoip]
    rfl

theorem read_parts {blockType typeSpecific third fourth : UInt8} {body : Bytes}
    (hlen : body.length = (Bytes.word16 third fourth).toNat * 4) (rest : Bytes) :
    read (blockType :: typeSpecific :: third :: fourth :: (body ++ rest)) =
      .ok (ofParts blockType typeSpecific (Bytes.word16 third fourth).toNat body, rest) := by
  have htake : Bytes.take? ((Bytes.word16 third fourth).toNat * 4) (body ++ rest) =
      some (body, rest) := Bytes.take?_eq_some_iff.2 ⟨rfl, hlen⟩
  simp only [read, htake]

theorem readFrom_parts {blockType typeSpecific third fourth : UInt8} {body : Bytes}
    (hlen : body.length = (Bytes.word16 third fourth).toNat * 4) :
    ReadFrom (blockType :: typeSpecific :: third :: fourth :: body)
      (ofParts blockType typeSpecific (Bytes.word16 third fourth).toNat body) where
  read := by
    have hread := @read_parts blockType typeSpecific _ _ _ hlen []
    rwa [List.append_nil] at hread
  kind := by
    rw [kind_ofParts hlen, declaredWords_cons]
    rfl
  length := by
    rw [length_ofParts hlen]
    simp only [List.length_cons]
    omega

/-- A frame is read off the front of whatever follows it. -/
theorem IsFrame.read_append {frame : Bytes} (h : IsFrame frame) :
    ∃ b, ReadFrom frame b ∧ ∀ rest, Block.read (frame ++ rest) = .ok (b, rest) := by
  obtain ⟨blockType, typeSpecific, third, fourth, body, rfl, hlen⟩ := isFrame_iff.1 h
  exact ⟨_, readFrom_parts hlen, read_parts hlen⟩

/-- Nothing but a frame is read as a block. -/
theorem exists_frame_of_read {bytes rest : Bytes} {b : Block} (h : read bytes = .ok (b, rest)) :
    ∃ frame, bytes = frame ++ rest ∧ IsFrame frame ∧ ReadFrom frame b := by
  have hframe : ∃ frame, bytes = frame ++ rest ∧ IsFrame frame := by
    unfold read at h
    split at h
    next blockType typeSpecific third fourth tail =>
      simp only at h
      split at h
      next body rest' htake =>
        cases h
        obtain ⟨rfl, hlen⟩ := Bytes.take?_eq_some_iff.1 htake
        exact ⟨blockType :: typeSpecific :: third :: fourth :: body, rfl,
          isFrame_iff.2 ⟨blockType, typeSpecific, third, fourth, body, rfl, hlen⟩⟩
      next => cases h
    next => cases h
  obtain ⟨frame, rfl, hframe⟩ := hframe
  obtain ⟨b', hb', hread⟩ := hframe.read_append
  rw [hread rest] at h
  cases h
  exact ⟨frame, rfl, hframe, hb'⟩

/-- The parts of the frame that a block is read from. -/
theorem ReadFrom.exists_parts {frame : Bytes} {b : Block} (h : ReadFrom frame b) :
    ∃ blockType typeSpecific third fourth body,
      frame = blockType :: typeSpecific :: third :: fourth :: body ∧
        body.length = (Bytes.word16 third fourth).toNat * 4 ∧
        b = ofParts blockType typeSpecific (Bytes.word16 third fourth).toNat body := by
  obtain ⟨frame', hframe, hisFrame, -⟩ := exists_frame_of_read h.read
  rw [List.append_nil] at hframe
  subst hframe
  obtain ⟨blockType, typeSpecific, third, fourth, body, rfl, hlen⟩ := isFrame_iff.1 hisFrame
  have hread := (readFrom_parts hlen).read.symm.trans h.read
  cases hread
  exact ⟨blockType, typeSpecific, third, fourth, body, rfl, hlen, rfl⟩

theorem ReadFrom.read_append {frame : Bytes} {b : Block} (h : ReadFrom frame b) (rest : Bytes) :
    Block.read (frame ++ rest) = .ok (b, rest) := by
  obtain ⟨blockType, typeSpecific, third, fourth, body, rfl, hlen, rfl⟩ := h.exists_parts
  exact read_parts hlen rest

end Block

/-! ## Rows of blocks -/

namespace ExtendedReport

/-- A row of frames is read as one block for each of them. -/
theorem readBlocks_flatten {frames : List Bytes} (h : ∀ frame ∈ frames, Block.IsFrame frame) :
    ∃ blocks, readBlocks frames.flatten = .ok blocks ∧
      List.Forall₂ Block.ReadFrom frames blocks := by
  induction frames with
  | nil => exact ⟨[], readBlocks_nil, .nil⟩
  | cons frame frames ih =>
    obtain ⟨hframe, hframes⟩ := List.forall_mem_cons.1 h
    obtain ⟨b, hb, hread⟩ := hframe.read_append
    obtain ⟨blocks, hblocks, hrow⟩ := ih hframes
    refine ⟨b :: blocks, ?_, .cons hb hrow⟩
    rw [List.flatten_cons, readBlocks_of_read (hread frames.flatten), hblocks]
    rfl

/-- Nothing but a row of frames is read as blocks. -/
theorem exists_frames_of_readBlocks {bytes : Bytes} {blocks : List Block}
    (h : readBlocks bytes = .ok blocks) :
    ∃ frames : List Bytes, bytes = frames.flatten ∧ ∀ frame ∈ frames, Block.IsFrame frame := by
  fun_induction readBlocks bytes generalizing blocks with
  | case1 bytes hempty =>
    rw [List.isEmpty_iff.1 hempty]
    exact ⟨[], rfl, List.forall_mem_nil _⟩
  | case2 bytes hempty b rest hread ih =>
    obtain ⟨frame, rfl, hframe, -⟩ := Block.exists_frame_of_read hread
    obtain ⟨others, hrest, -⟩ := Except.bind_eq_ok_iff.1 h
    obtain ⟨frames, rfl, hframes⟩ := ih hrest
    exact ⟨frame :: frames, List.flatten_cons.symm, List.forall_mem_cons.2 ⟨hframe, hframes⟩⟩
  | case3 bytes hempty e hread => cases h

theorem readBody_eq_ok_iff {bytes : Bytes} {x : ExtendedReport} :
    readBody bytes = .ok x ↔
      ∃ rest, bytes = x.ssrc.encode ++ rest ∧ readBlocks rest = .ok x.blocks := by
  constructor
  · intro h
    unfold readBody at h
    split at h
    next ssrc rest hssrc =>
      obtain ⟨blocks, hblocks, ⟨⟩⟩ := Except.bind_eq_ok_iff.1 h
      exact ⟨rest, Ssrc.read?_eq_some_iff.1 hssrc, hblocks⟩
    next => cases h
  · rintro ⟨rest, rfl, hblocks⟩
    unfold readBody
    rw [Ssrc.read?_encode]
    simp only [hblocks]
    rfl

/-- A report is read from its originator and a row of frames, one for each block. -/
theorem exists_frames_of_readBody {bytes : Bytes} {x : ExtendedReport}
    (h : readBody bytes = .ok x) :
    ∃ frames : List Bytes, bytes = x.ssrc.encode ++ frames.flatten ∧
      (∀ frame ∈ frames, Block.IsFrame frame) ∧ List.Forall₂ Block.ReadFrom frames x.blocks := by
  obtain ⟨rest, rfl, hblocks⟩ := readBody_eq_ok_iff.1 h
  obtain ⟨frames, rfl, hframes⟩ := exists_frames_of_readBlocks hblocks
  obtain ⟨blocks, hread, hrow⟩ := readBlocks_flatten hframes
  rw [hblocks] at hread
  cases hread
  exact ⟨frames, rfl, hframes, hrow⟩

theorem exists_readFrom_of_mem {frames : List Bytes} {blocks : List Block}
    (h : List.Forall₂ Block.ReadFrom frames blocks) {b : Block} (hb : b ∈ blocks) :
    ∃ frame, Block.ReadFrom frame b := by
  obtain ⟨i, hi, rfl⟩ := List.getElem_of_mem hb
  exact ⟨_, h.get (h.length_eq ▸ hi) hi⟩

theorem total_length_of_readFrom {frames : List Bytes} {blocks : List Block}
    (h : List.Forall₂ Block.ReadFrom frames blocks) :
    Bytes.total (blocks.map Block.length) = frames.flatten.length := by
  induction h with
  | nil => rfl
  | cons hb _ ih =>
    rw [List.map_cons, Bytes.total_cons, ih, List.flatten_cons, List.length_append, hb.length]

theorem map_kind_of_readFrom {frames : List Bytes} {blocks : List Block}
    (h : List.Forall₂ Block.ReadFrom frames blocks) :
    blocks.map Block.kind = frames.map fun frame =>
      Block.Kind.ofHeader (Block.declaredType frame) (Block.declaredWords frame) := by
  induction h with
  | nil => rfl
  | cons hb _ ih => rw [List.map_cons, List.map_cons, hb.kind, ih]

/-- Bytes are read as an extended report, by a loop that stays in their range, exactly when an
originator and a row of frames make them up. There is one block for each frame of the row, in order,
and they use up the bytes. -/
theorem readBody_grammar (bytes : Bytes) :
    fetchBody bytes = fetched (readBody bytes) ∧
      ((∃ x, readBody bytes = .ok x) ↔
        4 ≤ bytes.length ∧ ∃ frames : List Bytes, bytes.drop 4 = frames.flatten ∧
          ∀ frame ∈ frames, Block.IsFrame frame) ∧
      ∀ x, readBody bytes = .ok x →
        x.ssrc.encode = bytes.take 4 ∧ 4 + Bytes.total (x.blocks.map Block.length) = bytes.length ∧
        ∀ frames : List Bytes, bytes.drop 4 = frames.flatten →
          (∀ frame ∈ frames, Block.IsFrame frame) →
          List.Forall₂ Block.ReadFrom frames x.blocks := by
  refine ⟨fetchBody_eq bytes, ⟨?_, ?_⟩, ?_⟩
  · rintro ⟨x, hx⟩
    obtain ⟨frames, rfl, hframes, -⟩ := exists_frames_of_readBody hx
    refine ⟨?_, frames, rfl, hframes⟩
    rw [List.length_append, Ssrc.length_encode]
    omega
  · rintro ⟨hlen, frames, hrest, hframes⟩
    obtain ⟨blocks, hblocks, -⟩ := readBlocks_flatten hframes
    have hsome := mt Ssrc.spans_read?.eq_none_iff.1 (Nat.not_lt.2 hlen)
    obtain ⟨⟨ssrc, rest⟩, hssrc⟩ := Option.ne_none_iff_exists'.1 hsome
    obtain rfl := Ssrc.read?_eq_some_iff.1 hssrc
    obtain rfl : rest = frames.flatten := hrest
    exact ⟨⟨ssrc, blocks⟩, readBody_eq_ok_iff.2 ⟨_, rfl, hblocks⟩⟩
  · intro x hx
    obtain ⟨row, rfl, -, hrow⟩ := exists_frames_of_readBody hx
    refine ⟨rfl, ?_, fun frames hrest hframes => ?_⟩
    · rw [total_length_of_readFrom hrow, List.length_append, Ssrc.length_encode]
    · obtain ⟨blocks, hread, hblocks⟩ := readBlocks_flatten hframes
      obtain ⟨rest, hsame, hx'⟩ := readBody_eq_ok_iff.1 hx
      obtain rfl : rest = frames.flatten := (List.append_cancel_left hsame).symm.trans hrest
      rw [hread] at hx'
      cases hx'
      exact hblocks

/-- A reference time, a list of no delays, a block that has the type of voice quality but not its
length, and one of another type. -/
def mixedFrames : List Bytes :=
  [[4, 9, 0, 2, 0, 0, 0, 0, 0, 0, 0, 7], [5, 0, 0, 0], [7, 1, 0, 1, 1, 2, 3, 4], [42, 5, 0, 0]]

theorem readBody_grammar_mixedFrames :
    ∃ x, readBody ([0, 0, 0, 1] ++ mixedFrames.flatten) = .ok x ∧ x.ssrc = ⟨1⟩ ∧
      List.Forall₂ Block.ReadFrom mixedFrames x.blocks ∧
      x.blocks.map Block.kind = [.referenceTime, .delays, .unknown, .unknown] := by
  obtain ⟨-, hiff, hread⟩ := readBody_grammar ([0, 0, 0, 1] ++ mixedFrames.flatten)
  obtain ⟨x, hx⟩ := hiff.2 ⟨by decide, mixedFrames, rfl, by decide⟩
  obtain ⟨hssrc, -, hforall⟩ := hread x hx
  have hblocks := hforall mixedFrames rfl (by decide)
  have hone : x.ssrc.encode = (⟨1⟩ : Ssrc).encode := hssrc
  refine ⟨x, hx, ?_, hblocks, ?_⟩
  · have hback := x.ssrc.read?_encode []
    rw [hone, Ssrc.read?_encode] at hback
    exact (Prod.mk.inj (Option.some.inj hback)).1.symm
  · rw [map_kind_of_readFrom hblocks]
    decide

end ExtendedReport

end Rtcp

end MediaTransport
