import MediaTransport.Proofs.Access.Bytes
import MediaTransport.Proofs.Codec.Writing

/-!
# Writing by position

An extended report is written over a buffer field by field, each at a position of its own. The
fields of a block leave no gap, so that all of them together put down the encoding of the block
(`puts_placed`), and blocks follow one another at the lengths that their writers return. Where the
buffer is too short for that, only a list of receiver delays makes do with it, and no block follows
one that has (`Block.store_of_short`); all else leaves the buffer. So writing by position is writing
over the front of the buffer, whatever its length (`ExtendedReport.store_eq_overlay`).
-/

namespace MediaTransport.Bytes

/-- Writes each piece of data over the bytes at its position. -/
def puts : List (Nat × Bytes) → Bytes → Except Fault Bytes
  | [], bytes => return bytes
  | (start, data) :: writes, bytes => do puts writes (← overlayAt start data bytes)

/-- Pieces of data one after the other, from position `start` on. -/
def placed (start : Nat) : List Bytes → List (Nat × Bytes)
  | [] => []
  | data :: pieces => (start, data) :: placed (start + data.length) pieces

/-- Pieces without a gap between them are written as one. -/
theorem puts_placed {pieces : List Bytes} {front old : Bytes} {start : Nat}
    (hfront : front.length = start) (hold : old.length = pieces.flatten.length) (rest : Bytes) :
    puts (placed start pieces) (front ++ (old ++ rest)) =
      .ok (front ++ (pieces.flatten ++ rest)) := by
  induction pieces generalizing front old start with
  | nil =>
    rw [List.length_eq_zero_iff.1 hold]
    rfl
  | cons data pieces ih =>
    rw [List.flatten_cons, List.length_append] at hold
    obtain ⟨here, later, rfl, hhere, hlater⟩ := exists_append hold
    have hnext := @ih (front ++ data) later _ (by rw [List.length_append, hfront]) hlater
    unfold placed puts
    rw [List.append_assoc here, overlayAt_append hfront hhere]
    show puts _ (front ++ (data ++ (later ++ rest))) = _
    rw [List.flatten_cons, List.append_assoc data, ← List.append_assoc front, hnext,
      List.append_assoc]

/-- Pieces that run over the end leave the bytes. -/
theorem puts_placed_of_short {pieces : List Bytes} {bytes : Bytes} {start : Nat}
    (hstart : start ≤ bytes.length) (hshort : bytes.length < start + pieces.flatten.length) :
    puts (placed start pieces) bytes = .error .outOfRange := by
  induction pieces generalizing bytes start with
  | nil =>
    rw [List.flatten_nil, List.length_nil] at hshort
    omega
  | cons data pieces ih =>
    rw [List.flatten_cons, List.length_append] at hshort
    unfold placed puts overlayAt
    by_cases hfits : start + data.length ≤ bytes.length
    · have hsame : (bytes.take start ++ data ++ bytes.drop (start + data.length)).length =
          bytes.length := by
        simp only [List.length_append, List.length_take, List.length_drop]
        omega
      rw [if_pos hfits]
      exact ih (by omega) (by omega)
    · rw [if_neg hfits]
      rfl

end MediaTransport.Bytes

namespace MediaTransport.Rtcp

open Bytes

/-! ## Blocks -/

namespace Block

/-- The fields of a block header at their positions. -/
def headerWrites (blockType typeSpecific : UInt8) (words : Nat) : List (Nat × Bytes) :=
  [(0, [blockType]), (1, [typeSpecific]), (2, ofUInt16 (.ofNat words))]

/-- The fields of items at their positions, where the first item starts at `pos`. -/
def itemWrites (pos : Nat) : List ReceiverDelay → List (Nat × Bytes)
  | [] => []
  | d :: items =>
    (pos, d.ssrc.encode) :: (pos + 4, ofUInt32 d.lastRrTime) :: (pos + 8, ofUInt32 d.lastRrDelay) ::
      itemWrites (pos + 12) items

/-- The fields of a voice quality block at their positions. -/
def voipWrites (m : VoipMetrics) : List (Nat × Bytes) :=
  [(4, m.ssrc.encode), (8, [m.lossRate]), (9, [m.discardRate]), (10, [m.burstDensity]),
    (11, [m.gapDensity]), (12, ofUInt16 m.burstDuration), (14, ofUInt16 m.gapDuration),
    (16, ofUInt16 m.roundTripDelay), (18, ofUInt16 m.endSystemDelay),
    (20, [m.signalLevel.toUInt8]), (21, [m.noiseLevel.toUInt8]), (22, [m.echoReturnLoss]),
    (23, [m.gapThreshold]), (24, [m.rFactor]), (25, [m.externalRFactor]), (26, [m.mosListening]),
    (27, [m.mosConversational]), (28, [m.configuration]), (29, [0]), (30, ofUInt16 m.nominalDelay),
    (32, ofUInt16 m.maximumDelay), (34, ofUInt16 m.absoluteMaximumDelay)]

/-- Writes a list of receiver delays over the front of `bytes`, as many as there is room for behind
the header, and says how long all of them are. -/
def storeDelays (items : List ReceiverDelay) (bytes : Bytes) : Except Fault (Bytes × Nat) := do
  let bytes ← puts (headerWrites delaysBlockType 0 (3 * items.length)) bytes
  let room := (chunks ReceiverDelay.size (← sliceFrom bytes 4)).length
  return (← puts (itemWrites 4 (items.take room)) bytes, 4 + items.length * 12)

/-- Writes a block over the front of `bytes`, and says how long it is. -/
def store (block : Block) (bytes : Bytes) : Except Fault (Bytes × Nat) :=
  match block with
  | referenceTime t => do
    let fields := headerWrites ReferenceTime.blockType 0 ReferenceTime.bodyWords ++
      [(4, ofUInt64 t.ntpTime)]
    return (← puts fields bytes, 12)
  | delays items => storeDelays items bytes
  | voipMetrics m => do
    let fields := headerWrites VoipMetrics.blockType 0 VoipMetrics.bodyWords ++ voipWrites m
    return (← puts fields bytes, 36)
  | unknown b => do
    let fields := headerWrites b.blockType b.typeSpecific (b.body.length / 4) ++ [(4, b.body)]
    return (← puts fields bytes, 4 + b.body.length)

/-- The fields of a block that is no list of receiver delays are its encoding, without a gap. -/
theorem exists_pieces {block : Block} (hplain : ∀ items, block ≠ delays items) :
    ∃ pieces : List Bytes, pieces.flatten = block.encode ∧
      ∀ bytes, block.store bytes = do return (← puts (placed 0 pieces) bytes, block.length) := by
  cases block with
  | referenceTime t =>
    exact ⟨[[ReferenceTime.blockType], [0], ofUInt16 2, ofUInt64 t.ntpTime], rfl, fun _ => rfl⟩
  | delays items => exact absurd rfl (hplain items)
  | voipMetrics m =>
    exact ⟨[[VoipMetrics.blockType], [0], ofUInt16 8] ++ (voipWrites m).map Prod.snd, rfl,
      fun _ => rfl⟩
  | unknown b =>
    refine ⟨[[b.blockType], [b.typeSpecific], ofUInt16 (.ofNat (b.body.length / 4)), b.body], ?_,
      fun _ => rfl⟩
    simp [encode, encodeHeader]

theorem store_plain {block : Block} (hplain : ∀ items, block ≠ delays items) {old : Bytes}
    (hold : old.length = block.length) (rest : Bytes) :
    block.store (old ++ rest) = .ok (block.encode ++ rest, block.length) := by
  obtain ⟨pieces, hpieces, hstore⟩ := exists_pieces hplain
  have hlen : old.length = pieces.flatten.length := by rw [hold, hpieces, length_encode]
  have hputs : puts (placed 0 pieces) (old ++ rest) = .ok (pieces.flatten ++ rest) :=
    @puts_placed pieces [] old 0 rfl hlen rest
  rw [hstore, hputs, hpieces]
  rfl

theorem store_plain_of_short {block : Block} (hplain : ∀ items, block ≠ delays items)
    {bytes : Bytes} (hshort : bytes.length < block.length) :
    block.store bytes = .error .outOfRange := by
  obtain ⟨pieces, hpieces, hstore⟩ := exists_pieces hplain
  have hlen : bytes.length < 0 + pieces.flatten.length := by
    rw [hpieces, length_encode]
    omega
  rw [hstore, puts_placed_of_short (Nat.zero_le _) hlen]
  rfl

theorem itemWrites_eq (pos : Nat) (items : List ReceiverDelay) :
    itemWrites pos items = placed pos (items.flatMap fun d =>
      [d.ssrc.encode, ofUInt32 d.lastRrTime, ofUInt32 d.lastRrDelay]) := by
  induction items generalizing pos with
  | nil => rfl
  | cons d items ih =>
    unfold itemWrites
    rw [ih]
    rfl

theorem flatten_itemPieces (items : List ReceiverDelay) :
    (items.flatMap fun d =>
      [d.ssrc.encode, ofUInt32 d.lastRrTime, ofUInt32 d.lastRrDelay]).flatten =
      items.flatMap ReceiverDelay.encode := by
  rw [List.flatMap_def, List.flatten_flatten, List.map_map, List.flatMap_def]
  rfl

/-- A list of receiver delays puts down its header and as many items as there are places for. -/
theorem storeDelays_append {items : List ReceiverDelay} {here body : Bytes}
    (hhere : here.length = headerLength) :
    storeDelays items (here ++ body) =
      .ok (encodeHeader delaysBlockType 0 (3 * items.length) ++
        ((items.take (body.length / ReceiverDelay.size)).flatMap ReceiverDelay.encode ++
          body.drop (ReceiverDelay.size * min (body.length / ReceiverDelay.size) items.length)),
        (delays items).length) := by
  have hheader : puts (headerWrites delaysBlockType 0 (3 * items.length)) (here ++ body) =
      .ok (encodeHeader delaysBlockType 0 (3 * items.length) ++ body) :=
    @puts_placed [[delaysBlockType], [0], ofUInt16 (.ofNat (3 * items.length))] [] here 0 rfl
      hhere body
  have hroom := @length_chunks ReceiverDelay.size (by decide) body
  -- The items that fit take up the front of the body.
  have hlen := length_flatMap_of_length_eq ReceiverDelay.length_encode
    (items.take (body.length / ReceiverDelay.size))
  rw [List.length_take] at hlen
  have hinside : ReceiverDelay.size * min (body.length / ReceiverDelay.size) items.length ≤
      body.length := by
    simp only [ReceiverDelay.size]
    omega
  have hold : (body.take (ReceiverDelay.size *
      min (body.length / ReceiverDelay.size) items.length)).length =
        ((items.take (body.length / ReceiverDelay.size)).flatMap fun d =>
          [d.ssrc.encode, ofUInt32 d.lastRrTime, ofUInt32 d.lastRrDelay]).flatten.length := by
    rw [flatten_itemPieces, hlen, List.length_take, Nat.min_eq_left hinside]
  have hitems := @puts_placed _ (encodeHeader delaysBlockType 0 (3 * items.length)) _ 4 rfl hold
    (body.drop (ReceiverDelay.size * min (body.length / ReceiverDelay.size) items.length))
  rw [List.take_append_drop, flatten_itemPieces, ← itemWrites_eq] at hitems
  unfold storeDelays
  rw [hheader]
  show (sliceFrom _ 4 >>= _) = _
  rw [sliceFrom_append (by rfl)]
  show (puts (itemWrites 4 (items.take (chunks ReceiverDelay.size body).length)) _ >>= _) = _
  rw [hroom, hitems, length, Nat.mul_comm ReceiverDelay.size items.length]
  rfl

theorem storeDelays_eq {items : List ReceiverDelay} {old : Bytes}
    (hold : old.length = (delays items).length) (rest : Bytes) :
    storeDelays items (old ++ rest) =
      .ok ((delays items).encode ++ rest, (delays items).length) := by
  obtain ⟨here, later, rfl, hhere, hlater⟩ :=
    @exists_append old headerLength (ReceiverDelay.size * items.length) hold
  have hroom : items.length ≤ (later ++ rest).length / ReceiverDelay.size := by
    rw [List.length_append, hlater, Nat.mul_add_div (by decide)]
    exact Nat.le_add_right _ _
  rw [List.append_assoc, storeDelays_append hhere, List.take_of_length_le hroom,
    Nat.min_eq_right hroom, ← hlater, List.drop_left, encode, List.append_assoc]

/-- Over as many bytes as it is long, a block puts down its encoding. -/
theorem store_eq {block : Block} {old : Bytes} (hold : old.length = block.length) (rest : Bytes) :
    block.store (old ++ rest) = .ok (block.encode ++ rest, block.length) := by
  cases block with
  | delays items => exact storeDelays_eq hold rest
  | referenceTime t | voipMetrics m | unknown b =>
    refine store_plain ?_ hold rest
    intro items hdelays
    cases hdelays

theorem overlayDelays_of_short {items : List ReceiverDelay} {body : Bytes}
    (hshort : body.length < ReceiverDelay.size * items.length) :
    ExtendedReport.overlayDelays items body =
      ((items.take (body.length / ReceiverDelay.size)).flatMap ReceiverDelay.encode ++
        body.drop (ReceiverDelay.size * (body.length / ReceiverDelay.size)), none) := by
  induction items generalizing body with
  | nil => exact absurd hshort (Nat.not_lt_zero _)
  | cons item items ih =>
    unfold ExtendedReport.overlayDelays
    cases htake : Bytes.take? ReceiverDelay.size body with
    | none =>
      have hnone := Bytes.take?_eq_none_iff.1 htake
      rw [Nat.div_eq_of_lt hnone]
      rfl
    | some parts =>
      obtain ⟨front, rest⟩ := parts
      obtain ⟨rfl, hfront⟩ := Bytes.take?_eq_some_iff.1 htake
      have hrest : rest.length < ReceiverDelay.size * items.length := by
        rw [List.length_append, hfront, List.length_cons, Nat.mul_succ] at hshort
        omega
      have hdiv : (front ++ rest).length / ReceiverDelay.size =
          rest.length / ReceiverDelay.size + 1 := by
        rw [List.length_append, hfront, Nat.add_comm, Nat.add_div_right _ (by decide)]
      have hdrop : (front ++ rest).drop
          (ReceiverDelay.size * (rest.length / ReceiverDelay.size + 1)) =
            rest.drop (ReceiverDelay.size * (rest.length / ReceiverDelay.size)) := by
        rw [Nat.mul_succ, Nat.add_comm, ← hfront, List.drop_length_add_append]
      simp only [ih hrest, hdiv, hdrop, List.take_succ_cons, List.flatMap_cons, List.append_assoc]

theorem overlayBlock_plain_of_short {block : Block} (hplain : ∀ items, block ≠ delays items)
    {bytes : Bytes} (hshort : bytes.length < block.length) :
    ExtendedReport.overlayBlock block bytes = .error .outOfRange := by
  have hnone := Bytes.take?_eq_none_iff.2 hshort
  cases block with
  | delays items => exact absurd rfl (hplain items)
  | referenceTime t | voipMetrics m | unknown b => simp only [ExtendedReport.overlayBlock, hnone]

theorem overlayBlock_delays_of_header {items : List ReceiverDelay} {bytes : Bytes}
    (hshort : bytes.length < headerLength) :
    ExtendedReport.overlayBlock (delays items) bytes = .error .outOfRange := by
  simp only [ExtendedReport.overlayBlock, Bytes.take?_eq_none_iff.2 hshort]

/-- A list of receiver delays that does not fit is cut behind the last item that does. -/
theorem overlayBlock_delays_of_short {items : List ReceiverDelay} {here body : Bytes}
    (hhere : here.length = headerLength)
    (hshort : body.length < ReceiverDelay.size * items.length) :
    ExtendedReport.overlayBlock (delays items) (here ++ body) =
      .ok (encodeHeader delaysBlockType 0 (3 * items.length) ++
        ((items.take (body.length / ReceiverDelay.size)).flatMap ReceiverDelay.encode ++
          body.drop (ReceiverDelay.size * (body.length / ReceiverDelay.size))), none) := by
  simp only [ExtendedReport.overlayBlock, Bytes.take?_front hhere, overlayDelays_of_short hshort]

/-- A block that does not fit leaves the bytes, but for a list of receiver delays whose header fits:
that takes up all of them. -/
theorem store_of_short {block : Block} {bytes : Bytes} (hshort : bytes.length < block.length) :
    (block.store bytes = .error .outOfRange ∧
        ExtendedReport.overlayBlock block bytes = .error .outOfRange) ∨
      ∃ front, block.store bytes = .ok (front, block.length) ∧
        ExtendedReport.overlayBlock block bytes = .ok (front, none) ∧
        front.length = bytes.length := by
  cases block with
  | referenceTime t | voipMetrics m | unknown b =>
    refine .inl ⟨store_plain_of_short ?_ hshort, overlayBlock_plain_of_short ?_ hshort⟩
    · intro items hdelays
      cases hdelays
    · intro items hdelays
      cases hdelays
  | delays items =>
    by_cases hheader : headerLength ≤ bytes.length
    · obtain ⟨here, body, rfl, hhere, -⟩ :=
        @exists_append bytes headerLength (bytes.length - headerLength) (by omega)
      have hbody : body.length < ReceiverDelay.size * items.length := by
        rw [List.length_append, hhere] at hshort
        simp only [length, headerLength] at hshort
        omega
      have hmin : min (body.length / ReceiverDelay.size) items.length =
          body.length / ReceiverDelay.size :=
        Nat.min_eq_left (Nat.le_of_lt (Nat.div_lt_of_lt_mul hbody))
      have hstore := @storeDelays_append items here body hhere
      rw [hmin] at hstore
      refine .inr ⟨_, hstore, overlayBlock_delays_of_short hhere hbody, ?_⟩
      have hlen := length_flatMap_of_length_eq ReceiverDelay.length_encode
        (items.take (body.length / ReceiverDelay.size))
      have hinside := Nat.mul_div_le body.length ReceiverDelay.size
      rw [List.length_take, hmin] at hlen
      simp only [List.length_append, List.length_drop, hlen, length_encodeHeader, hhere]
      omega
    · have hlen : bytes.length < headerLength := Nat.lt_of_not_le hheader
      refine .inl ⟨?_, overlayBlock_delays_of_header hlen⟩
      have hputs : puts (headerWrites delaysBlockType 0 (3 * items.length)) bytes =
          .error .outOfRange :=
        @puts_placed_of_short [[delaysBlockType], [0], ofUInt16 (.ofNat (3 * items.length))] bytes 0
          (Nat.zero_le _) hlen
      show storeDelays items bytes = _
      unfold storeDelays
      rw [hputs]
      rfl

end Block

/-! ## Extended reports -/

namespace ExtendedReport

/-- Writes blocks one after the other over `bytes`, from position `length` on, and says where they
end. -/
def storeBlocks : List Block → Nat → Bytes → Except Fault (Bytes × Nat)
  | [], length, bytes => return (bytes, length)
  | block :: blocks, length, bytes => do
    let front ← slice bytes 0 length
    let (rest, written) ← block.store (← sliceFrom bytes length)
    storeBlocks blocks (length + written) (front ++ rest)

/-- Writes an extended report over the front of `bytes`, and says how long it is. -/
def store (x : ExtendedReport) (bytes : Bytes) : Except Fault (Bytes × Nat) := do
  let fields : List (Nat × Bytes) := [
    (0, [.ofNat (protocolVersion.toNat * 64 + (if x.header.padding then 32 else 0) +
      x.header.count.val)]),
    (1, [x.header.type.toByte]), (2, ofUInt16 x.header.wordsLessOne), (4, x.ssrc.encode)]
  storeBlocks x.blocks 8 (← puts fields bytes)

theorem storeBlocks_eq (blocks : List Block) (front bytes : Bytes) :
    storeBlocks blocks front.length (front ++ bytes) =
      (overlayBlocks blocks bytes).map fun out =>
        (front ++ out, front.length + total (blocks.map Block.length)) := by
  induction blocks generalizing front bytes with
  | nil => rfl
  | cons block blocks ih =>
    have hfront : slice (front ++ bytes) 0 front.length = .ok front :=
      @slice_eq [] front bytes 0 front.length rfl (Nat.zero_add _)
    unfold storeBlocks
    rw [hfront, sliceFrom_append rfl]
    show (block.store bytes >>= _) = _
    rw [List.map_cons, total_cons]
    by_cases hfits : block.length ≤ bytes.length
    · obtain ⟨here, later, rfl, hhere, -⟩ :=
        @exists_append bytes block.length (bytes.length - block.length) (by omega)
      have hnext := ih (front ++ block.encode) later
      rw [List.length_append, Block.length_encode, List.append_assoc] at hnext
      rw [Block.store_eq hhere]
      show storeBlocks blocks _ (front ++ (block.encode ++ later)) = _
      rw [hnext]
      simp only [overlayBlocks, overlayBlock_append hhere, bind, Except.bind]
      cases overlayBlocks blocks later with
      | error fault => rfl
      | ok out => simp only [Except.map, pure, Except.pure, List.append_assoc, Nat.add_assoc]
    · have hshort : bytes.length < block.length := Nat.lt_of_not_le hfits
      rcases Block.store_of_short hshort with ⟨hstore, hover⟩ | ⟨out, hstore, hover, hlen⟩
      · rw [hstore]
        simp only [overlayBlocks, hover]
        rfl
      · rw [hstore]
        show storeBlocks blocks (front.length + block.length) (front ++ out) = _
        simp only [overlayBlocks, hover, bind, Except.bind]
        cases blocks with
        | nil => rfl
        | cons next blocks =>
          -- The next block would have to start behind the end.
          have houtside : ¬(0 ≤ front.length + block.length ∧
              front.length + block.length ≤ (front ++ out).length) := by
            rw [List.length_append]
            omega
          unfold storeBlocks slice
          rw [if_neg houtside]
          rfl

/-- Blocks are put in the place of as many bytes, and the others stay. -/
theorem length_overlayBlocks {blocks : List Block} {bytes out : Bytes}
    (h : overlayBlocks blocks bytes = .ok out) : out.length = bytes.length := by
  induction blocks generalizing bytes out with
  | nil =>
    cases h
    rfl
  | cons block blocks ih =>
    by_cases hfits : block.length ≤ bytes.length
    · obtain ⟨here, later, rfl, hhere, -⟩ :=
        @exists_append bytes block.length (bytes.length - block.length) (by omega)
      simp only [overlayBlocks, overlayBlock_append hhere, bind, Except.bind] at h
      cases hrest : overlayBlocks blocks later with
      | error fault => simp only [hrest, reduceCtorEq] at h
      | ok rest =>
        simp only [hrest, pure, Except.pure, Except.ok.injEq] at h
        subst h
        rw [List.length_append, List.length_append, Block.length_encode, hhere, ih hrest]
    · have hshort : bytes.length < block.length := Nat.lt_of_not_le hfits
      rcases Block.store_of_short hshort with ⟨-, hover⟩ | ⟨front, -, hover, hlen⟩
      · simp only [overlayBlocks, hover] at h
        cases h
      · simp only [overlayBlocks, hover, bind, Except.bind] at h
        cases hblocks : blocks.isEmpty with
        | true =>
          rw [hblocks] at h
          cases h
          exact hlen
        | false =>
          rw [hblocks] at h
          cases h

theorem length_overlay {x : ExtendedReport} {bytes out : Bytes} (h : x.overlay bytes = .ok out) :
    out.length = bytes.length := by
  unfold overlay at h
  cases htake : Bytes.take? 8 bytes with
  | none =>
    rw [htake] at h
    cases h
  | some parts =>
    obtain ⟨front, rest⟩ := parts
    obtain ⟨rfl, hfront⟩ := Bytes.take?_eq_some_iff.1 htake
    simp only [htake, bind, Except.bind] at h
    cases hblocks : overlayBlocks x.blocks rest with
    | error fault => simp only [hblocks, reduceCtorEq] at h
    | ok written =>
      simp only [hblocks, pure, Except.pure, Except.ok.injEq] at h
      subst h
      simp only [List.length_append, Header.length_encode, Ssrc.length_encode, hfront,
        length_overlayBlocks hblocks, headerLength]
      omega

/-- To write a report field by field is to write it over the front of the bytes. -/
theorem store_eq_overlay (x : ExtendedReport) (bytes : Bytes) :
    x.store bytes = (x.overlay bytes).map fun out => (out, x.written) := by
  unfold store
  show (puts (placed 0 [[_], [_], ofUInt16 _, x.ssrc.encode]) bytes >>= _) = _
  by_cases hfits : 8 ≤ bytes.length
  · obtain ⟨here, later, rfl, hhere, -⟩ := @exists_append bytes 8 (bytes.length - 8) (by omega)
    have hfields := @puts_placed [[.ofNat (protocolVersion.toNat * 64 +
        (if x.header.padding then 32 else 0) + x.header.count.val)], [x.header.type.toByte],
      ofUInt16 x.header.wordsLessOne, x.ssrc.encode] [] here 0 rfl hhere later
    have hblocks := storeBlocks_eq x.blocks (x.header.encode ++ x.ssrc.encode) later
    rw [List.nil_append] at hfields
    rw [hfields]
    show storeBlocks x.blocks 8 (x.header.encode ++ x.ssrc.encode ++ later) = _
    refine hblocks.trans ?_
    simp only [overlay, Bytes.take?_front hhere, bind, Except.bind]
    cases overlayBlocks x.blocks later with
    | error fault => rfl
    | ok out =>
      simp only [Except.map, pure, Except.pure, List.append_assoc]
      rfl
  · have hshort : bytes.length < 8 := Nat.lt_of_not_le hfits
    rw [puts_placed_of_short (Nat.zero_le _) hshort]
    simp only [overlay, Bytes.take?_eq_none_iff.2 hshort]
    rfl

end ExtendedReport

end MediaTransport.Rtcp
