import MediaTransport.Proofs.Access.Report
import MediaTransport.Proofs.Codec.Extended

/-!
# Extended reports by position

A block says how long it is, and is fetched from as many bytes as it says. The checks that the
fetches of the interpreted blocks make of their own never fail: they are called on whole blocks of
their length. The loop over the blocks steps by the length of the block that it has fetched, which
is the length of the block in the buffer (`Block.sliceFrom_of_read`).
-/

namespace MediaTransport.Rtcp

open Bytes

/-! ## Interpreted blocks -/

namespace ReferenceTime

/-- The time in a whole block. -/
def fetch (block : Bytes) : Fetch ParseError ReferenceTime :=
  if block.length < 12 then
    throw .shortReferenceTime
  else do
    return ⟨← word64At block 4⟩

theorem fetch_eq (block : Bytes) : fetch block = fetched (read block) := by
  iterate 12
    rcases block with _ | ⟨_, block⟩
    · rfl
  unfold fetch
  rw [if_neg (by simp)]
  rfl

end ReferenceTime

namespace ReceiverDelay

/-- The item in a chunk of its size. -/
def fetch (chunk : Bytes) : Except Fault ReceiverDelay := do
  return ⟨⟨← word32At chunk 0⟩, ← word32At chunk 4, ← word32At chunk 8⟩

/-- All whole items of `body`. -/
def fetchAll (body : Bytes) : Except Fault (List ReceiverDelay) :=
  (chunks size body).mapM fetch

/-- The items in a whole block. -/
def fetchBlock (block : Bytes) : Fetch ParseError (List ReceiverDelay) :=
  if block.length < 4 then
    throw .shortDelays
  else do
    fetchAll (← sliceFrom block 4)

/-- Where no item is read any more, there are not enough bytes for one. -/
theorem length_lt_size {bytes : Bytes} (h : ∀ a b c d e f g h i j k l rest,
    bytes = a :: b :: c :: d :: e :: f :: g :: h :: i :: j :: k :: l :: rest → False) :
    bytes.length < size := by
  iterate 12
    rcases bytes with _ | ⟨_, bytes⟩
    · simp [size]
  exact absurd rfl (h _ _ _ _ _ _ _ _ _ _ _ _ _)

theorem fetchAll_eq (body : Bytes) : fetchAll body = .ok (readAll body) := by
  unfold fetchAll
  fun_induction readAll body with
  | case1 a b c d e f g h i j k l rest ih =>
    have hchunks : chunks size ([a, b, c, d, e, f, g, h, i, j, k, l] ++ rest) =
        [a, b, c, d, e, f, g, h, i, j, k, l] :: chunks size rest :=
      chunks_append (by decide) (by rfl) rest
    show (chunks size ([a, b, c, d, e, f, g, h, i, j, k, l] ++ rest)).mapM fetch = _
    rw [hchunks, List.mapM_cons, ih]
    rfl
  | case2 body hshort =>
    rw [chunks_of_short (length_lt_size hshort)]
    rfl

theorem length_readAll (body : Bytes) : (readAll body).length = body.length / size := by
  fun_induction readAll body with
  | case1 a b c d e f g h i j k l rest ih =>
    simp only [List.length_cons, ih, size]
    omega
  | case2 body hshort =>
    rw [Nat.div_eq_of_lt (length_lt_size hshort)]
    rfl

theorem fetchBlock_eq (block : Bytes) : fetchBlock block = fetched (readBlock block) := by
  unfold fetchBlock readBlock
  cases htake : take? 4 block with
  | none =>
    rw [if_pos (take?_eq_none_iff.1 htake)]
    rfl
  | some parts =>
    obtain ⟨front, body⟩ := parts
    obtain ⟨rfl, hfront⟩ := take?_eq_some_iff.1 htake
    have hlen : ¬(front ++ body).length < 4 := by
      rw [List.length_append]
      omega
    rw [if_neg hlen, sliceFrom_append hfront, liftM_ok_bind, fetchAll_eq]
    rfl

end ReceiverDelay

namespace VoipMetrics

/-- The metrics in a whole block. -/
def fetch (block : Bytes) : Fetch ParseError VoipMetrics :=
  if block.length < 36 then
    throw .shortVoipMetrics
  else do
    let configuration ← byteAt block 28
    return {
      ssrc := ⟨← word32At block 4⟩
      lossRate := ← byteAt block 8
      discardRate := ← byteAt block 9
      burstDensity := ← byteAt block 10
      gapDensity := ← byteAt block 11
      burstDuration := ← word16At block 12
      gapDuration := ← word16At block 14
      roundTripDelay := ← word16At block 16
      endSystemDelay := ← word16At block 18
      signalLevel := (← byteAt block 20).toInt8
      noiseLevel := (← byteAt block 21).toInt8
      echoReturnLoss := ← byteAt block 22
      gapThreshold := ← byteAt block 23
      rFactor := ← byteAt block 24
      externalRFactor := ← byteAt block 25
      mosListening := ← byteAt block 26
      mosConversational := ← byteAt block 27
      concealment := .ofBits (configuration >>> 6)
      adaptivity := .ofBits (configuration >>> 4)
      adjustmentRate := configuration &&& 0x0f
      nominalDelay := ← word16At block 30
      maximumDelay := ← word16At block 32
      absoluteMaximumDelay := ← word16At block 34 }

theorem fetch_eq (block : Bytes) : fetch block = fetched (read block) := by
  iterate 36
    rcases block with _ | ⟨_, block⟩
    · rfl
  unfold fetch
  rw [if_neg (by simp)]
  rfl

end VoipMetrics

/-! ## Blocks -/

namespace Block

/-- The block in `block`, which is a whole block of `words` words after its header. -/
def fetchWhole (blockType : UInt8) (words : Nat) (block : Bytes) : Fetch ParseError Block := do
  if blockType = ReferenceTime.blockType ∧ words = ReferenceTime.bodyWords then
    return referenceTime (← ReferenceTime.fetch block)
  else if blockType = delaysBlockType ∧ words % 3 = 0 then
    return delays (← ReceiverDelay.fetchBlock block)
  else if blockType = VoipMetrics.blockType ∧ words = VoipMetrics.bodyWords then
    return voipMetrics (← VoipMetrics.fetch block)
  else
    return unknown ⟨blockType, ← byteAt block 1, ← sliceFrom block 4⟩

/-- The block at the front of `bytes`. -/
def fetch (bytes : Bytes) : Fetch ParseError Block :=
  if bytes.length < headerLength then
    throw .shortBlockHeader
  else do
    let blockType ← byteAt bytes 0
    let words := (← word16At bytes 2).toNat
    if bytes.length < 4 + words * 4 then
      throw .blockExceedsPacket
    else
      fetchWhole blockType words (← slice bytes 0 (4 + words * 4))

theorem fetchWhole_eq {blockType typeSpecific third fourth : UInt8} {words : Nat} {body : Bytes}
    (hlen : body.length = words * 4) :
    fetchWhole blockType words (blockType :: typeSpecific :: third :: fourth :: body) =
      fetched (.ok (ofParts blockType typeSpecific words body)) := by
  unfold fetchWhole ofParts
  split
  next htime =>
    have hsome : (ReferenceTime.readBody? body).isSome :=
      ReferenceTime.readBody?_isSome (Nat.le_of_eq (by rw [hlen, htime.2]))
    obtain ⟨t, ht⟩ := Option.isSome_iff_exists.1 hsome
    rw [ReferenceTime.fetch_eq, ReferenceTime.read, List.drop_succ_cons, List.drop_succ_cons,
      List.drop_succ_cons, List.drop_succ_cons, List.drop_zero, ht]
    rfl
  next =>
    split
    next =>
      have hitems : take? 4 (blockType :: typeSpecific :: third :: fourth :: body) =
          some ([blockType, typeSpecific, third, fourth], body) :=
        take?_append [blockType, typeSpecific, third, fourth] body
      rw [ReceiverDelay.fetchBlock_eq, ReceiverDelay.readBlock, hitems]
      rfl
    next =>
      split
      next hvoip =>
        have hsome : (VoipMetrics.readBody? body).isSome :=
          VoipMetrics.readBody?_isSome (Nat.le_of_eq (by rw [hlen, hvoip.2]))
        obtain ⟨m, hm⟩ := Option.isSome_iff_exists.1 hsome
        rw [VoipMetrics.fetch_eq, VoipMetrics.read, List.drop_succ_cons, List.drop_succ_cons,
          List.drop_succ_cons, List.drop_succ_cons, List.drop_zero, hm]
        rfl
      next =>
        have hbody : sliceFrom (blockType :: typeSpecific :: third :: fourth :: body) 4 =
            .ok body :=
          @sliceFrom_append [blockType, typeSpecific, third, fourth] body 4 rfl
        rw [hbody]
        rfl

theorem fetch_eq (bytes : Bytes) : fetch bytes = fetched ((read bytes).map Prod.fst) := by
  match bytes with
  | [] | [_] | [_, _] | [_, _, _] => rfl
  | blockType :: typeSpecific :: third :: fourth :: rest =>
    have hheader : ¬(blockType :: typeSpecific :: third :: fourth :: rest).length <
        headerLength := by
      simp [headerLength]
    unfold fetch read
    rw [if_neg hheader]
    show (if _ < 4 + (word16 third fourth).toNat * 4 then _ else _) = _
    simp only
    cases htake : take? ((word16 third fourth).toNat * 4) rest with
    | none =>
      have hshort := take?_eq_none_iff.1 htake
      rw [if_pos (by simp only [List.length_cons]; omega)]
      rfl
    | some parts =>
      obtain ⟨body, tail⟩ := parts
      obtain ⟨rfl, hlen⟩ := take?_eq_some_iff.1 htake
      have hslice : slice ([] ++ ([blockType, typeSpecific, third, fourth] ++ body ++ tail)) 0
          (4 + (word16 third fourth).toNat * 4) =
            .ok ([blockType, typeSpecific, third, fourth] ++ body) :=
        slice_eq rfl (by simp only [List.length_append, List.length_cons, List.length_nil]; omega)
      rw [if_neg (by simp only [List.length_cons, List.length_append]; omega)]
      show (liftM (slice ([] ++ ([blockType, typeSpecific, third, fourth] ++ body ++ tail)) 0 _)
        >>= _) = _
      rw [hslice, liftM_ok_bind]
      exact fetchWhole_eq hlen

theorem length_ofParts {blockType typeSpecific : UInt8} {words : Nat} {body : Bytes}
    (hlen : body.length = words * 4) :
    (ofParts blockType typeSpecific words body).length = 4 + body.length := by
  obtain ⟨-, rfl, t, -, hblock⟩ | ⟨-, hwords, hblock⟩ | ⟨-, rfl, m, -, hblock⟩ | ⟨-, hblock⟩ :=
    ofParts_cases blockType typeSpecific (Nat.le_of_eq hlen.symm)
  · rw [hblock, hlen]
    rfl
  · rw [hblock, length, ReceiverDelay.length_readAll, ReceiverDelay.size]
    omega
  · rw [hblock, hlen]
    rfl
  · rw [hblock]
    rfl

/-- What follows a block that was read starts at the block's length. -/
theorem sliceFrom_of_read {bytes rest : Bytes} {block : Block}
    (h : read bytes = .ok (block, rest)) : sliceFrom bytes block.length = .ok rest := by
  unfold read at h
  split at h
  next blockType typeSpecific third fourth tail =>
    simp only at h
    split at h
    next body rest' htake =>
      cases h
      obtain ⟨rfl, hlen⟩ := take?_eq_some_iff.1 htake
      have hfront : ([blockType, typeSpecific, third, fourth] ++ body).length =
          (ofParts blockType typeSpecific (word16 third fourth).toNat body).length := by
        rw [length_ofParts hlen, List.length_append]
        rfl
      exact sliceFrom_append hfront
    next => cases h
  next => cases h

theorem length_pos (block : Block) : 0 < block.length := by
  cases block <;> simp only [length] <;> omega

end Block

/-! ## Extended reports -/

namespace ExtendedReport

/-- The blocks one after the other until the bytes are used up. -/
def fetchBlocks (bytes : Bytes) : Fetch ParseError (List Block) :=
  if bytes.isEmpty then
    return []
  else do
    let block ← Block.fetch bytes
    match _h : sliceFrom bytes block.length with
    | .ok rest => return block :: (← fetchBlocks rest)
    | .error fault => throwThe Fault fault
termination_by bytes.length
decreasing_by
  have := length_of_sliceFrom _h
  have := block.length_pos
  omega

/-- What follows the header of an extended report. -/
def fetchBody (body : Bytes) : Fetch ParseError ExtendedReport :=
  if body.length < 4 then
    throw .shortExtendedReport
  else do
    let ssrc : Ssrc := ⟨← word32At body 0⟩
    let blocks ← fetchBlocks (← sliceFrom body 4)
    return ⟨ssrc, blocks⟩

theorem fetchBlocks_eq (bytes : Bytes) : fetchBlocks bytes = fetched (readBlocks bytes) := by
  fun_induction readBlocks bytes with
  | case1 bytes hempty =>
    rw [fetchBlocks, if_pos hempty]
    rfl
  | case2 bytes hempty block rest hread ih =>
    rw [fetchBlocks, if_neg hempty, Block.fetch_eq, hread]
    show fetched (.ok block) >>= _ = _
    rw [fetched_ok_bind]
    split
    next next hnext =>
      rw [Block.sliceFrom_of_read hread] at hnext
      cases hnext
      rw [ih]
      exact fetched_bind _ fun _ _ => rfl
    next fault hfault =>
      rw [Block.sliceFrom_of_read hread] at hfault
      cases hfault
  | case3 bytes hempty e hread =>
    rw [fetchBlocks, if_neg hempty, Block.fetch_eq, hread]
    rfl

theorem fetchBody_eq (body : Bytes) : fetchBody body = fetched (readBody body) := by
  unfold fetchBody readBody
  cases hssrc : Ssrc.read? body with
  | none =>
    rw [if_pos (Ssrc.spans_read?.eq_none_iff.1 hssrc)]
    rfl
  | some read =>
    obtain ⟨ssrc, rest⟩ := read
    rw [if_neg (Ssrc.spans_read?.not_lt hssrc)]
    simp only [Ssrc.word32At_of_read? hssrc, Ssrc.spans_read?.sliceFrom_eq hssrc, liftM_ok_bind,
      fetchBlocks_eq]
    exact fetched_bind _ fun _ _ => rfl

end ExtendedReport

end MediaTransport.Rtcp
