import MediaTransport.Proofs.Codec.Message
import MediaTransport.Proofs.Quality.Rating
import MediaTransport.Quality.VoipBlock

/-!
# What a voice quality block depends on

Every field of a block but the score and the discard rate is a function of one group of statistics
(`scoredBlock_eq`), so statistics that change in one group, or go missing, change no field of
another (`blocksAgree_scoredBlock`). The discard rate needs the jitter buffer and the number of
packets expected; the score needs every group but the bursts (`streamScore_of_missing`,
`streamScore_of_known`). There is no block about a stream whose counters cannot be rated
(`voipBlock_eq_error_iff`), and a block fits the wire: it is read back as it was
(`asRead_scoredBlock`).
-/

namespace MediaTransport.Quality

open Rtcp

/-- The block, field by field. -/
theorem scoredBlock_eq (ssrc : Ssrc) (stats : StreamStats) (cx : BlockContext) (score : UInt8) :
    scoredBlock ssrc stats cx score = {
      ssrc
      lossRate := stats.reception.elim 0 fun r => (lossRate r.expected r.lost r.recovered).1
      discardRate := stats.jitterBuffer.elim 0 fun jb =>
        discardRate ((stats.reception.map Reception.expected).getD 0) jb.discarded
      burstDensity := stats.bursts.elim 0 Bursts.burstDensity
      gapDensity := stats.bursts.elim 0 Bursts.gapDensity
      burstDuration := stats.bursts.elim 0 Bursts.burstDuration
      gapDuration := stats.bursts.elim 0 Bursts.gapDuration
      roundTripDelay := stats.roundTripDelay.getD 0
      endSystemDelay := stats.roundTripDelay.elim 0 (endSystemDelay cx)
      gapThreshold := stats.bursts.elim 16 Bursts.gapThreshold
      mosConversational := score
      concealment := concealment cx.encoding
      adaptivity := stats.jitterBuffer.elim .unknown fun jb =>
        if jb.adaptive then .adaptive else .fixed
      nominalDelay := stats.jitterBuffer.elim 0 JitterBuffer.nominalDelay
      maximumDelay := stats.jitterBuffer.elim 0 JitterBuffer.maximumDelay
      absoluteMaximumDelay := stats.jitterBuffer.elim 0 fun jb =>
        if jb.adaptive then jb.absoluteMaximumDelay else jb.maximumDelay } := by
  obtain ⟨reception, roundTrip, jitterBuffer, bursts⟩ := stats
  cases reception <;> cases roundTrip <;> cases jitterBuffer <;> cases bursts <;> rfl

variable {ssrc : Ssrc} {stats stats' : StreamStats} {cx cx' : BlockContext} {score score' : UInt8}

theorem ssrc_scoredBlock (ssrc : Ssrc) (stats : StreamStats) (cx : BlockContext) (score : UInt8) :
    (scoredBlock ssrc stats cx score).ssrc = ssrc := by
  rw [scoredBlock_eq]

theorem mosConversational_scoredBlock (ssrc : Ssrc) (stats : StreamStats) (cx : BlockContext)
    (score : UInt8) : (scoredBlock ssrc stats cx score).mosConversational = score := by
  rw [scoredBlock_eq]

theorem adjustmentRate_scoredBlock (ssrc : Ssrc) (stats : StreamStats) (cx : BlockContext)
    (score : UInt8) : (scoredBlock ssrc stats cx score).adjustmentRate = 0 := by
  rw [scoredBlock_eq]

theorem asRead_scoredBlock (ssrc : Ssrc) (stats : StreamStats) (cx : BlockContext) (score : UInt8) :
    (scoredBlock ssrc stats cx score).asRead = scoredBlock ssrc stats cx score := by
  rw [VoipMetrics.asRead_eq_self_iff, adjustmentRate_scoredBlock]
  decide

/-! ## The score -/

/-- Where packets were expected, the score is taken from what is lost after recovery. -/
theorem lossRate_snd {expected : UInt64} (h : expected ≠ 0) (lost recovered : UInt64) :
    (lossRate expected lost recovered).2 = lostAfterRecovery lost recovered := by
  unfold lossRate
  split
  next hnone =>
    obtain rfl := hnone.resolve_left h
    unfold lostAfterRecovery
    split
    next hle => rw [UInt64.le_zero_iff.1 hle, UInt64.sub_zero]
    next => rfl
  next => rfl

theorem streamScore_of_missing (h : stats.reception = none ∨ stats.roundTripDelay = none ∨
      cx.encoding = none ∨ stats.jitterBuffer = none ∨
      stats.reception.map Reception.expected = some 0) :
    streamScore stats cx = .ok 127 := by
  have hcounters : scoreCounters? stats cx = none := by
    unfold scoreCounters?
    split
    next r roundTrip name jb hreception hroundTrip hencoding hjitterBuffer =>
      rw [hreception, hroundTrip, hencoding, hjitterBuffer] at h
      simp only [reduceCtorEq, false_or, Option.map_some, Option.some.injEq] at h
      exact if_pos h
    next => rfl
  unfold streamScore
  rw [hcounters]
  rfl

theorem streamScore_of_known {r : Reception} {roundTrip : UInt16} {name : String}
    {jb : JitterBuffer} (hreception : stats.reception = some r)
    (hroundTrip : stats.roundTripDelay = some roundTrip) (hencoding : cx.encoding = some name)
    (hjitterBuffer : stats.jitterBuffer = some jb) (hexpected : r.expected ≠ 0) :
    streamScore stats cx =
      conversationalScore { callCounters cx r roundTrip jb with
        lost := (lostAfterRecovery r.lost r.recovered).toInt64 } := by
  have hcounters : scoreCounters? stats cx = some (callCounters cx r roundTrip jb) := by
    unfold scoreCounters?
    rw [hreception, hroundTrip, hencoding, hjitterBuffer]
    exact if_neg hexpected
  have hlost : (callCounters cx r roundTrip jb).lost =
      (lostAfterRecovery r.lost r.recovered).toInt64 := by
    unfold callCounters
    rw [lossRate_snd hexpected]
  unfold streamScore
  rw [hcounters, ← hlost]

/-- The stream has a score to be taken from counters that cannot be rated. -/
def StreamStats.Unratable (stats : StreamStats) (cx : BlockContext) : Prop :=
  ∃ c, scoreCounters? stats cx = some c ∧ c.Unratable

theorem streamScore_eq_error_iff {fault : Fault} :
    streamScore stats cx = .error fault ↔ fault = .overflow ∧ stats.Unratable cx := by
  unfold streamScore StreamStats.Unratable
  cases scoreCounters? stats cx with
  | none => simp
  | some c => simp [conversationalScore_eq_error_iff]

/-- There is a block about every stream but those that cannot be rated. -/
theorem voipBlock_eq_error_iff {fault : Fault} :
    voipBlock ssrc stats cx = .error fault ↔ fault = .overflow ∧ stats.Unratable cx := by
  unfold voipBlock
  rw [Except.map_eq_error_iff, streamScore_eq_error_iff]

theorem voipBlock_eq_ok_iff {m : VoipMetrics} :
    voipBlock ssrc stats cx = .ok m ↔
      ∃ score, streamScore stats cx = .ok score ∧ scoredBlock ssrc stats cx score = m :=
  Except.map_eq_ok_iff

theorem ssrc_of_voipBlock {m : VoipMetrics} (h : voipBlock ssrc stats cx = .ok m) :
    m.ssrc = ssrc := by
  obtain ⟨score, -, rfl⟩ := voipBlock_eq_ok_iff.1 h
  exact ssrc_scoredBlock ssrc stats cx score

theorem adjustmentRate_of_voipBlock {m : VoipMetrics} (h : voipBlock ssrc stats cx = .ok m) :
    m.adjustmentRate = 0 := by
  obtain ⟨score, -, rfl⟩ := voipBlock_eq_ok_iff.1 h
  exact adjustmentRate_scoredBlock ssrc stats cx score

theorem asRead_of_voipBlock {m : VoipMetrics} (h : voipBlock ssrc stats cx = .ok m) :
    m.asRead = m := by
  obtain ⟨score, -, rfl⟩ := voipBlock_eq_ok_iff.1 h
  exact asRead_scoredBlock ssrc stats cx score

/-- A block has the score of its stream. -/
theorem map_mosConversational_voipBlock (ssrc : Ssrc) (stats : StreamStats) (cx : BlockContext) :
    (voipBlock ssrc stats cx).map VoipMetrics.mosConversational = streamScore stats cx := by
  unfold voipBlock
  cases streamScore stats cx with
  | error fault => rfl
  | ok score => exact congrArg Except.ok (mosConversational_scoredBlock ssrc stats cx score)

/-! ## Groups of statistics -/

/-- The groups of statistics that a block is filled from. -/
inductive StatsGroup where
  | reception
  | delays
  | encoding
  | jitterBuffer
  | bursts
  deriving DecidableEq, Repr

namespace StatsGroup

/-- The statistics are the same outside one group. -/
def StatsAgree (g : StatsGroup) (stats stats' : StreamStats) (cx cx' : BlockContext) : Prop :=
  match g with
  | reception => stats' = { stats with reception := stats'.reception } ∧ cx' = cx
  | delays =>
    stats' = { stats with roundTripDelay := stats'.roundTripDelay } ∧
      cx' = { cx with
        roundTripBySequence := cx'.roundTripBySequence
        renderingDelay := cx'.renderingDelay }
  | encoding => stats' = stats ∧ cx' = { cx with encoding := cx'.encoding }
  | jitterBuffer => stats' = { stats with jitterBuffer := stats'.jitterBuffer } ∧ cx' = cx
  | bursts => stats' = { stats with bursts := stats'.bursts } ∧ cx' = cx

/-- The blocks are the same outside the fields of one group, but for the score. -/
def BlocksAgree (g : StatsGroup) (m m' : VoipMetrics) : Prop :=
  match g with
  | reception => m' = { m with
      mosConversational := m'.mosConversational
      lossRate := m'.lossRate
      discardRate := m'.discardRate }
  | delays => m' = { m with
      mosConversational := m'.mosConversational
      roundTripDelay := m'.roundTripDelay
      endSystemDelay := m'.endSystemDelay }
  | encoding => m' = { m with
      mosConversational := m'.mosConversational
      concealment := m'.concealment }
  | jitterBuffer => m' = { m with
      mosConversational := m'.mosConversational
      discardRate := m'.discardRate
      adaptivity := m'.adaptivity
      nominalDelay := m'.nominalDelay
      maximumDelay := m'.maximumDelay
      absoluteMaximumDelay := m'.absoluteMaximumDelay }
  | bursts => m' = { m with
      mosConversational := m'.mosConversational
      burstDensity := m'.burstDensity
      gapDensity := m'.gapDensity
      burstDuration := m'.burstDuration
      gapDuration := m'.gapDuration
      gapThreshold := m'.gapThreshold }

/-- Statistics that differ in one group only give blocks that differ in its fields only. -/
theorem blocksAgree_scoredBlock {g : StatsGroup} (h : g.StatsAgree stats stats' cx cx') :
    g.BlocksAgree (scoredBlock ssrc stats cx score) (scoredBlock ssrc stats' cx' score') := by
  cases g with
  | reception =>
    obtain ⟨hstats, rfl⟩ := h
    rw [hstats, scoredBlock_eq, scoredBlock_eq]
    exact rfl
  | delays =>
    obtain ⟨hstats, hcx⟩ := h
    rw [hstats, hcx, scoredBlock_eq, scoredBlock_eq]
    exact rfl
  | encoding =>
    obtain ⟨rfl, hcx⟩ := h
    rw [hcx, scoredBlock_eq, scoredBlock_eq]
    exact rfl
  | jitterBuffer =>
    obtain ⟨hstats, rfl⟩ := h
    rw [hstats, scoredBlock_eq, scoredBlock_eq]
    exact rfl
  | bursts =>
    obtain ⟨hstats, rfl⟩ := h
    rw [hstats, scoredBlock_eq, scoredBlock_eq]
    exact rfl

end StatsGroup

/-! ## All about a block -/

/-- A block stands in the same place of the report that is read as in the one that was written. -/
theorem getElem?_blocks_asRead {x : ExtendedReport} {i : Nat} {m : VoipMetrics}
    (hm : voipBlock ssrc stats cx = .ok m) (h : x.blocks[i]? = some (.voipMetrics m)) :
    x.asRead.blocks[i]? = some (.voipMetrics m) := by
  simp only [ExtendedReport.asRead]
  rw [List.getElem?_map, h, Option.map_some, Block.asRead, asRead_of_voipBlock hm]

/-- There is a block about every stream but one whose counters cannot be rated. Statistics that are
missing, or differ, touch the score and the fields of their own group. The score is not given where
a group that it needs is missing or no packet was expected, and else is that of the counters. In
whatever extended report the block is written, it is read back unchanged. -/
theorem voipBlock_groupwise (ssrc : Ssrc) (stats : StreamStats) (cx : BlockContext) :
    (∀ fault, voipBlock ssrc stats cx = .error fault ↔ fault = .overflow ∧ stats.Unratable cx) ∧
    ((stats.reception = none ∨ stats.roundTripDelay = none ∨ cx.encoding = none ∨
        stats.jitterBuffer = none ∨ stats.reception.map Reception.expected = some 0) →
      ∃ m, voipBlock ssrc stats cx = .ok m ∧ m.mosConversational = 127) ∧
    (∀ r roundTrip name jb, stats.reception = some r → stats.roundTripDelay = some roundTrip →
      cx.encoding = some name → stats.jitterBuffer = some jb → r.expected ≠ 0 →
      (voipBlock ssrc stats cx).map VoipMetrics.mosConversational =
        conversationalScore {
          ownLossCurve := isEncoding "silk" (some name)
          roundTrip := .ofNat roundTrip.toNat
          roundTripBySequence := .ofNat cx.roundTripBySequence.toNat
          bufferLatency := .ofNat jb.nominalDelay.toNat
          bufferDiscards := jb.discarded.toInt64
          received := r.processed.toInt64
          lost := (lostAfterRecovery r.lost r.recovered).toInt64
          discarded := r.invalid.toInt64
          recovered := r.recovered.toInt64 }) ∧
    (∀ g stats' cx' m m', StatsGroup.StatsAgree g stats stats' cx cx' →
      voipBlock ssrc stats cx = .ok m → voipBlock ssrc stats' cx' = .ok m' →
      g.BlocksAgree m m') ∧
    ∀ (x : ExtendedReport) (i : Nat) (rest : Bytes) (m : VoipMetrics),
      voipBlock ssrc stats cx = .ok m → x.Encodable →
      x.blocks[i]? = some (.voipMetrics m) →
      ∃ y, Message.read (x.encode ++ rest) = .ok (.extendedReport y) ∧ y.ssrc = x.ssrc ∧
        y.blocks.length = x.blocks.length ∧ y.blocks[i]? = some (.voipMetrics m) := by
  refine ⟨fun fault => voipBlock_eq_error_iff, ?_, ?_, ?_, ?_⟩
  · intro hmissing
    refine ⟨scoredBlock ssrc stats cx 127, ?_, mosConversational_scoredBlock ..⟩
    exact voipBlock_eq_ok_iff.2 ⟨127, streamScore_of_missing hmissing, rfl⟩
  · intro r roundTrip name jb hreception hroundTrip hencoding hjitterBuffer hexpected
    have hscore := streamScore_of_known hreception hroundTrip hencoding hjitterBuffer hexpected
    unfold callCounters at hscore
    rw [hencoding] at hscore
    rw [map_mosConversational_voipBlock, hscore]
  · intro g stats' cx' m m' h hm hm'
    obtain ⟨score, -, rfl⟩ := voipBlock_eq_ok_iff.1 hm
    obtain ⟨score', -, rfl⟩ := voipBlock_eq_ok_iff.1 hm'
    exact StatsGroup.blocksAgree_scoredBlock h
  · intro x i rest m hm hx hi
    have hread := @Message.Encodable.read_encode (.extendedReport x) hx rest
    exact ⟨x.asRead, hread, rfl, List.length_map _, getElem?_blocks_asRead hm hi⟩

/-- A lossy stream of which all but the bursts is known. -/
def lossyStream : StreamStats where
  reception := some { expected := 1100, lost := 100, processed := 1000, recovered := 60 }
  roundTripDelay := some 40
  jitterBuffer := some { discarded := 2, nominalDelay := 500, maximumDelay := 600 }

/-- The context of a stream in one of the codecs that bear losses in their own way. -/
def silkContext : BlockContext where
  encoding := some "SILK/16000"
  roundTripBySequence := 120
  renderingDelay := 100

/-- The block of the stream stands behind another one, and its report in front of other bytes. -/
theorem voipBlock_groupwise_silk :
    ∃ m m', voipBlock ⟨7⟩ { lossyStream with jitterBuffer := none } silkContext = .ok m' ∧
      m'.mosConversational = 127 ∧ voipBlock ⟨7⟩ lossyStream silkContext = .ok m ∧
      conversationalScore {
        ownLossCurve := true, roundTrip := 40, roundTripBySequence := 120, bufferLatency := 500
        bufferDiscards := 2, received := 1000, lost := 40, recovered := 60 } =
          .ok m.mosConversational ∧
      StatsGroup.jitterBuffer.BlocksAgree m m' ∧
      ∃ y, Message.read ((ExtendedReport.mk ⟨1⟩ [.referenceTime ⟨5⟩, .voipMetrics m]).encode ++
          [0x80, 0xc8]) = .ok (.extendedReport y) ∧
        y.blocks[1]? = some (.voipMetrics m) := by
  obtain ⟨-, hmissing, -⟩ :=
    voipBlock_groupwise ⟨7⟩ { lossyStream with jitterBuffer := none } silkContext
  obtain ⟨hfault, -, hknown, hagree, hread⟩ := voipBlock_groupwise ⟨7⟩ lossyStream silkContext
  obtain ⟨m', hm', hnone⟩ := hmissing (by decide)
  have hsilk : isEncoding "silk" (some "SILK/16000") = true := by decide
  have hscore := hknown _ _ _ _ rfl rfl rfl rfl (by decide)
  rw [hsilk] at hscore
  have hratable : ¬lossyStream.Unratable silkContext := by
    rintro ⟨c, hc, hunratable⟩
    cases hc
    exact absurd hunratable (by decide)
  cases hm : voipBlock ⟨7⟩ lossyStream silkContext with
  | error fault => exact absurd ((hfault fault).1 hm).2 hratable
  | ok m =>
    rw [hm] at hscore
    have hencodable : (ExtendedReport.mk ⟨1⟩ [.referenceTime ⟨5⟩, .voipMetrics m]).Encodable :=
      ⟨by simp [ExtendedReport.words, Block.length, ReferenceTime.bodyWords, VoipMetrics.bodyWords],
        by simp [Block.IsWhole]⟩
    obtain ⟨y, hy, -, -, hblock⟩ := hread _ 1 [0x80, 0xc8] m hm hencodable rfl
    exact ⟨m, m', hm', hnone, rfl, hscore.symm, hagree .jitterBuffer _ _ m m' ⟨rfl, rfl⟩ hm hm', y,
      hy, hblock⟩

end MediaTransport.Quality
