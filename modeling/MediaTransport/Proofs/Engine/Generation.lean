import Mathlib.Data.List.ReduceOption
import MediaTransport.Engine
import MediaTransport.Proofs.Codec.ReportScan
import MediaTransport.Proofs.Quality.VoipBlock
import MediaTransport.Proofs.Splice.Extraction

/-!
# The extended reports that an engine generates

Whatever the packet and the statistics, a generated report is well formed
(`wellFormed_extendedReport?`): it has one voice quality block for each source at most, a report
counts at most 31 sources, and the adjustment rate of a generated block is zero. Reports are
generated for every packet but those with a source whose stream cannot be rated
(`generated_eq_error_iff`).
-/

namespace MediaTransport

open Rtcp Quality

/-! ## The sources of a report -/

namespace Rtcp.ReportSources

/-- The count of a header has five bits. -/
theorem length_sources_named (sub : Bytes) : (named sub).sources.length < 32 := by
  rw [named, List.length_map, List.length_range']
  cases sub with
  | nil => decide
  | cons first tail => exact (Header.countBits first).isLt

theorem length_of_mem_scan {subs : List Bytes} {reports : List ReportSources}
    (h : scan subs = some reports) : ∀ r ∈ reports, r.sources.length < 32 := by
  induction subs generalizing reports with
  | nil =>
    cases h
    exact nofun
  | cons sub subs ih =>
    rw [scan_cons] at h
    split at h
    next =>
      split at h
      next =>
        obtain ⟨others, hothers, rfl⟩ := Option.map_eq_some_iff.1 h
        exact List.forall_mem_cons.2 ⟨length_sources_named sub, ih hothers⟩
      next => cases h
    next => exact ih h

end Rtcp.ReportSources

/-! ## Generated reports -/

namespace Engine

/-- A report with at most 31 voice quality blocks, whose adjustment rates are zero, is well
formed. -/
theorem wellFormed_of_voipMetrics {x : ExtendedReport} (hlen : x.blocks.length < 32)
    (hblocks : ∀ b ∈ x.blocks, ∃ m, b = .voipMetrics m ∧ m.adjustmentRate = 0) : x.WellFormed := by
  have hwords : x.words = 2 + x.blocks.length * 9 := by
    have hnine : ∀ b ∈ x.blocks, b.length / 4 = 9 := by
      intro b hb
      obtain ⟨m, rfl, -⟩ := hblocks b hb
      simp only [Block.length, VoipMetrics.bodyWords]
    rw [ExtendedReport.words, List.map_congr_left hnine, List.map_const', Bytes.total_replicate]
  refine ⟨⟨?_, fun b hb => ?_⟩, fun b hb => ?_⟩
  · omega
  · obtain ⟨m, rfl, -⟩ := hblocks b hb
    trivial
  · obtain ⟨m, rfl, hrate⟩ := hblocks b hb
    show m.adjustmentRate.toNat ≤ 15
    rw [hrate]
    decide

variable {e : Engine} {r : ReportSources} {fault : Fault}

theorem streamBlock_eq_error_iff {sender : Ssrc} (stream : Ssrc × StreamStats) (fault : Fault) :
    e.streamBlock sender stream = .error fault ↔
      fault = .overflow ∧ stream.2.Unratable (e.blockContext sender) := by
  unfold streamBlock
  rw [Except.map_eq_error_iff, voipBlock_eq_error_iff]

/-- What is made for a report has a block for each stream, and is nothing where there is no
stream. -/
theorem extendedReport?_eq_ok_iff {x? : Option ExtendedReport} :
    e.extendedReport? r = .ok x? ↔
      ∃ blocks, (e.receiveStreams r).mapM (e.streamBlock r.sender) = .ok blocks ∧
        (if blocks.isEmpty then none else some ⟨r.sender, blocks⟩) = x? := by
  unfold extendedReport?
  rw [Except.bind_eq_ok_iff]
  exact exists_congr fun blocks => and_congr_right fun _ => iff_of_eq (Except.ok.injEq _ _)

/-- There is no report where a source has a stream that cannot be rated. -/
theorem extendedReport?_eq_error_iff :
    e.extendedReport? r = .error fault ↔
      fault = .overflow ∧
        ∃ stream ∈ e.receiveStreams r, stream.2.Unratable (e.blockContext r.sender) := by
  unfold extendedReport?
  rw [Except.bind_eq_error_iff, mapM_eq_error_iff streamBlock_eq_error_iff, or_iff_left]
  rintro ⟨blocks, -, ⟨⟩⟩

theorem wellFormed_extendedReport? {x : ExtendedReport} (h : e.extendedReport? r = .ok (some x))
    (hr : r.sources.length < 32) : x.WellFormed := by
  obtain ⟨blocks, hblocks, hx⟩ := extendedReport?_eq_ok_iff.1 h
  split at hx
  next => cases hx
  next =>
    cases hx
    refine wellFormed_of_voipMetrics ?_ fun b hb => ?_
    · show blocks.length < 32
      rw [← (mapM_eq_ok_iff.1 hblocks).length_eq]
      exact Nat.lt_of_le_of_lt (List.length_filterMap_le ..) hr
    · obtain ⟨stream, -, hstream⟩ := exists_of_mem_of_mapM hblocks hb
      obtain ⟨m, hm, rfl⟩ := Except.map_eq_ok_iff.1 hstream
      exact ⟨m, rfl, adjustmentRate_of_voipBlock hm⟩

/-- The extended reports that go with the reports of an outgoing packet. -/
def generated (e : Engine) (bytes : Bytes) : Except Fault (List ExtendedReport) :=
  ((e.reportsToExtend bytes).mapM e.extendedReport?).map List.reduceOption

/-- A report of an outgoing packet is on a source whose stream cannot be rated. -/
def CannotRate (e : Engine) (bytes : Bytes) : Prop :=
  ∃ r ∈ e.reportsToExtend bytes,
    ∃ stream ∈ e.receiveStreams r, stream.2.Unratable (e.blockContext r.sender)

/-- A packet without sub-packets has no reports. -/
theorem isControl_of_cannotRate {bytes : Bytes} (h : e.CannotRate bytes) :
    Compound.isControl bytes = true := by
  rw [Compound.isControl_iff]
  intro hnone
  obtain ⟨r, hr, -⟩ := h
  have hscan : Compound.reportSources bytes = some [] := by
    unfold Compound.reportSources
    rw [hnone]
    rfl
  rw [reportsToExtend, hscan, Option.getD_some, ite_self] at hr
  cases hr

theorem generated_eq_error_iff {bytes : Bytes} :
    e.generated bytes = .error fault ↔ fault = .overflow ∧ e.CannotRate bytes := by
  unfold generated
  rw [Except.map_eq_error_iff, mapM_eq_error_iff fun r fault => extendedReport?_eq_error_iff]
  rfl

theorem length_of_mem_reportsToExtend {bytes : Bytes} (h : r ∈ e.reportsToExtend bytes) :
    r.sources.length < 32 := by
  unfold reportsToExtend at h
  split at h
  next =>
    cases hscan : Compound.reportSources bytes with
    | none =>
      rw [hscan] at h
      cases h
    | some reports =>
      rw [hscan] at h
      exact ReportSources.length_of_mem_scan hscan r h
  next => cases h

theorem wellFormed_of_mem_generated {bytes : Bytes} {xs : List ExtendedReport} {x : ExtendedReport}
    (h : e.generated bytes = .ok xs) (hx : x ∈ xs) : x.WellFormed := by
  obtain ⟨made, hmade, rfl⟩ := Except.map_eq_ok_iff.1 h
  obtain ⟨r, hr, hrx⟩ := exists_of_mem_of_mapM hmade (List.reduceOption_mem_iff.1 hx)
  exact wellFormed_extendedReport? hrx (length_of_mem_reportsToExtend hr)

end Engine

end MediaTransport
