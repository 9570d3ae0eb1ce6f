import Mathlib.Data.List.Basic
import MediaTransport.Proofs.Access.Splice

/-!
# An extraction is a filter

An extraction works in the packet's buffer: it moves bytes within the range that it scans, brings in
the end of that range, and looks again at the position where it just cut. What it leaves is
nevertheless the sub-packets of the walk without those that say that they are extended reports and
can be parsed, and then the bytes behind the walk (`extractReports_filters`). Where it finds nothing
to cut it leaves the packet alone, buffer and all, and what one extraction leaves has nothing for
the next.
-/

namespace MediaTransport

open Rtcp

namespace Rtcp.Compound

/-- The message that the raw sub-packet `sub` is parsed as, if its type is that of an extended
report. -/
def parsedReport? (sub : Bytes) : Option Message :=
  if sub[1]? = some PacketType.extendedReport.toByte then (Message.parse sub).toOption else none

/-- What says that it is an extended report is one if it can be parsed at all. -/
theorem parsedReport?_eq (sub : Bytes) :
    parsedReport? sub = (extendedReport? sub).map Message.extendedReport := by
  unfold parsedReport? extendedReport? Message.extendedReport?
  by_cases htype : sub[1]? = some PacketType.extendedReport.toByte
  · rw [if_pos htype, if_pos htype]
    cases hparse : Message.parse sub with
    | error e => rfl
    | ok m =>
      have hbyte : m.header.type.toByte = PacketType.extendedReport.toByte :=
        Option.some.inj ((Message.getElem?_of_parse hparse).symm.trans htype)
      have hsame := PacketType.toByte_inj.1 hbyte
      cases m with
      | extendedReport x => rfl
      | senderReport r => cases hsame
      | receiverReport r => cases hsame
      | goodbye g => cases hsame
  · rw [if_neg htype, if_neg htype]
    rfl

theorem kept_eq_filter (subs : List Bytes) :
    kept subs = subs.filter fun sub => (parsedReport? sub).isNone := by
  refine List.filter_congr fun sub _ => ?_
  rw [parsedReport?_eq, Option.isNone_map]

/-- What an extraction keeps has nothing for an extraction. -/
theorem filterMap_kept (subs : List Bytes) : (kept subs).filterMap extendedReport? = [] := by
  refine List.filterMap_eq_nil_iff.2 fun sub hsub => ?_
  have hnone := (List.mem_filter.1 hsub).2
  exact Option.isNone_iff_eq_none.1 hnone

/-- The walk over what an extraction leaves goes over what it has kept, and ends where it did
before. -/
theorem walk_kept (bytes : Bytes) :
    walk ((kept (subPackets bytes)).flatten ++ trailing bytes) =
      (kept (subPackets bytes), trailing bytes) := by
  have hkept : ∀ sub ∈ kept (subPackets bytes), IsSubPacket sub := by
    intro sub hsub
    exact isSubPacket_of_mem_subPackets (List.mem_filter.1 hsub).1
  exact walk_flatten_append hkept (next?_trailing bytes)

end Rtcp.Compound

namespace Packet

open Compound

/-- Without a report among the sub-packets the packet is not written to. -/
theorem extractFrom_of_none {subs : List Bytes} (h : ∀ sub ∈ subs, extendedReport? sub = none)
    (p : Packet) (start : Nat) : p.extractFrom start subs = (p, []) := by
  induction subs generalizing start with
  | nil => rfl
  | cons sub subs ih =>
    have hsub := h sub List.mem_cons_self
    have hothers : ∀ s ∈ subs, extendedReport? s = none :=
      fun s hs => h s (List.mem_cons_of_mem _ hs)
    simp only [extractFrom, hsub]
    exact ih hothers (start + sub.length)

theorem extractReports_of_nil {p : Packet} (h : p.extractReports.2 = []) :
    p.extractReports = (p, []) := by
  rw [reports_extractReports] at h
  exact extractFrom_of_none (List.filterMap_eq_nil_iff.1 h) p 0

/-- What one extraction leaves has nothing for the next. -/
theorem reports_extractReports_again (p : Packet) : p.extractReports.1.extractReports.2 = [] := by
  have hwalk : walk p.extractReports.1.bytes = (kept (subPackets p.bytes), trailing p.bytes) := by
    rw [bytes_extractReports]
    exact walk_kept p.bytes
  have hsubs : subPackets p.extractReports.1.bytes = kept (subPackets p.bytes) :=
    congrArg Prod.fst hwalk
  rw [reports_extractReports, hsubs, filterMap_kept]

/-- An extraction in the buffer of any packet leaves the sub-packets that do not parse as extended
reports, in order, and what stands behind them. It gives what the others parse as, in order; where
there are none it leaves the packet as it is, and this is so after any extraction. -/
theorem extractReports_filters (p : Packet) :
    p.extractInPlace 0 = .ok p.extractReports ∧
      p.extractReports.1.bytes =
        ((subPackets p.bytes).filter fun sub => (parsedReport? sub).isNone).flatten ++
          trailing p.bytes ∧
      p.extractReports.2.map Message.extendedReport = (subPackets p.bytes).filterMap parsedReport? ∧
      (p.extractReports.2 = [] → p.extractReports.1 = p) ∧
      p.extractReports.1.extractReports = (p.extractReports.1, []) := by
  refine ⟨p.extractInPlace_zero, ?_, ?_, ?_, ?_⟩
  · rw [bytes_extractReports, kept_eq_filter]
  · rw [reports_extractReports, List.map_filterMap]
    exact List.filterMap_congr fun sub _ => (parsedReport?_eq sub).symm
  · intro hnone
    rw [extractReports_of_nil hnone]
  · exact extractReports_of_nil p.reports_extractReports_again

def receiverReport : Bytes := [0x80, 201, 0, 1, 0, 0, 0, 1]

/-- A header that says that it is an extended report, and no originator. -/
def truncatedReport : Bytes := [0x80, 207, 0, 0]

def arrivalTime : ExtendedReport := ⟨⟨1⟩, [.referenceTime ⟨7⟩]⟩

def emptyReport : ExtendedReport := ⟨⟨2⟩, []⟩

/-- Two extended reports next to each other and one that cannot be parsed, behind a byte of headroom
and in front of a byte that is no sub-packet. -/
def crowded : Packet :=
  .ofBuffer
    (0 :: (receiverReport ++ arrivalTime.encode ++ emptyReport.encode ++ truncatedReport ++ [9]))
    1 41

theorem extractReports_filters_crowded :
    crowded.extractReports.1.bytes = receiverReport ++ truncatedReport ++ [9] ∧
      crowded.extractReports.2.map Message.extendedReport =
        [.extendedReport arrivalTime, .extendedReport emptyReport] ∧
      crowded.extractReports.1.extractReports.1 = crowded.extractReports.1 := by
  have hsubs : subPackets crowded.bytes =
      [receiverReport, arrivalTime.encode, emptyReport.encode, truncatedReport] :=
    @subPackets_flatten_append
      [receiverReport, arrivalTime.encode, emptyReport.encode, truncatedReport]
      (by decide) [9] (by decide)
  have htrailing : trailing crowded.bytes = [9] :=
    congrArg Prod.snd (@walk_flatten_append
      [receiverReport, arrivalTime.encode, emptyReport.encode, truncatedReport] (by decide) [9]
      (by decide))
  have hfirst : parsedReport? arrivalTime.encode = some (.extendedReport arrivalTime) := by
    rw [parsedReport?_eq, @extendedReport?_encode arrivalTime (by decide)]
    rfl
  have hsecond : parsedReport? emptyReport.encode = some (.extendedReport emptyReport) := by
    rw [parsedReport?_eq, @extendedReport?_encode emptyReport (by decide)]
    rfl
  have hother : parsedReport? receiverReport = none := by decide
  have htruncated : parsedReport? truncatedReport = none := by decide
  obtain ⟨-, hbytes, hreports, -, hagain⟩ := extractReports_filters crowded
  obtain ⟨-, -, -, hsame, -⟩ := extractReports_filters crowded.extractReports.1
  refine ⟨?_, ?_, hsame (congrArg Prod.snd hagain)⟩
  · rw [hbytes, hsubs, htrailing]
    simp [hfirst, hsecond, hother, htruncated]
  · rw [hreports, hsubs]
    simp [hfirst, hsecond, hother, htruncated]

end Packet

end MediaTransport
