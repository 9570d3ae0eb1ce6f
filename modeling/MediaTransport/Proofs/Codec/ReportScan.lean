import MediaTransport.Proofs.Access.Scan

/-!
# Raw reports

What a report scan reads is said by position. A sender or receiver report counts its blocks in its
first byte, names its originator behind its header, and the source of each block at the start of
that block. It is complete if it is long enough for the blocks that it counts. Where every report is
complete, the scan reads what they name, in their order (`reportSources_of_complete`), and otherwise
it reads nothing (`reportSources_eq_none`).
-/

namespace MediaTransport.Rtcp

open Bytes

namespace ReportSources

/-- Whether a sub-packet is a sender report or a receiver report. -/
def isReport (sub : Bytes) : Bool :=
  sub[1]? == some PacketType.senderReport.toByte || sub[1]? == some PacketType.receiverReport.toByte

/-- How many blocks a report counts. -/
def blockCount (sub : Bytes) : Nat :=
  (sub.head?.map fun first => (Header.countBits first).val).getD 0

/-- Where the blocks of a report start: behind the originator, and behind the sender information if
it is a sender report. -/
def blocksStart (sub : Bytes) : Nat :=
  if sub[1]? = some PacketType.senderReport.toByte then 28 else 8

/-- A report that is long enough for the blocks that it counts. -/
def IsComplete (sub : Bytes) : Prop :=
  blocksStart sub + ReceptionReport.size * blockCount sub ≤ sub.length

instance (sub : Bytes) : Decidable (IsComplete sub) :=
  inferInstanceAs (Decidable (_ ≤ _))

/-- The source at a position of a report. A complete report has all that it names. -/
def ssrcAt (sub : Bytes) (pos : Nat) : Ssrc :=
  ((Ssrc.read? (sub.drop pos)).map Prod.fst).getD ⟨0⟩

/-- The originator that a report names, and the sources of its blocks. -/
def named (sub : Bytes) : ReportSources where
  sender := ssrcAt sub 4
  sources := (List.range' (blocksStart sub) (blockCount sub) ReceptionReport.size).map (ssrcAt sub)

theorem ssrcAt_of_read? {sub rest : Bytes} {pos : Nat} {s : Ssrc}
    (h : Ssrc.read? (sub.drop pos) = some (s, rest)) : ssrcAt sub pos = s := by
  rw [ssrcAt, h]
  rfl

/-- A block starts with its source. -/
theorem exists_read?_of_readBlock? {bytes rest : Bytes} {s : Ssrc}
    (h : readBlock? bytes = some (s, rest)) : ∃ tail, Ssrc.read? bytes = some (s, tail) := by
  simp only [readBlock?, Option.bind_eq_bind, Option.bind_eq_some_iff, Option.pure_def,
    Option.some.injEq, Prod.mk.injEq] at h
  obtain ⟨⟨block, next⟩, htake, ⟨source, tail⟩, hsource, rfl, rfl⟩ := h
  obtain ⟨hblock, -⟩ := take?_eq_some_iff.1 htake
  rw [hblock]
  exact ⟨_, Ssrc.read?_append hsource next⟩

/-- The sources of items that start with them and are as long as blocks. -/
theorem map_ssrcAt_of_many? {α : Type} {item? : Bytes → Option (α × Bytes)} (source : α → Ssrc)
    (hspans : Spans ReceptionReport.size item?)
    (hsource : ∀ {bytes a rest}, item? bytes = some (a, rest) →
      ∃ tail, Ssrc.read? bytes = some (source a, tail))
    {sub rest : Bytes} {pos count : Nat} {items : List α}
    (h : many? item? count (sub.drop pos) = some (items, rest)) :
    (List.range' pos count ReceptionReport.size).map (ssrcAt sub) = items.map source := by
  induction count generalizing pos items with
  | zero =>
    cases h
    rfl
  | succ count ih =>
    simp only [many?, Option.bind_eq_bind, Option.bind_eq_some_iff, Option.pure_def,
      Option.some.injEq, Prod.mk.injEq] at h
    obtain ⟨⟨a, next⟩, ha, ⟨others, last⟩, hothers, rfl, rfl⟩ := h
    obtain ⟨-, hnext⟩ := hspans.eq_drop ha
    obtain ⟨tail, hread⟩ := hsource ha
    rw [hnext, List.drop_drop] at hothers
    rw [List.range'_succ, List.map_cons, ssrcAt_of_read? hread, ih hothers, List.map_cons]

/-- The scan of one report, with `skipped` bytes between the originator and the first block. -/
theorem ofRaw?_eq (skipped count : Nat) (sub : Bytes) :
    ofRaw? skipped count sub =
      if 8 + skipped + ReceptionReport.size * count ≤ sub.length then
        some ⟨ssrcAt sub 4,
          (List.range' (8 + skipped) count ReceptionReport.size).map (ssrcAt sub)⟩
      else
        none := by
  have hshort := @ofRaw?_eq_none_iff skipped count sub
  rw [Nat.mul_comm count] at hshort
  cases hr : ofRaw? skipped count sub with
  | none =>
    have hlen := hshort.1 hr
    rw [if_neg]
    simp only [headerLength] at hlen
    omega
  | some r =>
    rw [hr] at hshort
    have hlen := mt hshort.2 (Option.some_ne_none r)
    simp only [headerLength] at hlen
    rw [if_pos (by omega)]
    simp only [ofRaw?, Option.bind_eq_bind, Option.bind_eq_some_iff, Option.pure_def,
      Option.some.injEq] at hr
    obtain ⟨⟨header, rest⟩, hheader, ⟨sender, rest'⟩, hsender, ⟨info, blocks⟩, hinfo,
      ⟨sources, last⟩, hmany, rfl⟩ := hr
    obtain ⟨-, rfl⟩ := (spans_take? _).eq_drop hheader
    obtain ⟨-, rfl⟩ := Ssrc.spans_read?.eq_drop hsender
    obtain ⟨-, rfl⟩ := (spans_take? _).eq_drop hinfo
    have hstart : headerLength + (4 + skipped) = 8 + skipped := by
      simp only [headerLength]
      omega
    have hsource : ssrcAt sub 4 = sender := ssrcAt_of_read? hsender
    rw [List.drop_drop, List.drop_drop, hstart] at hmany
    rw [hsource, map_ssrcAt_of_many? id spans_readBlock? exists_read?_of_readBlock? hmany,
      List.map_id]

/-- The scan reads on from a report if it is complete, and passes all else. -/
theorem scan_cons (sub : Bytes) (subs : List Bytes) :
    scan (sub :: subs) =
      if isReport sub then
        if IsComplete sub then (scan subs).map (named sub :: ·) else none
      else
        scan subs := by
  have hboth : ∀ (skipped : Nat), blocksStart sub = 8 + skipped → isReport sub = true →
      (do return (← ofRaw? skipped (blockCount sub) sub) :: (← scan subs)) =
        if isReport sub then
          if IsComplete sub then (scan subs).map (named sub :: ·) else none
        else
          scan subs := by
    intro skipped hstart hreport
    have hcomplete : IsComplete sub ↔
        8 + skipped + ReceptionReport.size * blockCount sub ≤ sub.length := by
      unfold IsComplete
      rw [hstart]
    rw [if_pos hreport, ofRaw?_eq]
    by_cases hlen : IsComplete sub
    · rw [if_pos hlen, if_pos (hcomplete.1 hlen), named, hstart]
      cases scan subs <;> rfl
    · rw [if_neg hlen, if_neg (mt hcomplete.2 hlen)]
      rfl
  match sub with
  | [] => rfl
  | [_] => rfl
  | first :: second :: tail =>
    have hsecond : (first :: second :: tail)[1]? = some second := rfl
    simp only [scan]
    by_cases hsender : second = PacketType.senderReport.toByte
    · rw [if_pos hsender]
      refine hboth senderInfoRest ?_ ?_
      · rw [blocksStart, hsecond, hsender]
        rfl
      · rw [isReport, hsecond, hsender]
        rfl
    · rw [if_neg hsender]
      by_cases hreceiver : second = PacketType.receiverReport.toByte
      · rw [if_pos hreceiver]
        refine hboth 0 ?_ ?_
        · rw [blocksStart, hsecond, hreceiver]
          rfl
        · rw [isReport, hsecond, hreceiver]
          rfl
      · have hother : isReport (first :: second :: tail) = false := by
          simp only [isReport, hsecond, Option.some_beq_some, beq_false_of_ne hsender,
            beq_false_of_ne hreceiver, Bool.or_self]
        rw [if_neg hreceiver, hother]
        rfl

theorem scan_of_complete {subs : List Bytes}
    (h : ∀ sub ∈ subs, isReport sub = true → IsComplete sub) :
    scan subs = some ((subs.filter isReport).map named) := by
  induction subs with
  | nil => rfl
  | cons sub subs ih =>
    obtain ⟨hsub, hsubs⟩ := List.forall_mem_cons.1 h
    rw [scan_cons, ih hsubs]
    by_cases hreport : isReport sub = true
    · rw [if_pos hreport, if_pos (hsub hreport), List.filter_cons_of_pos hreport]
      rfl
    · rw [if_neg hreport, List.filter_cons_of_neg hreport]

theorem scan_eq_none {subs : List Bytes} {sub : Bytes} (hsub : sub ∈ subs)
    (hreport : isReport sub = true) (hshort : ¬IsComplete sub) : scan subs = none := by
  induction subs with
  | nil => cases hsub
  | cons first subs ih =>
    rw [scan_cons]
    rcases List.mem_cons.1 hsub with rfl | hrest
    · rw [if_pos hreport, if_neg hshort]
    · rw [ih hrest]
      split
      next =>
        split
        next => rfl
        next => rfl
      next => rfl

end ReportSources

namespace Compound

open ReportSources

/-- What the reports of a compound packet name, in their order. -/
def namedReports (bytes : Bytes) : List ReportSources :=
  ((subPackets bytes).filter isReport).map named

/-- Every report in a compound packet is long enough for the blocks that it counts. -/
def ReportsComplete (bytes : Bytes) : Prop :=
  ∀ sub ∈ subPackets bytes, isReport sub = true → IsComplete sub

theorem reportSources_of_complete {bytes : Bytes} (h : ReportsComplete bytes) :
    reportSources bytes = some (namedReports bytes) :=
  scan_of_complete h

theorem reportSources_eq_none {bytes : Bytes} (h : ¬ReportsComplete bytes) :
    reportSources bytes = none := by
  simp only [ReportsComplete, Classical.not_forall] at h
  obtain ⟨sub, hsub, hreport, hshort⟩ := h
  exact scan_eq_none hsub hreport hshort

end Compound

end MediaTransport.Rtcp
