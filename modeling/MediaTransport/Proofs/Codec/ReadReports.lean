import MediaTransport.Proofs.Codec.Image
import MediaTransport.Proofs.Codec.ReportScan

/-!
# Raw reports and reports that are read

A report scan finds the sources in the raw bytes of a report, at places and within a length that it
works out for itself. A reader of the whole report comes to the same: the reports that it rejects
are those that the scan finds too short (`isComplete_iff_read`), and of the others both name the
same sources (`named_of_read`). So in a packet without padding the scan gives up exactly when there
is a report that cannot be parsed, and otherwise it has what the reports name that are read in the
packet (`fetchReportSources_eq_read`). Padding parts the two, as the scan takes it for blocks.
-/

namespace MediaTransport.Rtcp

open Bytes

namespace ReportSources

/-- What a message names, if it is a report. -/
def ofMessage? : Message → Option ReportSources
  | .senderReport r => some ⟨r.info.ssrc, r.reports.toList.map ReceptionReport.ssrc⟩
  | .receiverReport r => some ⟨r.sender, r.reports.toList.map ReceptionReport.ssrc⟩
  | .extendedReport _ | .goodbye _ => none

/-! ## The parts of a report -/

theorem exists_read?_of_receptionReport {bytes rest : Bytes} {r : ReceptionReport}
    (h : ReceptionReport.read? bytes = some (r, rest)) :
    ∃ tail, Ssrc.read? bytes = some (r.ssrc, tail) := by
  simp only [ReceptionReport.read?, Option.bind_eq_bind, Option.bind_eq_some_iff, Option.pure_def,
    Option.some.injEq, Prod.mk.injEq] at h
  obtain ⟨⟨ssrc, tail⟩, hssrc, _, -, _, -, _, -, _, -, _, -, _, -, rfl, -⟩ := h
  exact ⟨tail, hssrc⟩

theorem exists_read?_of_senderInfo {bytes rest : Bytes} {info : SenderInfo}
    (h : SenderInfo.read? bytes = some (info, rest)) :
    ∃ tail, Ssrc.read? bytes = some (info.ssrc, tail) := by
  simp only [SenderInfo.read?, Option.bind_eq_bind, Option.bind_eq_some_iff, Option.pure_def,
    Option.some.injEq, Prod.mk.injEq] at h
  obtain ⟨⟨ssrc, tail⟩, hssrc, _, -, _, -, _, -, _, -, rfl, -⟩ := h
  exact ⟨tail, hssrc⟩

/-- As many blocks as a header can count are read if the bytes are enough for them. -/
theorem exists_readReports_iff {count : Nat} (hcount : count ≤ maxItems) (bytes : Bytes) :
    (∃ l, readReports count bytes = .ok l) ↔ ReceptionReport.size * count ≤ bytes.length := by
  have hspans := ReceptionReport.spans_read?
  rw [Nat.mul_comm]
  unfold readReports
  cases hmany : many? ReceptionReport.read? count bytes with
  | none => exact iff_of_false nofun (Nat.not_le.2 (hspans.many?_eq_none_iff.1 hmany))
  | some read =>
    obtain ⟨reports, rest⟩ := read
    have hlist : ReportList.ofList? reports = some ⟨reports, length_of_many? hmany ▸ hcount⟩ :=
      dif_pos (length_of_many? hmany ▸ hcount)
    simp only [hlist]
    exact iff_of_true ⟨_, rfl⟩ (Nat.not_lt.1 (hspans.not_lt_of_many? hmany))

/-- Where the blocks of a report are read, their sources stand. -/
theorem map_ssrc_of_readReports {count pos : Nat} {sub : Bytes} {l : ReportList ReceptionReport}
    (h : readReports count (sub.drop pos) = .ok l) :
    l.toList.map ReceptionReport.ssrc =
      (List.range' pos count ReceptionReport.size).map (ssrcAt sub) := by
  unfold readReports at h
  split at h
  next reports rest hmany =>
    split at h
    next list hlist =>
      cases h
      rw [ReportList.toList_of_ofList? hlist]
      exact (map_ssrcAt_of_many? _ ReceptionReport.spans_read?
        exists_read?_of_receptionReport hmany).symm
    next => cases h
  next => cases h

/-! ## Reports

What stands in front of the blocks of a report is read first: the sender information, which starts
with the originator, or the originator alone. -/

theorem senderReport_eq_ok_iff {count : Nat} {body : Bytes} {r : SenderReport} :
    SenderReport.readBody count body = .ok r ↔
      ∃ rest, SenderInfo.read? body = some (r.info, rest) ∧
        readReports count rest = .ok r.reports := by
  unfold SenderReport.readBody
  cases hinfo : SenderInfo.read? body with
  | none => exact iff_of_false nofun nofun
  | some read =>
    obtain ⟨info, rest⟩ := read
    simp only [Except.bind_eq_ok_iff]
    constructor
    · rintro ⟨reports, hreports, ⟨⟩⟩
      exact ⟨rest, rfl, hreports⟩
    · rintro ⟨_, ⟨⟩, hreports⟩
      exact ⟨r.reports, hreports, rfl⟩

theorem receiverReport_eq_ok_iff {count : Nat} {body : Bytes} {r : ReceiverReport} :
    ReceiverReport.readBody count body = .ok r ↔
      ∃ rest, Ssrc.read? body = some (r.sender, rest) ∧ readReports count rest = .ok r.reports := by
  unfold ReceiverReport.readBody
  cases hsender : Ssrc.read? body with
  | none => exact iff_of_false nofun nofun
  | some read =>
    obtain ⟨sender, rest⟩ := read
    simp only [Except.bind_eq_ok_iff]
    constructor
    · rintro ⟨reports, hreports, ⟨⟩⟩
      exact ⟨rest, rfl, hreports⟩
    · rintro ⟨_, ⟨⟩, hreports⟩
      exact ⟨r.reports, hreports, rfl⟩

section Parts

variable {α : Type} {front? : Bytes → Option (α × Bytes)} {size count : Nat} {sub : Bytes}

/-- A report is read if it has the length of its front and its blocks. -/
theorem exists_parts_iff (hspans : Spans size front?) (hcount : count ≤ maxItems)
    (hsub : headerLength ≤ sub.length) :
    (∃ a rest l, front? (sub.drop headerLength) = some (a, rest) ∧ readReports count rest = .ok l) ↔
      headerLength + size + ReceptionReport.size * count ≤ sub.length := by
  have hbody : (sub.drop headerLength).length = sub.length - headerLength := List.length_drop
  cases hfront : front? (sub.drop headerLength) with
  | none =>
    have hshort := hspans.eq_none_iff.1 hfront
    exact iff_of_false (fun ⟨_, _, _, hread, _⟩ => nomatch hread) (by omega)
  | some read =>
    obtain ⟨a, rest⟩ := read
    obtain ⟨hlong, hrest⟩ := hspans.eq_drop hfront
    have hblocks := exists_readReports_iff hcount rest
    have hlen := congrArg List.length hrest
    rw [List.length_drop] at hlen
    constructor
    · rintro ⟨_, _, l, ⟨⟩, hl⟩
      have := hblocks.1 ⟨l, hl⟩
      omega
    · intro hle
      obtain ⟨l, hl⟩ := hblocks.2 (by omega)
      exact ⟨a, rest, l, rfl, hl⟩

theorem named_parts (hspans : Spans size front?) {a : α} {rest : Bytes}
    {l : ReportList ReceptionReport} {sender : Ssrc}
    (hfront : front? (sub.drop headerLength) = some (a, rest))
    (hsender : ∃ tail, Ssrc.read? (sub.drop headerLength) = some (sender, tail))
    (hblocks : readReports count rest = .ok l) :
    (⟨sender, l.toList.map ReceptionReport.ssrc⟩ : ReportSources) =
      ⟨ssrcAt sub headerLength,
        (List.range' (headerLength + size) count ReceptionReport.size).map (ssrcAt sub)⟩ := by
  obtain ⟨tail, htail⟩ := hsender
  obtain ⟨-, rfl⟩ := hspans.eq_drop hfront
  rw [List.drop_drop] at hblocks
  rw [ssrcAt_of_read? htail, map_ssrc_of_readReports hblocks]

end Parts

/-! ## Sub-packets -/

/-- The header of a report says which of the two it is, and counts its blocks. -/
theorem exists_header {sub : Bytes} (hsub : Compound.IsSubPacket sub)
    (hreport : isReport sub = true) :
    ∃ header, Header.read sub = .ok header ∧ header.count.val = blockCount sub ∧
      (header.type = .senderReport ∧ blocksStart sub = headerLength + SenderInfo.size ∨
        header.type = .receiverReport ∧ blocksStart sub = headerLength + 4) := by
  unfold Compound.IsSubPacket Compound.next? at hsub
  split at hsub
  next first second third fourth rest =>
    split at hsub
    next hfits =>
      have hversion : ¬first >>> 6 ≠ protocolVersion := not_not_intro hfits.1
      simp only [isReport, List.getElem?_cons_succ, List.getElem?_cons_zero, Bool.or_eq_true,
        beq_iff_eq, Option.some.injEq] at hreport
      rcases hreport with rfl | rfl
      · refine ⟨⟨.senderReport, _, _, _⟩, if_neg hversion, rfl, .inl ⟨rfl, rfl⟩⟩
      · refine ⟨⟨.receiverReport, _, _, _⟩, if_neg hversion, rfl, .inr ⟨rfl, rfl⟩⟩
    next => cases hsub
  next => cases hsub

section Header

variable {sub : Bytes} {header : Header} {m : Message}

/-- The body of a sub-packet reaches to its end. -/
theorem read_eq_ok_iff_body (hsub : Compound.IsSubPacket sub)
    (hheader : Header.read sub = .ok header) :
    Message.read sub = .ok m ↔
      header.type = m.header.type ∧ m.ReadFrom header.count.val (sub.drop headerLength) := by
  have hbytes := Header.bytes_of_read hsub hheader
  rw [Message.read_eq_ok_iff, hheader]
  constructor
  · rintro ⟨_, ⟨⟩, htype, hbody⟩
    rw [hbytes, List.take_length] at hbody
    exact ⟨htype, hbody⟩
  · rintro ⟨htype, hbody⟩
    refine ⟨header, rfl, htype, ?_⟩
    rw [hbytes, List.take_length]
    exact hbody

theorem read_senderReport_iff (hsub : Compound.IsSubPacket sub)
    (hheader : Header.read sub = .ok header) (htype : header.type = .senderReport) :
    Message.read sub = .ok m ↔ ∃ r rest, m = .senderReport r ∧
      SenderInfo.read? (sub.drop headerLength) = some (r.info, rest) ∧
      readReports header.count.val rest = .ok r.reports := by
  rw [read_eq_ok_iff_body hsub hheader, htype]
  constructor
  · rintro ⟨hm, hbody⟩
    cases m with
    | senderReport r =>
      obtain ⟨rest, hparts⟩ := senderReport_eq_ok_iff.1 hbody
      exact ⟨r, rest, rfl, hparts⟩
    | receiverReport | extendedReport | goodbye => cases hm
  · rintro ⟨r, rest, rfl, hparts⟩
    exact ⟨rfl, senderReport_eq_ok_iff.2 ⟨rest, hparts⟩⟩

theorem read_receiverReport_iff (hsub : Compound.IsSubPacket sub)
    (hheader : Header.read sub = .ok header) (htype : header.type = .receiverReport) :
    Message.read sub = .ok m ↔ ∃ r rest, m = .receiverReport r ∧
      Ssrc.read? (sub.drop headerLength) = some (r.sender, rest) ∧
      readReports header.count.val rest = .ok r.reports := by
  rw [read_eq_ok_iff_body hsub hheader, htype]
  constructor
  · rintro ⟨hm, hbody⟩
    cases m with
    | receiverReport r =>
      obtain ⟨rest, hparts⟩ := receiverReport_eq_ok_iff.1 hbody
      exact ⟨r, rest, rfl, hparts⟩
    | senderReport | extendedReport | goodbye => cases hm
  · rintro ⟨r, rest, rfl, hparts⟩
    exact ⟨rfl, receiverReport_eq_ok_iff.2 ⟨rest, hparts⟩⟩

end Header

/-- The reports that are read are those that are long enough for the blocks that they count. -/
theorem isComplete_iff_read {sub : Bytes} (hsub : Compound.IsSubPacket sub)
    (hreport : isReport sub = true) : IsComplete sub ↔ ∃ m, Message.read sub = .ok m := by
  obtain ⟨header, hheader, hcount, htype⟩ := exists_header hsub hreport
  have hlong : headerLength ≤ sub.length := by
    rw [← Header.bytes_of_read hsub hheader, Header.bytes, Header.words, headerLength]
    omega
  have hmax : header.count.val ≤ maxItems := Nat.le_of_lt_succ header.count.isLt
  unfold IsComplete
  rcases htype with ⟨hsender, hstart⟩ | ⟨hreceiver, hstart⟩
  · rw [hstart, ← hcount, ← exists_parts_iff SenderInfo.spans_read? hmax hlong]
    simp only [read_senderReport_iff hsub hheader hsender]
    constructor
    · rintro ⟨info, rest, l, hparts⟩
      exact ⟨_, ⟨info, l⟩, rest, rfl, hparts⟩
    · rintro ⟨_, r, rest, -, hparts⟩
      exact ⟨r.info, rest, r.reports, hparts⟩
  · rw [hstart, ← hcount, ← exists_parts_iff Ssrc.spans_read? hmax hlong]
    simp only [read_receiverReport_iff hsub hheader hreceiver]
    constructor
    · rintro ⟨sender, rest, l, hparts⟩
      exact ⟨_, ⟨sender, l⟩, rest, rfl, hparts⟩
    · rintro ⟨_, r, rest, -, hparts⟩
      exact ⟨r.sender, rest, r.reports, hparts⟩

/-- What is read of a report names the same as its raw bytes. -/
theorem named_of_read {sub : Bytes} {m : Message} (hsub : Compound.IsSubPacket sub)
    (hreport : isReport sub = true) (hread : Message.read sub = .ok m) :
    ofMessage? m = some (named sub) := by
  obtain ⟨header, hheader, hcount, htype⟩ := exists_header hsub hreport
  unfold named
  rcases htype with ⟨hsender, hstart⟩ | ⟨hreceiver, hstart⟩
  · obtain ⟨r, rest, rfl, hinfo, hblocks⟩ := (read_senderReport_iff hsub hheader hsender).1 hread
    rw [hstart, ← hcount]
    exact congrArg some
      (named_parts SenderInfo.spans_read? hinfo (exists_read?_of_senderInfo hinfo) hblocks)
  · obtain ⟨r, rest, rfl, hsource, hblocks⟩ :=
      (read_receiverReport_iff hsub hheader hreceiver).1 hread
    rw [hstart, ← hcount]
    exact congrArg some (named_parts Ssrc.spans_read? hsource ⟨rest, hsource⟩ hblocks)

/-- Nothing else is read as a report. -/
theorem ofMessage?_of_read {sub : Bytes} {m : Message} (hread : Message.read sub = .ok m)
    (hreport : ¬isReport sub = true) : ofMessage? m = none := by
  have htype := Message.getElem?_of_read hread
  cases m with
  | extendedReport | goodbye => rfl
  | senderReport r | receiverReport r =>
    refine absurd ?_ hreport
    unfold isReport
    rw [htype]
    rfl

/-- A report is parsed if it is read: it is of a type that is interpreted. -/
theorem parse_eq_error_iff {sub : Bytes} (hsub : Compound.IsSubPacket sub)
    (hreport : isReport sub = true) :
    (∃ e, Message.parse sub = .error e) ↔ ¬∃ m, Message.read sub = .ok m := by
  obtain ⟨header, hheader, -, htype⟩ := exists_header hsub hreport
  have hinterprets : Message.interprets header.type = true := by
    rcases htype with ⟨hsender, -⟩ | ⟨hreceiver, -⟩
    · rw [hsender]
      rfl
    · rw [hreceiver]
      rfl
  rw [Message.parse_of_interprets hheader hinterprets]
  cases Message.read sub with
  | ok m => exact iff_of_false nofun (not_not_intro ⟨m, rfl⟩)
  | error e => exact iff_of_true ⟨_, rfl⟩ nofun

end ReportSources

namespace Compound

open ReportSources

/-- Whether the padding bit of a sub-packet is set. -/
def HasPadding (sub : Bytes) : Prop := sub.head?.any Header.paddingBit = true

instance (sub : Bytes) : Decidable (HasPadding sub) :=
  inferInstanceAs (Decidable (_ = true))

theorem unpadded?_of_not_hasPadding {sub : Bytes} (hsub : IsSubPacket sub) (h : ¬HasPadding sub) :
    unpadded? sub = some sub := by
  cases sub with
  | nil => cases hsub
  | cons first rest =>
    have hbit : Header.paddingBit first = false := Bool.eq_false_iff.2 h
    unfold unpadded?
    rw [List.head?_cons, List.getLast?_cons]
    simp only [hbit]
    rfl

/-- Without padding, the reports that are read in a packet are those of its sub-packets. -/
theorem filterMap_ofMessage?_read {bytes : Bytes} (h : ∀ sub ∈ subPackets bytes, ¬HasPadding sub)
    (hcomplete : ReportsComplete bytes) :
    (read bytes).filterMap ofMessage? = namedReports bytes := by
  have hunpadded : ∀ sub ∈ subPackets bytes, unpadded? sub = some sub := fun sub hsub =>
    unpadded?_of_not_hasPadding (isSubPacket_of_mem_subPackets hsub) (h sub hsub)
  have hfits : ∀ sub ∈ subPackets bytes, (unpadded? sub).isSome := by
    intro sub hsub
    rw [hunpadded sub hsub]
    rfl
  rw [read_eq_filterMap hfits, namedReports, List.filterMap_filterMap, ← List.filterMap_eq_map,
    List.filterMap_filter]
  refine List.filterMap_congr fun sub hsub => ?_
  have hpacket := isSubPacket_of_mem_subPackets hsub
  rw [message?, hunpadded sub hsub, Option.bind_some]
  by_cases hreport : isReport sub = true
  · obtain ⟨m, hm⟩ := (isComplete_iff_read hpacket hreport).1 (hcomplete sub hsub hreport)
    rw [if_pos hreport, hm]
    exact named_of_read hpacket hreport hm
  · rw [if_neg hreport]
    cases hm : Message.read sub with
    | error e => rfl
    | ok m => exact ofMessage?_of_read hm hreport

theorem not_reportsComplete_iff {bytes : Bytes} :
    ¬ReportsComplete bytes ↔
      ∃ sub ∈ subPackets bytes, isReport sub = true ∧ ∃ e, Message.parse sub = .error e := by
  simp only [ReportsComplete, Classical.not_forall, exists_prop]
  refine exists_congr fun sub => and_congr_right fun hsub => and_congr_right fun hreport => ?_
  have hpacket := isSubPacket_of_mem_subPackets hsub
  rw [parse_eq_error_iff hpacket hreport, isComplete_iff_read hpacket hreport]

end Compound

end MediaTransport.Rtcp

namespace MediaTransport.Packet

open Rtcp Compound ReportSources

/-- In a packet without padding, the scan in the packet's buffer stays inside it, and has nothing
exactly when a report cannot be parsed. Otherwise it has what the reports name that are read in the
packet. -/
theorem fetchReportSources_eq_read {p : Packet} (h : ∀ sub ∈ subPackets p.bytes, ¬HasPadding sub) :
    p.fetchReportSources = .ok (reportSources p.bytes) ∧
      (reportSources p.bytes = none ↔
        ∃ sub ∈ subPackets p.bytes, isReport sub = true ∧ ∃ e, Message.parse sub = .error e) ∧
      ∀ reports, reportSources p.bytes = some reports →
        reports = (Compound.read p.bytes).filterMap ofMessage? := by
  refine ⟨p.fetchReportSources_eq, ?_⟩
  rw [← not_reportsComplete_iff]
  by_cases hcomplete : ReportsComplete p.bytes
  · rw [reportSources_of_complete hcomplete, filterMap_ofMessage?_read h hcomplete]
    refine ⟨iff_of_false nofun (not_not_intro hcomplete), ?_⟩
    rintro reports ⟨⟩
    rfl
  · rw [reportSources_eq_none hcomplete]
    exact ⟨iff_of_true rfl hcomplete, nofun⟩

/-- A sender report of 1 on source 2, a goodbye of 1, and a receiver report of 3 on sources 4 and
5. -/
def reporters : List Bytes :=
  [[0x81, 200, 0, 12, 0, 0, 0, 1] ++ List.replicate 20 0 ++ [0, 0, 0, 2] ++ List.replicate 20 0,
    [0x81, 203, 0, 1, 0, 0, 0, 1],
    [0x82, 201, 0, 13, 0, 0, 0, 3, 0, 0, 0, 4] ++ List.replicate 20 0 ++ [0, 0, 0, 5] ++
      List.replicate 20 0]

/-- The sources of two reports, which are not found if a report follows that lacks the block it
counts. -/
theorem fetchReportSources_eq_read_reporters :
    (Packet.ofBytes reporters.flatten).fetchReportSources =
        .ok (some [⟨⟨1⟩, [⟨2⟩]⟩, ⟨⟨3⟩, [⟨4⟩, ⟨5⟩]⟩]) ∧
      (Packet.ofBytes (reporters ++ [[0x81, 201, 0, 1, 0, 0, 0, 6]]).flatten).fetchReportSources =
        .ok none := by
  have hbytes : ∀ subs : List Bytes, (∀ sub ∈ subs, IsSubPacket sub) →
      subPackets (Packet.ofBytes subs.flatten).bytes = subs := by
    intro subs hsubs
    rw [Packet.bytes_ofBytes, ← List.append_nil subs.flatten]
    exact subPackets_flatten_append hsubs rfl
  have hwhole := hbytes reporters (by decide)
  have hshort := hbytes (reporters ++ [[0x81, 201, 0, 1, 0, 0, 0, 6]]) (by decide)
  constructor
  · obtain ⟨hscan, hnone, hsome⟩ := @fetchReportSources_eq_read (.ofBytes reporters.flatten)
      (by rw [hwhole]; decide)
    rw [hscan]
    cases hfound : reportSources (Packet.ofBytes reporters.flatten).bytes with
    | none =>
      obtain ⟨sub, hsub, -, e, he⟩ := hnone.1 hfound
      rw [hwhole] at hsub
      have hparsed : ∀ sub ∈ reporters, (Message.parse sub).toOption.isSome := by decide +kernel
      have hok := hparsed sub hsub
      rw [he] at hok
      cases hok
    | some reports =>
      rw [hsome reports hfound, Packet.bytes_ofBytes]
      decide +kernel
  · obtain ⟨hscan, hnone, -⟩ := @fetchReportSources_eq_read
      (.ofBytes (reporters ++ [[0x81, 201, 0, 1, 0, 0, 0, 6]]).flatten) (by rw [hshort]; decide)
    rw [hscan, hnone.2]
    rw [hshort]
    exact ⟨_, List.mem_append_right _ List.mem_cons_self, rfl, _, rfl⟩

end MediaTransport.Packet
