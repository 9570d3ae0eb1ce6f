import MediaTransport.Rtcp.Goodbye

/-!
# Reports and goodbyes on the wire

What the reader makes of the bytes of a report. A feedback block has room for the low 24 bits of the
packets lost and keeps everything else, so a report comes back with each of its blocks cut to that
(`asRead`), and comes back whole exactly when no count of lost packets is longer.
-/

namespace MediaTransport.Rtcp

namespace ReportList

variable {α β : Type}

/-- The list with `f` applied to each item. -/
def map (f : α → β) (l : ReportList α) : ReportList β where
  toList := l.toList.map f
  length_le := by rw [List.length_map]; exact l.length_le

theorem ofList?_toList (l : ReportList α) : ofList? l.toList = some l := by
  unfold ofList?
  rw [dif_pos l.length_le]

theorem ofList?_map_toList (f : α → β) (l : ReportList α) :
    ofList? (l.toList.map f) = some (l.map f) :=
  ofList?_toList (l.map f)

theorem map_eq_self_iff {f : α → α} {l : ReportList α} :
    l.map f = l ↔ ∀ a ∈ l.toList, f a = a := by
  obtain ⟨items, hlen⟩ := l
  simp only [map, mk.injEq]
  constructor
  · intro h a ha
    exact List.map_inj_left.1 (h.trans (List.map_id items).symm) a ha
  · intro h
    exact (List.map_congr_left h).trans (List.map_id items)

end ReportList

/-! ## Feedback on a source -/

namespace ReceptionReport

/-- What a reader makes of a written block: the packets lost come in 24 bits. -/
def asRead (r : ReceptionReport) : ReceptionReport :=
  { r with packetsLost := .ofNat (r.packetsLost.toNat % 16777216) }

theorem read?_encode (r : ReceptionReport) (rest : Bytes) :
    read? (r.encode ++ rest) = some (r.asRead, rest) := by
  simp [read?, encode, asRead]

theorem asRead_eq_self_iff {r : ReceptionReport} :
    r.asRead = r ↔ r.packetsLost.toNat < 16777216 := by
  obtain ⟨ssrc, fraction, lost, seq, jitter, time, delay⟩ := r
  have hlost := lost.toNat_lt
  simp only [asRead, mk.injEq, and_true, true_and, ← UInt32.toNat_inj, UInt32.toNat_ofNat']
  omega

end ReceptionReport

theorem readReports_flatMap_encode (l : ReportList ReceptionReport) (rest : Bytes) :
    readReports l.length (l.toList.flatMap ReceptionReport.encode ++ rest) =
      .ok (l.map ReceptionReport.asRead) := by
  unfold readReports ReportList.length
  rw [Bytes.many?_flatMap fun r _ more => r.read?_encode more]
  simp only [ReportList.ofList?_map_toList]

/-! ## Sender and receiver reports -/

namespace SenderReport

/-- What a reader makes of a written report. -/
def asRead (r : SenderReport) : SenderReport :=
  { r with reports := r.reports.map ReceptionReport.asRead }

/-- The bytes after the header. -/
def encodeBody (r : SenderReport) : Bytes :=
  r.info.encode ++ r.reports.toList.flatMap ReceptionReport.encode

theorem encode_eq (r : SenderReport) : r.encode = r.header.encode ++ r.encodeBody := rfl

theorem length_encodeBody (r : SenderReport) :
    headerLength + r.encodeBody.length = r.words * 4 := by
  unfold encodeBody words ReportList.length
  rw [List.length_append, SenderInfo.length_encode,
    Bytes.length_flatMap_of_length_eq ReceptionReport.length_encode]
  simp only [headerLength, SenderInfo.size, ReceptionReport.size]
  omega

theorem readBody_encodeBody (r : SenderReport) :
    readBody r.reports.length r.encodeBody = .ok r.asRead := by
  have hreports := readReports_flatMap_encode r.reports []
  rw [List.append_nil] at hreports
  unfold readBody encodeBody
  rw [SenderInfo.read?_encode]
  simp only [hreports]
  rfl

theorem asRead_eq_self_iff {r : SenderReport} :
    r.asRead = r ↔ ∀ f ∈ r.reports.toList, f.packetsLost.toNat < 16777216 := by
  obtain ⟨info, reports⟩ := r
  simp only [asRead, mk.injEq, true_and]
  rw [ReportList.map_eq_self_iff]
  exact forall₂_congr fun f _ => ReceptionReport.asRead_eq_self_iff

end SenderReport

namespace ReceiverReport

/-- What a reader makes of a written report. -/
def asRead (r : ReceiverReport) : ReceiverReport :=
  { r with reports := r.reports.map ReceptionReport.asRead }

/-- The bytes after the header. -/
def encodeBody (r : ReceiverReport) : Bytes :=
  r.sender.encode ++ r.reports.toList.flatMap ReceptionReport.encode

theorem encode_eq (r : ReceiverReport) : r.encode = r.header.encode ++ r.encodeBody := rfl

theorem length_encodeBody (r : ReceiverReport) :
    headerLength + r.encodeBody.length = r.words * 4 := by
  unfold encodeBody words ReportList.length
  rw [List.length_append, Ssrc.length_encode,
    Bytes.length_flatMap_of_length_eq ReceptionReport.length_encode]
  simp only [headerLength, ReceptionReport.size]
  omega

theorem readBody_encodeBody (r : ReceiverReport) :
    readBody r.reports.length r.encodeBody = .ok r.asRead := by
  have hreports := readReports_flatMap_encode r.reports []
  rw [List.append_nil] at hreports
  unfold readBody encodeBody
  rw [Ssrc.read?_encode]
  simp only [hreports]
  rfl

theorem asRead_eq_self_iff {r : ReceiverReport} :
    r.asRead = r ↔ ∀ f ∈ r.reports.toList, f.packetsLost.toNat < 16777216 := by
  obtain ⟨sender, reports⟩ := r
  simp only [asRead, mk.injEq, true_and]
  rw [ReportList.map_eq_self_iff]
  exact forall₂_congr fun f _ => ReceptionReport.asRead_eq_self_iff

end ReceiverReport

/-! ## Goodbyes -/

namespace Goodbye

/-- The bytes after the header. -/
def encodeBody (g : Goodbye) : Bytes := g.sources.toList.flatMap Ssrc.encode

theorem encode_eq (g : Goodbye) : g.encode = g.header.encode ++ g.encodeBody := rfl

theorem length_encodeBody (g : Goodbye) : headerLength + g.encodeBody.length = g.words * 4 := by
  unfold encodeBody words ReportList.length
  rw [Bytes.length_flatMap_of_length_eq Ssrc.length_encode]
  simp only [headerLength]
  omega

theorem readBody_encodeBody (g : Goodbye) : readBody g.sources.length g.encodeBody = .ok g := by
  have hsources := Bytes.many?_flatMap (f := id)
    (fun (s : Ssrc) (_ : s ∈ g.sources.toList) rest => s.read?_encode rest) []
  rw [List.append_nil, List.map_id] at hsources
  unfold readBody encodeBody ReportList.length
  rw [hsources]
  simp only [ReportList.ofList?_toList]

end Goodbye

end MediaTransport.Rtcp
