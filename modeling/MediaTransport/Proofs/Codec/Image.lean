import MediaTransport.Proofs.Codec.Grammar
import MediaTransport.Proofs.Codec.RoundTrip

/-!
# The image of the reader

Whatever bytes it is given, the reader makes messages that can be written and that have room on the
wire (`Compound.encodable_exact_of_mem_read`). The lost packets have come in 24 bits and the
adjustment rate in four, a block that is left uninterpreted is none of the interpreted ones, and an
extended report has no more words than the header that it came with. These are just the messages
that come back from the wire, so a list of messages survives the round trip if and only if each
message could have been read (`roundTrip_iff`).
-/

namespace MediaTransport

namespace Bytes

theorem toNat_lt_of_uint24? {bytes rest : Bytes} {n : UInt32} (h : uint24? bytes = some (n, rest)) :
    n.toNat < 16777216 := by
  match bytes with
  | [] | [_] | [_, _] => cases h
  | a :: b :: c :: tail =>
    cases h
    have ha := a.toNat_lt
    have hb := b.toNat_lt
    have hc := c.toNat_lt
    simp only [word32, UInt8.toNat_zero, UInt32.toNat_ofNat']
    omega

/-- What holds of every item that can be read holds of all items that are. -/
theorem forall_of_many? {α : Type} {P : α → Prop} {item? : Bytes → Option (α × Bytes)}
    (hitem : ∀ {bytes a rest}, item? bytes = some (a, rest) → P a) {count : Nat}
    {bytes rest : Bytes} {items : List α} (h : many? item? count bytes = some (items, rest)) :
    ∀ a ∈ items, P a := by
  induction count generalizing bytes items with
  | zero =>
    cases h
    exact List.forall_mem_nil _
  | succ count ih =>
    simp only [many?, Option.bind_eq_bind, Option.bind_eq_some_iff, Option.pure_def,
      Option.some.injEq, Prod.mk.injEq] at h
    obtain ⟨⟨a, next⟩, ha, ⟨others, last⟩, hothers, rfl, rfl⟩ := h
    exact List.forall_mem_cons.2 ⟨hitem ha, ih hothers⟩

end Bytes

namespace Rtcp

/-! ## Sender and receiver reports -/

theorem ReceptionReport.packetsLost_lt_of_read? {bytes rest : Bytes} {r : ReceptionReport}
    (h : read? bytes = some (r, rest)) : r.packetsLost.toNat < 16777216 := by
  simp only [read?, Option.bind_eq_bind, Option.bind_eq_some_iff, Option.pure_def,
    Option.some.injEq, Prod.mk.injEq] at h
  obtain ⟨_, -, _, -, ⟨lost, _⟩, hlost, _, -, _, -, _, -, _, -, rfl, -⟩ := h
  exact Bytes.toNat_lt_of_uint24? hlost

theorem ReportList.toList_of_ofList? {α : Type} {items : List α} {l : ReportList α}
    (h : ofList? items = some l) : l.toList = items := by
  unfold ofList? at h
  split at h
  next => cases h; rfl
  next => cases h

theorem packetsLost_lt_of_readReports {count : Nat} {bytes : Bytes} {l : ReportList ReceptionReport}
    (h : readReports count bytes = .ok l) : ∀ r ∈ l.toList, r.packetsLost.toNat < 16777216 := by
  unfold readReports at h
  split at h
  next reports rest hmany =>
    split at h
    next list hlist =>
      cases h
      rw [ReportList.toList_of_ofList? hlist]
      exact Bytes.forall_of_many? ReceptionReport.packetsLost_lt_of_read? hmany
    next => cases h
  next => cases h

theorem SenderReport.packetsLost_lt_of_readBody {count : Nat} {body : Bytes} {r : SenderReport}
    (h : readBody count body = .ok r) : ∀ f ∈ r.reports.toList, f.packetsLost.toNat < 16777216 := by
  unfold readBody at h
  split at h
  next info rest hinfo =>
    obtain ⟨reports, hreports, ⟨⟩⟩ := Except.bind_eq_ok_iff.1 h
    exact packetsLost_lt_of_readReports hreports
  next => cases h

theorem ReceiverReport.packetsLost_lt_of_readBody {count : Nat} {body : Bytes} {r : ReceiverReport}
    (h : readBody count body = .ok r) : ∀ f ∈ r.reports.toList, f.packetsLost.toNat < 16777216 := by
  unfold readBody at h
  split at h
  next sender rest hsender =>
    obtain ⟨reports, hreports, ⟨⟩⟩ := Except.bind_eq_ok_iff.1 h
    exact packetsLost_lt_of_readReports hreports
  next => cases h

/-! ## Extended reports -/

theorem VoipMetrics.adjustmentRate_le_of_readBody? {body : Bytes} {m : VoipMetrics}
    (h : readBody? body = some m) : m.adjustmentRate.toNat ≤ 15 := by
  iterate 32
    rcases body with _ | ⟨_, body⟩
    · cases h
  cases h
  rw [rate_and_eq, UInt8.toNat_ofNat']
  omega

namespace Block

theorem ReadFrom.isWhole {frame : Bytes} {b : Block} (h : ReadFrom frame b) : b.IsWhole := by
  obtain ⟨blockType, typeSpecific, third, fourth, body, rfl, hlen, -⟩ := h.exists_parts
  have hb := h.length
  simp only [List.length_cons] at hb
  exact isWhole_of_length_mod_four (by omega)

theorem ReadFrom.exact {frame : Bytes} {b : Block} (h : ReadFrom frame b) : b.Exact := by
  obtain ⟨blockType, typeSpecific, third, fourth, body, rfl, hlen, rfl⟩ := h.exists_parts
  obtain ⟨-, -, t, -, hblock⟩ | ⟨-, -, hblock⟩ | ⟨-, -, m, hm, hblock⟩ | ⟨hunknown, hblock⟩ :=
    ofParts_cases blockType typeSpecific (Nat.le_of_eq hlen.symm)
  · rw [hblock]
    trivial
  · rw [hblock]
    trivial
  · rw [hblock]
    exact VoipMetrics.adjustmentRate_le_of_readBody? hm
  · have hwords : body.length / 4 = (Bytes.word16 third fourth).toNat := by omega
    rw [hblock]
    show ¬Interpreted blockType (body.length / 4)
    rw [hwords]
    exact hunknown

end Block

theorem ExtendedReport.isWhole_exact_of_readBody {body : Bytes} {x : ExtendedReport}
    (h : readBody body = .ok x) :
    (∀ b ∈ x.blocks, b.IsWhole) ∧ (∀ b ∈ x.blocks, b.Exact) ∧
      x.written = headerLength + body.length := by
  obtain ⟨frames, rfl, -, hrow⟩ := exists_frames_of_readBody h
  refine ⟨fun b hb => ?_, fun b hb => ?_, ?_⟩
  · obtain ⟨frame, hframe⟩ := exists_readFrom_of_mem hrow hb
    exact hframe.isWhole
  · obtain ⟨frame, hframe⟩ := exists_readFrom_of_mem hrow hb
    exact hframe.exact
  · rw [written, total_length_of_readFrom hrow, List.length_append, Ssrc.length_encode,
      headerLength]
    omega

/-! ## Messages -/

theorem Header.bytes_le (h : Header) : h.bytes ≤ 65536 * 4 := by
  have hfield := h.wordsLessOne.toNat_lt
  simp only [bytes, words]
  omega

namespace Message

/-- What is read can be written, and is read as itself again. -/
theorem encodable_exact_of_read {bytes : Bytes} {m : Message} (h : read bytes = .ok m) :
    m.Encodable ∧ m.Exact := by
  obtain ⟨header, -, -, hbody⟩ := read_eq_ok_iff.1 h
  cases m with
  | senderReport r => exact ⟨trivial, SenderReport.packetsLost_lt_of_readBody hbody⟩
  | receiverReport r => exact ⟨trivial, ReceiverReport.packetsLost_lt_of_readBody hbody⟩
  | extendedReport x =>
    obtain ⟨hwhole, hexact, hwritten⟩ := ExtendedReport.isWhole_exact_of_readBody hbody
    refine ⟨⟨?_, hwhole⟩, hexact⟩
    have hheader := header.bytes_le
    rw [ExtendedReport.written_eq_of_whole hwhole, List.length_drop, List.length_take,
      headerLength] at hwritten
    omega
  | goodbye g => exact ⟨trivial, trivial⟩

end Message

namespace Compound

theorem encodable_exact_of_mem_read {bytes : Bytes} {m : Message} (h : m ∈ read bytes) :
    m.Encodable ∧ m.Exact := by
  fun_induction read bytes with
  | case1 bytes sub rest hnext packet hpacket message hmessage ih =>
    rcases List.mem_cons.1 h with rfl | hrest
    · exact Message.encodable_exact_of_read hmessage
    · exact ih hrest
  | case2 bytes sub rest hnext packet hpacket e hmessage ih => exact ih h
  | case3 => cases h
  | case4 => cases h

/-- Messages that could have been read are the same again when they are written and read. -/
theorem read_flatMap_encode {messages : List Message} (h : ∀ m ∈ messages, m.Encodable ∧ m.Exact) :
    read (messages.flatMap Message.encode) = messages := by
  have hread := read_flatMap_encode_append (fun m hm => (h m hm).1) []
  have hnil : read [] = [] := read_of_next?_none rfl
  rw [hnil, List.append_nil, List.append_nil] at hread
  rw [hread]
  exact map_asRead_eq_self_iff.2 fun m hm => (h m hm).2

/-- The lists of messages that survive the round trip. -/
theorem roundTrip_iff {messages : List Message} :
    (∃ bytes, write messages = .ok bytes ∧ read bytes = messages) ↔
      ∀ m ∈ messages, m.Encodable ∧ m.Exact := by
  constructor
  · rintro ⟨bytes, -, hread⟩ m hm
    rw [← hread] at hm
    exact encodable_exact_of_mem_read hm
  · intro h
    exact ⟨_, write_eq fun m hm => (h m hm).1, read_flatMap_encode h⟩

end Compound

end Rtcp

end MediaTransport
