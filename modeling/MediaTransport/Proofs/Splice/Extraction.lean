import MediaTransport.Proofs.Codec.Message
import MediaTransport.Rtcp.Splice

/-!
# Taking extended reports out of a packet

An extraction takes out exactly the sub-packets that are readable extended reports, in order, and
closes the gaps (`bytes_extractReports`, `reports_extractReports`). A well-formed report is
readable, and read as it was written (`extendedReport?_encode`).
-/

namespace MediaTransport

open Rtcp

namespace Rtcp

/-- A report that can be written and is the same again when it is read. -/
structure ExtendedReport.WellFormed (x : ExtendedReport) : Prop extends x.Encodable where
  exact : ∀ b ∈ x.blocks, b.Exact

instance (x : ExtendedReport) : Decidable x.WellFormed :=
  decidable_of_iff (x.Encodable ∧ ∀ b ∈ x.blocks, b.Exact)
    ⟨fun h => ⟨h.1, h.2⟩, fun h => ⟨h.toEncodable, h.exact⟩⟩

namespace Compound

theorem extendedReport?_encode {x : ExtendedReport} (hx : x.WellFormed) :
    extendedReport? x.encode = some x := by
  have hencodable : (Message.extendedReport x).Encodable := hx.toEncodable
  have hexact : (Message.extendedReport x).Exact := hx.exact
  have htype : x.encode[1]? = some PacketType.extendedReport.toByte :=
    Header.getElem?_encode_one x.header x.encodeBody
  have hheader := x.header.read_encode x.encodeBody
  have hmessage := hencodable.read_encode []
  rw [List.append_nil, Message.asRead_eq_self_iff.2 hexact] at hmessage
  have hparse : Message.parse x.encode = .ok (.extendedReport x) := by
    unfold Message.parse
    rw [← x.encode_eq] at hheader
    rw [hheader]
    show (Message.read (Message.extendedReport x).encode).mapError ReadError.malformed = _
    rw [hmessage]
    rfl
  unfold extendedReport? Message.extendedReport?
  rw [if_pos htype, hparse]

/-- The sub-packets that an extraction leaves. -/
def kept (subs : List Bytes) : List Bytes :=
  subs.filter fun sub => (extendedReport? sub).isNone

theorem kept_append (subs more : List Bytes) : kept (subs ++ more) = kept subs ++ kept more :=
  List.filter_append ..

end Compound

end Rtcp

namespace Packet

open Compound

/-- An extraction over `subs` takes the reports among them out from between what stands in front of
them and what follows. -/
theorem extractFrom_eq {subs : List Bytes} {p : Packet} {front rest : Bytes}
    (hp : p.bytes = front ++ (subs.flatten ++ rest)) :
    (p.extractFrom front.length subs).1.bytes = front ++ ((kept subs).flatten ++ rest) ∧
      (p.extractFrom front.length subs).2 = subs.filterMap extendedReport? := by
  induction subs generalizing p front with
  | nil => exact ⟨hp, rfl⟩
  | cons sub subs ih =>
    rw [List.flatten_cons, List.append_assoc] at hp
    cases hx : extendedReport? sub with
    | none =>
      have hnext : p.bytes = (front ++ sub) ++ (subs.flatten ++ rest) := by
        rw [hp, List.append_assoc]
      obtain ⟨hbytes, hreports⟩ := ih hnext
      rw [List.length_append] at hbytes hreports
      simp only [extractFrom, hx]
      refine ⟨?_, ?_⟩
      · rw [hbytes]
        simp only [kept, List.filter_cons, hx, Option.isNone_none, if_true, List.flatten_cons,
          List.append_assoc]
      · rw [hreports, List.filterMap_cons, hx]
    | some x =>
      have hcut : (p.cut front.length sub.length).bytes = front ++ (subs.flatten ++ rest) := by
        rw [bytes_cut, hp, List.take_left, ← List.append_assoc, ← List.length_append,
          List.drop_left]
      obtain ⟨hbytes, hreports⟩ := ih hcut
      simp only [extractFrom, hx]
      refine ⟨?_, ?_⟩
      · rw [hbytes]
        simp only [kept, List.filter_cons, hx, Option.isNone_some, Bool.false_eq_true, if_false]
      · rw [hreports, List.filterMap_cons, hx]

theorem bytes_extractReports (p : Packet) :
    p.extractReports.1.bytes = (kept (subPackets p.bytes)).flatten ++ trailing p.bytes := by
  have hp : p.bytes = [] ++ ((subPackets p.bytes).flatten ++ trailing p.bytes) :=
    (flatten_walk p.bytes).symm
  exact (extractFrom_eq hp).1

theorem reports_extractReports (p : Packet) :
    p.extractReports.2 = (subPackets p.bytes).filterMap extendedReport? := by
  have hp : p.bytes = [] ++ ((subPackets p.bytes).flatten ++ trailing p.bytes) :=
    (flatten_walk p.bytes).symm
  exact (extractFrom_eq hp).2

/-- Without a readable extended report, an extraction changes nothing. -/
theorem bytes_extractReports_of_none {p : Packet}
    (h : ∀ sub ∈ subPackets p.bytes, extendedReport? sub = none) :
    p.extractReports.1.bytes = p.bytes := by
  have hkept : kept (subPackets p.bytes) = subPackets p.bytes := by
    refine List.filter_eq_self.2 fun sub hsub => ?_
    rw [h sub hsub]
    rfl
  rw [bytes_extractReports, hkept, flatten_walk]

end Packet

end MediaTransport
