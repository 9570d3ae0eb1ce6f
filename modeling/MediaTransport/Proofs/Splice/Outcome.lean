import MediaTransport.Proofs.Splice.Placement

/-!
# What becomes of an insertion

The report alone tells what becomes of an insertion, whatever the packet (`insertReport_outcome`).
Where all its blocks are whole words it goes in. Otherwise it is longer than the gap that is made
for it, so that its writers run out of the gap. Only a list of delays at the end stops there: the
gap is closed again if its header still was inside (`EndsCut`). Every other writer reaches outside
of the gap.

The header of a report that goes in counts its words modulo 65536, so that it declares the bytes
that went in where there are at most 65536 words.
-/

namespace MediaTransport

open Rtcp

namespace Rtcp

/-! ## Blocks that do not add up -/

theorem Block.length_delays (items : List ReceiverDelay) :
    (delays items).length = headerLength + ReceiverDelay.size * items.length := rfl

namespace ExtendedReport

theorem length_le_total_of_mem {blocks : List Block} {b : Block} (hb : b ∈ blocks) :
    b.length ≤ Bytes.total (blocks.map Block.length) := by
  obtain ⟨before, after, rfl⟩ := List.append_of_mem hb
  rw [List.map_append, Bytes.total_append, List.map_cons, Bytes.total_cons]
  omega

theorem total_words_le (blocks : List Block) :
    Bytes.total (blocks.map fun b => b.length / 4) * 4 ≤ Bytes.total (blocks.map Block.length) := by
  induction blocks with
  | nil => exact Nat.le_refl _
  | cons b blocks ih =>
    simp only [List.map_cons, Bytes.total_cons]
    omega

theorem isWhole_of_total_eq {blocks : List Block}
    (h : Bytes.total (blocks.map Block.length) =
      Bytes.total (blocks.map fun b => b.length / 4) * 4) :
    ∀ b ∈ blocks, b.IsWhole := by
  induction blocks with
  | nil => exact nofun
  | cons b blocks ih =>
    have hle := total_words_le blocks
    simp only [List.map_cons, Bytes.total_cons] at h
    exact List.forall_mem_cons.2
      ⟨Block.isWhole_of_length_mod_four (by omega), ih (by omega)⟩

/-- What is written is what is declared if there is no block that is not whole words. -/
theorem written_eq_iff {x : ExtendedReport} :
    x.written = x.words * 4 ↔ ∀ b ∈ x.blocks, b.IsWhole := by
  refine ⟨fun h => isWhole_of_total_eq ?_, written_eq_of_whole⟩
  simp only [written, words] at h
  omega

theorem words_mul_le_written (x : ExtendedReport) : x.words * 4 ≤ x.written := by
  have hle := total_words_le x.blocks
  simp only [written, words]
  omega

/-- What a report with one uninterpreted block declares and writes. -/
theorem words_written_unknown (ssrc : Ssrc) {b : UnknownBlock} {n : Nat} (h : b.body.length = n) :
    words ⟨ssrc, [.unknown b]⟩ = 2 + (4 + n) / 4 ∧ written ⟨ssrc, [.unknown b]⟩ = 8 + (4 + n) := by
  subst h
  exact ⟨rfl, rfl⟩

/-- Whether the declared length ends in a list of delays that is the last block, behind the header
of the list. -/
def EndsCut (x : ExtendedReport) : Prop :=
  ∃ items, x.blocks.getLast? = some (.delays items) ∧
    x.written ≤ x.words * 4 + ReceiverDelay.size * items.length

/-! ## Writers that run out of the gap -/

theorem not_ok_error (fault : Fault) : ¬∃ out : Bytes, Except.error fault = .ok out := by
  rintro ⟨out, hout⟩
  cases hout

theorem overlayBlocks_cons_ok_iff_of_append {b : Block} {here : Bytes}
    (hhere : here.length = b.length) (blocks : List Block) (later : Bytes) :
    (∃ out, overlayBlocks (b :: blocks) (here ++ later) = .ok out) ↔
      ∃ out, overlayBlocks blocks later = .ok out := by
  simp only [overlayBlocks, overlayBlock_append hhere, bind, Except.bind]
  cases overlayBlocks blocks later with
  | error fault => exact iff_of_false (not_ok_error fault) (not_ok_error fault)
  | ok rest => exact iff_of_true ⟨_, rfl⟩ ⟨_, rfl⟩

/-- Where a block does not fit, writing ends well if it is a list of delays, the header of which
fits, and nothing follows it. -/
theorem overlayBlocks_cons_ok_iff_of_short {b : Block} {bytes : Bytes}
    (hshort : bytes.length < b.length) (blocks : List Block) :
    (∃ out, overlayBlocks (b :: blocks) bytes = .ok out) ↔
      blocks = [] ∧ Block.headerLength ≤ bytes.length ∧ ∃ items, b = .delays items := by
  cases b with
  | referenceTime t | voipMetrics m | unknown b =>
    refine iff_of_false ?_ ?_
    · rw [overlayBlocks, Block.overlayBlock_plain_of_short (fun _ h => Block.noConfusion h) hshort]
      exact not_ok_error _
    · rintro ⟨-, -, items, hdelays⟩
      cases hdelays
  | delays items =>
    by_cases hheader : Block.headerLength ≤ bytes.length
    · obtain ⟨here, body, rfl, hhere, -⟩ :=
        @Bytes.exists_append bytes Block.headerLength (bytes.length - Block.headerLength) (by omega)
      rw [List.length_append, hhere, Block.length_delays] at hshort
      rw [overlayBlocks,
        Block.overlayBlock_delays_of_short hhere (Nat.lt_of_add_lt_add_left hshort)]
      cases blocks with
      | nil => exact iff_of_true ⟨_, rfl⟩ ⟨rfl, hheader, items, rfl⟩
      | cons next blocks => exact iff_of_false (not_ok_error _) fun h => List.cons_ne_nil _ _ h.1
    · refine iff_of_false ?_ fun h => hheader h.2.1
      rw [overlayBlocks, Block.overlayBlock_delays_of_header (Nat.lt_of_not_le hheader)]
      exact not_ok_error _

/-- Over fewer bytes than they are long, blocks are written only up to a list of delays at the
end. -/
theorem overlayBlocks_ok_iff {blocks : List Block} {bytes : Bytes}
    (hlong : bytes.length < Bytes.total (blocks.map Block.length)) :
    (∃ out, overlayBlocks blocks bytes = .ok out) ↔
      ∃ items, blocks.getLast? = some (.delays items) ∧
        Bytes.total (blocks.map Block.length) ≤
          bytes.length + ReceiverDelay.size * items.length := by
  induction blocks generalizing bytes with
  | nil => exact absurd hlong (Nat.not_lt_zero _)
  | cons b blocks ih =>
    rw [List.map_cons, Bytes.total_cons] at hlong ⊢
    by_cases hfits : b.length ≤ bytes.length
    · obtain ⟨here, later, rfl, hhere, hlater⟩ :=
        @Bytes.exists_append bytes b.length (bytes.length - b.length) (by omega)
      rw [List.length_append, hhere] at hlong ⊢
      have hrest : later.length < Bytes.total (blocks.map Block.length) :=
        Nat.lt_of_add_lt_add_left hlong
      have hne : blocks ≠ [] := by
        rintro rfl
        exact absurd hrest (Nat.not_lt_zero _)
      rw [overlayBlocks_cons_ok_iff_of_append hhere, ih hrest, List.getLast?_cons_of_ne_nil hne]
      simp only [Nat.add_assoc, Nat.add_le_add_iff_left]
    · have hshort : bytes.length < b.length := Nat.lt_of_not_le hfits
      rw [overlayBlocks_cons_ok_iff_of_short hshort]
      cases blocks with
      | nil =>
        rw [List.getLast?_singleton, List.map_nil, Bytes.total_nil, Nat.add_zero]
        constructor
        · rintro ⟨-, hheader, items, rfl⟩
          exact ⟨items, rfl, Nat.add_le_add_right hheader _⟩
        · rintro ⟨items, hlast, hle⟩
          cases hlast
          exact ⟨rfl, Nat.le_of_add_le_add_right hle, items, rfl⟩
      | cons next blocks =>
        refine iff_of_false (fun h => List.cons_ne_nil _ _ h.1) ?_
        rintro ⟨items, hlast, hle⟩
        -- The block that does not fit and the list behind it are longer than the bytes and the
        -- list's items.
        rw [List.getLast?_cons_cons] at hlast
        have hlen := length_le_total_of_mem (List.mem_of_getLast? hlast)
        rw [Block.length_delays] at hlen
        omega

/-- Into the gap of its declared length, a report that is longer is written if it ends cut. -/
theorem overlay_ok_iff {x : ExtendedReport} (hsize : x.written ≠ x.words * 4) {old : Bytes}
    (hold : old.length = x.words * 4) : (∃ out, x.overlay old = .ok out) ↔ x.EndsCut := by
  have hle := x.words_mul_le_written
  have hdeclared : x.words * 4 = 8 + Bytes.total (x.blocks.map fun b => b.length / 4) * 4 := by
    simp only [words]
    omega
  rw [hdeclared] at hold hsize hle
  obtain ⟨here, gap, rfl, hhere, hgap⟩ := Bytes.exists_append hold
  have hlong : gap.length < Bytes.total (x.blocks.map Block.length) := by
    simp only [written] at hsize hle
    omega
  have hcut : x.EndsCut ↔ ∃ out, overlayBlocks x.blocks gap = .ok out := by
    simp only [overlayBlocks_ok_iff hlong, EndsCut, hdeclared, hgap, written, Nat.add_assoc,
      Nat.add_le_add_iff_left]
  rw [hcut]
  simp only [overlay, Bytes.take?_front hhere, bind, Except.bind]
  cases overlayBlocks x.blocks gap with
  | error fault => exact iff_of_false (not_ok_error fault) (not_ok_error fault)
  | ok rest => exact iff_of_true ⟨_, rfl⟩ ⟨_, rfl⟩

/-- What a writer can run into is the end of the bytes. -/
theorem fault_overlayBlocks {blocks : List Block} {bytes : Bytes} {fault : Fault}
    (h : overlayBlocks blocks bytes = .error fault) : fault = .outOfRange := by
  induction blocks generalizing bytes with
  | nil => cases h
  | cons b blocks ih =>
    simp only [overlayBlocks, bind, Except.bind] at h
    split at h
    next error hblock =>
      cases h
      unfold overlayBlock at hblock
      split at hblock <;> split at hblock <;> cases hblock <;> rfl
    next =>
      split at h
      next =>
        split at h
        next error hblocks =>
          cases h
          exact ih hblocks
        next => cases h
      next =>
        split at h
        next => cases h
        next =>
          cases h
          rfl

theorem fault_overlay {x : ExtendedReport} {bytes : Bytes} {fault : Fault}
    (h : x.overlay bytes = .error fault) : fault = .outOfRange := by
  simp only [overlay, bind, Except.bind] at h
  split at h
  next =>
    split at h
    next error hblocks =>
      cases h
      exact fault_overlayBlocks hblocks
    next => cases h
  next =>
    cases h
    rfl

/-! ## The declared length -/

theorem bytes_header (x : ExtendedReport) : x.header.bytes = ((x.words - 1) % 65536 + 1) * 4 := by
  simp only [header, Header.bytes, Header.words, UInt16.toNat_ofNat']

/-- The declared length is that of the report if the length field has room for it. -/
theorem bytes_header_eq_iff (x : ExtendedReport) :
    x.header.bytes = x.words * 4 ↔ x.words ≤ 65536 := by
  have hpos : 2 ≤ x.words := Nat.le_add_right ..
  rw [bytes_header]
  omega

/-- Where a report was put down that is no shorter than it declares, the declared length is
found. -/
theorem length?_encode_append {x : ExtendedReport} (hsize : x.written = x.words * 4)
    (rest : Bytes) : Compound.length? (x.encode ++ rest) = some x.header.bytes := by
  have hpos : 2 ≤ x.words := Nat.le_add_right ..
  have hbody := x.length_encodeBody
  have hheader := x.bytes_header
  obtain ⟨body, more, hparts, hlen, -⟩ := @Bytes.exists_append x.encodeBody
    (x.header.bytes - headerLength) (x.encodeBody.length - (x.header.bytes - headerLength))
    (by simp only [headerLength] at hbody ⊢; omega)
  have hsub : Compound.IsSubPacket (x.header.encode ++ body) := by
    refine Header.isSubPacket_encode_append _ ?_
    simp only [headerLength] at hlen ⊢
    omega
  rw [encode_eq, hparts, List.append_assoc, List.append_assoc, ← List.append_assoc,
    Compound.length?, hsub.next?_append]
  simp only [Option.map_some, List.length_append, Header.length_encode, hlen]
  simp only [headerLength]
  congr 1
  omega

end ExtendedReport

end Rtcp

/-! ## Insertions -/

namespace Packet

open Compound

/-- A report that is longer than its gap is taken out of it again if it ends cut, and reaches
outside of it if not. -/
theorem insertReport_of_ne {x : ExtendedReport} (hsize : x.written ≠ x.words * 4) (p : Packet) :
    (x.EndsCut → ∃ q, p.insertReport x = .ok (q, false)) ∧
      (¬x.EndsCut → p.insertReport x = .error .outOfRange) := by
  obtain ⟨front, rest, hparts, hplace⟩ := exists_insertionPoint p.bytes x.ssrc
  obtain ⟨pre, taken, behind, hbuffer, hpre, htaken⟩ := p.buffer_grow (x.words * 4)
  have hgap : ((rest ++ taken).take (x.words * 4)).length = x.words * 4 := by
    rw [List.length_take, List.length_append]
    omega
  rw [hparts] at hbuffer
  rw [insertReport_eq hparts hplace hbuffer hpre htaken, ← ExtendedReport.overlay_ok_iff hsize hgap]
  cases hoverlay : x.overlay ((rest ++ taken).take (x.words * 4)) with
  | error fault =>
    obtain rfl := ExtendedReport.fault_overlay hoverlay
    refine ⟨?_, fun _ => rfl⟩
    rintro ⟨out, hout⟩
    cases hout
  | ok out =>
    refine ⟨fun _ => ?_, fun h => absurd ⟨out, rfl⟩ h⟩
    simp only [Except.map, if_neg hsize]
    exact ⟨_, rfl⟩

/-- A report of whole words goes in and declares the bytes that went in, modulo 65536 words. Any
other report is taken out of the packet again if it ends cut, and reaches outside of the gap if
not. -/
theorem insertReport_outcome (p : Packet) (x : ExtendedReport) :
    p.insertInPlace x = p.insertReport x ∧
      ((∀ b ∈ x.blocks, b.IsWhole) →
        ∃ q front back, p.insertReport x = .ok (q, true) ∧ subPackets p.bytes = front ++ back ∧
          insertionPoint p.bytes x.ssrc = front.flatten.length ∧
          q.bytes = front.flatten ++ x.encode ++ (back.flatten ++ trailing p.bytes) ∧
          x.encode.length = x.words * 4 ∧
          length? (q.bytes.drop (insertionPoint p.bytes x.ssrc)) = some x.header.bytes ∧
          (x.header.bytes = x.words * 4 ↔ x.words ≤ 65536) ∧
          (x.words ≤ 65536 → subPackets q.bytes = front ++ x.encode :: back)) ∧
      (¬(∀ b ∈ x.blocks, b.IsWhole) → x.EndsCut →
        ∃ q, p.insertReport x = .ok (q, false) ∧ q.bytes = p.bytes ∧ q.len = p.len) ∧
      (¬(∀ b ∈ x.blocks, b.IsWhole) → ¬x.EndsCut → p.insertReport x = .error .outOfRange) := by
  rw [← ExtendedReport.written_eq_iff]
  refine ⟨p.insertInPlace_eq x, fun hsize => ?_, fun hsize hcut => ?_, fun hsize => ?_⟩
  · obtain ⟨front, back, hsubs, -, -, hparts, hplace⟩ := exists_parts p.bytes x.ssrc
    obtain ⟨q, hinsert, hbytes⟩ := bytes_insertReport hsize hparts hplace
    refine ⟨q, front, back, hinsert, hsubs, hplace, ?_, ?_, ?_, x.bytes_header_eq_iff,
      fun hwords => ?_⟩
    · rw [hbytes, List.append_assoc]
    · rw [x.length_encode, hsize]
    · rw [hbytes, hplace, List.drop_left]
      exact ExtendedReport.length?_encode_append hsize _
    · have hencodable : (Message.extendedReport x).Encodable :=
        ⟨hwords, ExtendedReport.written_eq_iff.1 hsize⟩
      have hplaced : q.bytes = (front ++ x.encode :: back).flatten ++ trailing p.bytes := by
        rw [hbytes, List.flatten_append, List.flatten_cons, List.append_assoc, List.append_assoc]
      rw [hplaced]
      refine subPackets_flatten_append (fun sub hsub => ?_) (next?_trailing p.bytes)
      rw [List.mem_append, List.mem_cons] at hsub
      rcases hsub with hfront | rfl | hback
      · exact isSubPacket_of_mem_subPackets (hsubs ▸ List.mem_append_left back hfront)
      · exact hencodable.isSubPacket_encode
      · exact isSubPacket_of_mem_subPackets (hsubs ▸ List.mem_append_right front hback)
  · obtain ⟨q, hinsert⟩ := (insertReport_of_ne hsize p).1 hcut
    have hbytes := bytes_of_not_inserted hinsert
    exact ⟨q, hinsert, hbytes, by rw [← q.length_bytes, hbytes, p.length_bytes]⟩
  · exact (insertReport_of_ne hsize p).2

/-- A receiver report of nothing. -/
def quiet : Packet := .ofBuffer [0x80, 201, 0, 1, 0, 0, 0, 1] 0 8

/-- A byte over, and a list of delays that is cut in its second item. -/
def cutReport : ExtendedReport :=
  ⟨⟨1⟩, [.unknown ⟨99, 0, [1]⟩, .delays [⟨⟨6⟩, 1, 2⟩, ⟨⟨7⟩, 3, 4⟩]]⟩

/-- A byte over, and nothing behind it. -/
def oddReport : ExtendedReport := ⟨⟨1⟩, [.unknown ⟨99, 0, [1]⟩]⟩

/-- One word more than the length field has room for. -/
def oversizedReport : ExtendedReport := ⟨⟨1⟩, [.unknown ⟨99, 0, List.replicate 262136 0⟩]⟩

theorem insertionPoint_quiet (ssrc : Ssrc) : insertionPoint quiet.bytes ssrc = 8 := by
  have hsubs : subPackets quiet.bytes = [quiet.bytes] :=
    @subPackets_flatten_append [quiet.bytes] (by decide) [] (by decide)
  rw [insertionPoint, hsubs]
  rfl

theorem insertReport_outcome_quiet :
    (∃ q, quiet.insertReport wholeReport = .ok (q, true) ∧ length? (q.bytes.drop 8) = some 20) ∧
      (∃ q, quiet.insertReport cutReport = .ok (q, false) ∧ q.bytes = quiet.bytes) ∧
      quiet.insertReport oddReport = .error .outOfRange := by
  refine ⟨?_, ?_, ?_⟩
  · obtain ⟨-, hwhole, -, -⟩ := insertReport_outcome quiet wholeReport
    obtain ⟨q, front, back, hinsert, -, -, -, -, hlength, -, -⟩ := hwhole (by decide)
    rw [insertionPoint_quiet] at hlength
    exact ⟨q, hinsert, hlength⟩
  · obtain ⟨-, -, hcut, -⟩ := insertReport_outcome quiet cutReport
    obtain ⟨q, hinsert, hbytes, -⟩ := hcut (by decide) ⟨_, rfl, by decide⟩
    exact ⟨q, hinsert, hbytes⟩
  · obtain ⟨-, -, -, hodd⟩ := insertReport_outcome quiet oddReport
    refine hodd (by decide) ?_
    rintro ⟨items, hlast, -⟩
    cases hlast

/-- An insertion that fails is not always reported: the writer of an odd report reaches outside of
the gap, and one that is too long goes in and declares a header alone. -/
theorem insertReport_not_reported :
    quiet.insertReport oddReport = .error .outOfRange ∧
      ∃ q, quiet.insertReport oversizedReport = .ok (q, true) ∧
        q.bytes.length = quiet.bytes.length + 262148 ∧ length? (q.bytes.drop 8) = some 4 := by
  have hodd : ¬oddReport.EndsCut := by
    rintro ⟨items, hlast, -⟩
    cases hlast
  -- The body is only measured: to write it out would take as many steps as it has bytes.
  have hbody : (List.replicate 262136 (0 : UInt8)).length = 262136 := List.length_replicate
  have hparts := @ExtendedReport.words_written_unknown ⟨1⟩ ⟨99, 0, List.replicate 262136 0⟩ _ hbody
  have hwords : oversizedReport.words = 65537 := hparts.1
  have hwritten : oversizedReport.written = 262148 := hparts.2
  have hsize : oversizedReport.written = oversizedReport.words * 4 := by rw [hwords, hwritten]
  obtain ⟨q, hinsert, hbytes⟩ := @bytes_insertReport quiet oversizedReport hsize quiet.bytes []
    (List.append_nil _).symm (insertionPoint_quiet _)
  refine ⟨(insertReport_of_ne (by decide) quiet).2 hodd, q, hinsert, ?_, ?_⟩
  · rw [hbytes, List.append_nil, List.length_append, ExtendedReport.length_encode, hwritten]
  · have hdrop : q.bytes.drop 8 = oversizedReport.encode ++ [] := by
      rw [hbytes]
      exact List.drop_left' rfl
    rw [hdrop, ExtendedReport.length?_encode_append hsize, ExtendedReport.bytes_header, hwords]

end Packet

end MediaTransport
