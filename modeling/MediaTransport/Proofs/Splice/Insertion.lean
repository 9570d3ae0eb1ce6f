import MediaTransport.Proofs.Codec.Writing
import MediaTransport.Rtcp.Splice

/-!
# Putting extended reports into a packet

However the packet has to grow for it, an insertion puts the encoding of the report between two of
its sub-packets and moves nothing else (`walk_insertReport`). Encoded reports bar no report, so that
after any number of insertions each report stands in front of the first sub-packet that bars it,
behind those of the same originator that were put in before (`placeAll`).
-/

namespace MediaTransport

open Rtcp

namespace Rtcp.Compound

/-- The insertion point parts the sub-packets, and is as far in as those in front of it are long. -/
theorem insertionPoint_parts (bytes : Bytes) (ssrc : Ssrc) :
    bytes = ((subPackets bytes).takeWhile fun sub => !barred ssrc sub).flatten ++
      (((subPackets bytes).dropWhile fun sub => !barred ssrc sub).flatten ++ trailing bytes) := by
  rw [← List.append_assoc, ← List.flatten_append, List.takeWhile_append_dropWhile, flatten_walk]

theorem exists_insertionPoint (bytes : Bytes) (ssrc : Ssrc) :
    ∃ front rest, bytes = front ++ rest ∧ insertionPoint bytes ssrc = front.length :=
  ⟨_, _, insertionPoint_parts bytes ssrc, rfl⟩

end Rtcp.Compound

namespace Packet

/-! ## The region in the buffer -/

theorem buffer_eq (p : Packet) :
    p.buffer = p.buffer.take p.offset ++ (p.bytes ++ p.buffer.drop p.stop) := by
  have hbehind : (p.buffer.drop p.offset).drop p.len = p.buffer.drop p.stop := by
    rw [List.drop_drop]
    rfl
  rw [← hbehind, bytes, List.take_append_drop, List.take_append_drop]

theorem length_take_offset (p : Packet) : (p.buffer.take p.offset).length = p.offset := by
  have := p.region_le
  rw [List.length_take]
  omega

theorem bytes_ofBuffer {front bytes behind : Bytes} {offset len : Nat}
    (hfront : front.length = offset) (hbytes : bytes.length = len) :
    (ofBuffer (front ++ (bytes ++ behind)) offset len).bytes = bytes := by
  have hoffset : min offset (front ++ (bytes ++ behind)).length = offset := by
    rw [List.length_append]
    omega
  have hlen : min len ((front ++ (bytes ++ behind)).length - offset) = len := by
    simp only [List.length_append]
    omega
  simp only [ofBuffer, Packet.bytes, hoffset, hlen]
  rw [List.drop_left' hfront, List.take_left' hbytes]

@[simp] theorem bytes_grow (p : Packet) (extra : Nat) : (p.grow extra).1.bytes = p.bytes := by
  have hlen := p.length_bytes
  unfold grow
  split
  next => rfl
  next =>
    split
    next => exact List.take_left' hlen
    next => exact List.take_left' hlen

/-- After growing there is room behind the region. -/
theorem le_room_grow (p : Packet) (extra : Nat) : extra ≤ (p.grow extra).1.room := by
  unfold grow
  split
  next h => exact h
  next =>
    split
    next =>
      simp only [room, List.length_append, length_bytes, List.length_replicate]
      omega
    next =>
      simp only [room, List.length_append, length_bytes, List.length_drop]
      omega

@[simp] theorem len_grow (p : Packet) (extra : Nat) : (p.grow extra).1.len = p.len := by
  rw [← length_bytes, bytes_grow, length_bytes]

/-- The buffer of a grown packet: what is in front of the region, the packet's bytes, the bytes that
it has grown by, and those behind them. -/
theorem buffer_grow (p : Packet) (extra : Nat) :
    ∃ front taken behind, (p.grow extra).1.buffer = front ++ (p.bytes ++ (taken ++ behind)) ∧
      front.length = (p.grow extra).1.offset ∧ taken.length = extra := by
  have hbytes := p.bytes_grow extra
  have hroom := p.le_room_grow extra
  generalize (p.grow extra).1 = g at hbytes hroom ⊢
  have hbehind : (g.buffer.drop g.stop).length = extra + (g.room - extra) := by
    rw [List.length_drop, stop]
    unfold room at hroom ⊢
    omega
  obtain ⟨taken, behind, hsplit, htaken, -⟩ := Bytes.exists_append hbehind
  refine ⟨g.buffer.take g.offset, taken, behind, ?_, g.length_take_offset, htaken⟩
  rw [← hbytes, ← hsplit]
  exact g.buffer_eq

/-! ## One insertion -/

/-- What an insertion makes of the buffer of a grown packet, which is `pre`, the two parts of the
packet's bytes, the bytes that it has grown by and those behind them. The report goes into the gap
between the parts; one that is not as long as it declares is closed over again, and leaves its end
behind the packet. -/
theorem insertReport_eq {p : Packet} {x : ExtendedReport} {front rest pre taken behind : Bytes}
    (hbytes : p.bytes = front ++ rest)
    (hplace : Compound.insertionPoint p.bytes x.ssrc = front.length)
    (hbuffer : (p.grow (x.words * 4)).1.buffer = pre ++ (front ++ rest ++ (taken ++ behind)))
    (hpre : pre.length = (p.grow (x.words * 4)).1.offset) (htaken : taken.length = x.words * 4) :
    p.insertReport x = (x.overlay ((rest ++ taken).take (x.words * 4))).map fun gap =>
      if x.written = x.words * 4 then
        (ofBuffer (pre ++ (front ++ (gap ++ rest) ++ behind)) (p.grow (x.words * 4)).1.offset
          (p.len + x.words * 4), true)
      else
        (ofBuffer (pre ++ (front ++ rest ++ ((gap ++ rest).drop rest.length ++ behind)))
          (p.grow (x.words * 4)).1.offset p.len, false) := by
  have hlen : p.len = front.length + rest.length := by
    rw [← p.length_bytes, hbytes, List.length_append]
  have hfront : (p.grow (x.words * 4)).1.buffer.splitAt
      ((p.grow (x.words * 4)).1.offset + front.length) =
        (pre ++ front, rest ++ (taken ++ behind)) := by
    rw [hbuffer, ← hpre, ← List.length_append, List.splitAt_eq, List.append_assoc,
      ← List.append_assoc, List.take_left, List.drop_left]
  have hmoved : (rest ++ (taken ++ behind)).splitAt (p.len - front.length) =
      (rest, taken ++ behind) := by
    rw [hlen, Nat.add_sub_cancel_left, List.splitAt_eq, List.take_left, List.drop_left]
  have hafter : (rest ++ (taken ++ behind)).drop (p.len - front.length + x.words * 4) = behind := by
    rw [hlen, Nat.add_sub_cancel_left, ← htaken, ← List.length_append, ← List.append_assoc,
      List.drop_left]
  have hgap : (rest ++ (taken ++ behind)).take (x.words * 4) =
      (rest ++ taken).take (x.words * 4) := by
    rw [← List.append_assoc]
    refine List.take_append_of_le_length ?_
    rw [List.length_append]
    omega
  simp only [insertReport, hplace, len_grow, hfront, hmoved, hafter, hgap, bind, Except.bind]
  cases x.overlay ((rest ++ taken).take (x.words * 4)) with
  | error fault => rfl
  | ok gap =>
    simp only [Except.map, pure, Except.pure, List.append_assoc]
    split <;> rfl

/-- A report that is as long as it declares goes in at its insertion point, whatever the packet's
buffer. -/
theorem bytes_insertReport {p : Packet} {x : ExtendedReport} (hsize : x.written = x.words * 4)
    {front rest : Bytes} (hbytes : p.bytes = front ++ rest)
    (hplace : Compound.insertionPoint p.bytes x.ssrc = front.length) :
    ∃ q, p.insertReport x = .ok (q, true) ∧ q.bytes = front ++ (x.encode ++ rest) := by
  have hlen : p.len = front.length + rest.length := by
    rw [← p.length_bytes, hbytes, List.length_append]
  obtain ⟨pre, taken, behind, hbuffer, hpre, htaken⟩ := p.buffer_grow (x.words * 4)
  rw [hbytes] at hbuffer
  have hover : x.overlay ((rest ++ taken).take (x.words * 4)) = .ok x.encode := by
    have hold : ((rest ++ taken).take (x.words * 4)).length = x.written := by
      rw [List.length_take, List.length_append]
      omega
    have hwritten := ExtendedReport.overlay_append hold []
    rwa [List.append_nil, List.append_nil] at hwritten
  have hinsert := insertReport_eq hbytes hplace hbuffer hpre htaken
  rw [hover] at hinsert
  simp only [Except.map, if_pos hsize] at hinsert
  refine ⟨_, hinsert, bytes_ofBuffer hpre ?_⟩
  simp only [List.length_append, ExtendedReport.length_encode]
  omega

/-- Of a report that is longer than it declares nothing goes in. -/
theorem bytes_insertReport_of_ne {p q : Packet} {x : ExtendedReport} {inserted : Bool}
    (hsize : x.written ≠ x.words * 4) (h : p.insertReport x = .ok (q, inserted)) :
    inserted = false ∧ q.bytes = p.bytes := by
  have hparts := Compound.insertionPoint_parts p.bytes x.ssrc
  obtain ⟨pre, taken, behind, hbuffer, hpre, htaken⟩ := p.buffer_grow (x.words * 4)
  rw [hparts] at hbuffer
  rw [insertReport_eq hparts rfl hbuffer hpre htaken] at h
  cases hover : x.overlay _ with
  | error fault =>
    rw [hover] at h
    cases h
  | ok gap =>
    rw [hover] at h
    simp only [Except.map, if_neg hsize, Except.ok.injEq, Prod.mk.injEq] at h
    obtain ⟨rfl, rfl⟩ := h
    refine ⟨rfl, ?_⟩
    rw [← hparts]
    exact bytes_ofBuffer hpre p.length_bytes

end Packet

/-! ## One insertion among the sub-packets -/

namespace Rtcp.Compound

/-- The sub-packets after `x` was put in front of the first of them that bars it. -/
def place (x : ExtendedReport) (subs : List Bytes) : List Bytes :=
  (subs.takeWhile fun sub => !barred x.ssrc sub) ++
    x.encode :: subs.dropWhile fun sub => !barred x.ssrc sub

/-- Nothing has to stand behind an encoded report: it is no goodbye. -/
theorem barred_encode (ssrc : Ssrc) (x : ExtendedReport) : barred ssrc x.encode = false := by
  have htype : x.encode[1]? = some PacketType.extendedReport.toByte :=
    Header.getElem?_encode_one x.header x.encodeBody
  unfold barred
  rw [htype]
  rfl

theorem isSubPacket_of_mem_place {x : ExtendedReport} (hx : x.Encodable) {subs : List Bytes}
    (hsubs : ∀ sub ∈ subs, IsSubPacket sub) : ∀ sub ∈ place x subs, IsSubPacket sub := by
  have hreport : IsSubPacket x.encode :=
    @Message.Encodable.isSubPacket_encode (.extendedReport x) hx
  intro sub hsub
  rcases List.mem_append.1 hsub with hfront | hrest
  · exact hsubs sub ((List.takeWhile_sublist _).mem hfront)
  · rcases List.mem_cons.1 hrest with rfl | hback
    · exact hreport
    · exact hsubs sub ((List.dropWhile_sublist _).mem hback)

end Rtcp.Compound

namespace Packet

open Compound

/-- A report that can be written always goes in, between two sub-packets. -/
theorem walk_insertReport (p : Packet) {x : ExtendedReport} (hx : x.Encodable) :
    ∃ q, p.insertReport x = .ok (q, true) ∧
      walk q.bytes = (place x (subPackets p.bytes), trailing p.bytes) := by
  have hsize := ExtendedReport.written_eq_of_whole hx.whole
  obtain ⟨q, hinsert, hbytes⟩ := bytes_insertReport hsize (insertionPoint_parts p.bytes x.ssrc) rfl
  refine ⟨q, hinsert, ?_⟩
  have hplaced : q.bytes = (place x (subPackets p.bytes)).flatten ++ trailing p.bytes := by
    rw [hbytes, place]
    simp only [List.flatten_append, List.flatten_cons, List.append_assoc]
  rw [hplaced]
  refine walk_flatten_append (isSubPacket_of_mem_place hx ?_) (next?_trailing _)
  exact fun sub hsub => isSubPacket_of_mem_subPackets hsub

/-- Inserting the reports `xs` into `p`, one after the other, puts every one of them in and ends
with `q`. -/
inductive InsertsAll : Packet → List ExtendedReport → Packet → Prop
  | nil {p : Packet} : InsertsAll p [] p
  | cons {p q r : Packet} {x : ExtendedReport} {xs : List ExtendedReport} :
    p.insertReport x = .ok (q, true) → InsertsAll q xs r → InsertsAll p (x :: xs) r

end Packet

/-! ## Many insertions -/

namespace Rtcp.Compound

/-- The sub-packets after all of `xs` were put in: in front of each sub-packet stand the reports
that it bars and no earlier one does. -/
def placeAll : List ExtendedReport → List Bytes → List Bytes
  | xs, [] => xs.map ExtendedReport.encode
  | xs, sub :: subs =>
    (xs.filter fun x => barred x.ssrc sub).map ExtendedReport.encode ++
      sub :: placeAll (xs.filter fun x => !barred x.ssrc sub) subs

theorem placeAll_nil (subs : List Bytes) : placeAll [] subs = subs := by
  induction subs with
  | nil => rfl
  | cons sub subs ih => exact congrArg (sub :: ·) ih

theorem placeAll_ne_nil (xs : List ExtendedReport) {subs : List Bytes} (hsubs : subs ≠ []) :
    placeAll xs subs ≠ [] := by
  cases subs with
  | nil => exact absurd rfl hsubs
  | cons sub subs =>
    rw [placeAll]
    exact List.append_ne_nil_of_right_ne_nil _ (List.cons_ne_nil _ _)

/-- A report passes those that were put in before it. -/
theorem place_map_encode_append (x : ExtendedReport) (xs : List ExtendedReport)
    (subs : List Bytes) :
    place x (xs.map ExtendedReport.encode ++ subs) =
      xs.map ExtendedReport.encode ++ place x subs := by
  have hpass : ∀ sub ∈ xs.map ExtendedReport.encode, (!barred x.ssrc sub) = true := by
    intro sub hsub
    obtain ⟨y, -, rfl⟩ := List.mem_map.1 hsub
    rw [barred_encode]
    rfl
  unfold place
  rw [List.takeWhile_append_of_pos hpass, List.dropWhile_append_of_pos hpass, List.append_assoc]

theorem place_cons (x : ExtendedReport) (sub : Bytes) (subs : List Bytes) :
    place x (sub :: subs) =
      if barred x.ssrc sub then x.encode :: sub :: subs else sub :: place x subs := by
  unfold place
  by_cases h : barred x.ssrc sub
  · simp [h]
  · simp [h]

/-- One more insertion is one more report at the end of the list. -/
theorem place_placeAll (x : ExtendedReport) (xs : List ExtendedReport) (subs : List Bytes) :
    place x (placeAll xs subs) = placeAll (xs ++ [x]) subs := by
  induction subs generalizing xs with
  | nil =>
    have h := place_map_encode_append x xs []
    rw [List.append_nil] at h
    rw [placeAll, h, placeAll, List.map_append]
    rfl
  | cons sub subs ih =>
    rw [placeAll, place_map_encode_append, place_cons, placeAll, List.filter_append,
      List.filter_append]
    by_cases h : barred x.ssrc sub
    · simp [h]
    · simp [h, ih]

end Rtcp.Compound

namespace Packet

open Compound

theorem exists_insertsAll {xs : List ExtendedReport} (hxs : ∀ x ∈ xs, x.Encodable) {p : Packet}
    {done : List ExtendedReport} {subs : List Bytes} {rest : Bytes}
    (hp : walk p.bytes = (placeAll done subs, rest)) :
    ∃ q, p.InsertsAll xs q ∧ walk q.bytes = (placeAll (done ++ xs) subs, rest) := by
  induction xs generalizing p done with
  | nil =>
    refine ⟨p, .nil, ?_⟩
    rw [List.append_nil]
    exact hp
  | cons x xs ih =>
    obtain ⟨q, hinsert, hq⟩ := p.walk_insertReport (hxs x List.mem_cons_self)
    have hplaced : walk q.bytes = (placeAll (done ++ [x]) subs, rest) := by
      unfold subPackets trailing at hq
      rw [hq, hp, place_placeAll]
    obtain ⟨r, hall, hr⟩ := ih (fun y hy => hxs y (List.mem_cons_of_mem _ hy)) hplaced
    refine ⟨r, .cons hinsert hall, ?_⟩
    rw [hr, List.append_assoc]
    rfl

/-- Reports that can be written all go in, and end up where they are placed. -/
theorem walk_insertsAll (p : Packet) {xs : List ExtendedReport} (hxs : ∀ x ∈ xs, x.Encodable) :
    ∃ q, p.InsertsAll xs q ∧
      walk q.bytes = (placeAll xs (subPackets p.bytes), trailing p.bytes) := by
  have hp : walk p.bytes = (placeAll [] (subPackets p.bytes), trailing p.bytes) := by
    rw [placeAll_nil]
    rfl
  exact exists_insertsAll hxs hp

end Packet

end MediaTransport
