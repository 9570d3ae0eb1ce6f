import Mathlib.Data.List.TakeWhile
import MediaTransport.Proofs.Access.Splice

/-!
# An insertion is a splice

An insertion looks for its place in the raw bytes, and moves the packet about in its buffer to make
room. What comes of it is said without either. The place is in front of the first goodbye that lists
the originator or that cannot be parsed, and behind the last sub-packet where there is none: the
scan of the raw bytes and the parser agree on goodbyes (`barred_eq_farewell`). The packet has the
written report at that place and is otherwise as it was, or, where the report is not as long as it
declares, it is as it was (`insertReport_splices`).
-/

namespace MediaTransport

open Rtcp

/-! ## Goodbyes -/

namespace Rtcp.Compound

/-- Whether `sub` is a goodbye that lists `ssrc`, or one that cannot be parsed. -/
def farewell (ssrc : Ssrc) (sub : Bytes) : Bool :=
  sub[1]? == some PacketType.goodbye.toByte &&
    match Message.parse sub with
    | .ok (.goodbye g) => g.sources.toList.contains ssrc
    | .ok _ => false
    | .error _ => true

/-- The goodbye in a packet with the header of one: that of the sources that its raw bytes list. -/
theorem parse_of_goodbye {sub : Bytes} {header : Header} (hheader : Header.read sub = .ok header)
    (htype : header.type = .goodbye) :
    Message.parse sub = ((Goodbye.readBody header.count.val
      ((sub.take header.bytes).drop headerLength)).map Message.goodbye).mapError .malformed := by
  have hinterprets : Message.interprets header.type = true := by rw [htype]; rfl
  rw [Message.parse_of_interprets hheader hinterprets]
  simp only [Message.read, hheader, bind, Except.bind, htype]
  cases Goodbye.readBody header.count.val ((sub.take header.bytes).drop headerLength) with
  | error e => rfl
  | ok g => rfl

/-- The raw scan of goodbyes bars what the parser makes out to be a farewell. -/
theorem barred_eq_farewell (ssrc : Ssrc) (sub : Bytes) : barred ssrc sub = farewell ssrc sub := by
  unfold barred farewell
  by_cases hbyte : sub[1]? = some PacketType.goodbye.toByte
  · refine congrArg (_ && ·) ?_
    cases hheader : Header.read sub with
    | error e =>
      unfold Goodbye.lists Message.parse
      rw [hheader]
      rfl
    | ok header =>
      have htype : header.type = .goodbye :=
        PacketType.toByte_inj.1
          (Option.some.inj ((Header.getElem?_of_read hheader).symm.trans hbyte))
      rw [parse_of_goodbye hheader htype]
      simp only [Goodbye.lists, hheader, Goodbye.readBody, bind, Except.bind]
      cases hmany : Bytes.many? Ssrc.read? header.count.val
        ((sub.take header.bytes).drop headerLength) with
      | none => rfl
      | some found =>
        obtain ⟨sources, rest⟩ := found
        -- The count has five bits, so that a list never has too few places for it.
        have hfits : sources.length ≤ maxItems := by
          rw [Bytes.length_of_many? hmany]
          exact Nat.le_of_lt_succ header.count.isLt
        have hlist : ReportList.ofList? sources = some ⟨sources, hfits⟩ := dif_pos hfits
        simp only [hlist]
        rfl
  · rw [beq_false_of_ne hbyte, Bool.false_and, Bool.false_and]

/-- The insertion point parts the sub-packets in front of the first farewell, if there is one. -/
theorem exists_parts (bytes : Bytes) (ssrc : Ssrc) :
    ∃ front back, subPackets bytes = front ++ back ∧ (∀ sub ∈ front, farewell ssrc sub = false) ∧
      (∀ sub ∈ back.head?, farewell ssrc sub = true) ∧
      bytes = front.flatten ++ (back.flatten ++ trailing bytes) ∧
      insertionPoint bytes ssrc = front.flatten.length := by
  have hbarred : (fun sub => !barred ssrc sub) = fun sub => !farewell ssrc sub :=
    funext fun sub => congrArg not (barred_eq_farewell ssrc sub)
  have hparts := insertionPoint_parts bytes ssrc
  rw [hbarred] at hparts
  refine ⟨_, _, List.takeWhile_append_dropWhile.symm, ?_, ?_, hparts, ?_⟩
  · intro sub hsub
    simpa only [Bool.not_eq_true'] using List.mem_takeWhile_imp hsub
  · intro sub hsub
    have hfirst := List.head?_dropWhile_not (fun sub => !farewell ssrc sub) (subPackets bytes)
    rw [Option.mem_def.1 hsub] at hfirst
    simpa only [Bool.not_eq_false'] using hfirst
  · rw [insertionPoint, hbarred]

/-- The parts are the only ones there are. -/
theorem takeWhile_append {ssrc : Ssrc} {front back : List Bytes}
    (hfront : ∀ sub ∈ front, farewell ssrc sub = false)
    (hback : ∀ sub ∈ back.head?, farewell ssrc sub = true) :
    ((front ++ back).takeWhile fun sub => !farewell ssrc sub) = front := by
  have hpass : ∀ sub ∈ front, (!farewell ssrc sub) = true := by
    intro sub hsub
    rw [hfront sub hsub, Bool.not_false]
  rw [List.takeWhile_append_of_pos hpass]
  cases back with
  | nil => rw [List.takeWhile_nil, List.append_nil]
  | cons sub back =>
    have hstop : farewell ssrc sub = true := hback sub rfl
    rw [List.takeWhile_cons, hstop, Bool.not_true, if_neg Bool.false_ne_true, List.append_nil]

end Rtcp.Compound

/-! ## The splice -/

namespace Packet

open Compound

/-- An insertion that is said to have been made has put in what writing the report gives. -/
theorem bytes_of_inserted {p q : Packet} {x : ExtendedReport} (h : p.insertReport x = .ok (q, true))
    {front rest : Bytes} (hbytes : p.bytes = front ++ rest)
    (hplace : insertionPoint p.bytes x.ssrc = front.length) :
    Compound.write [.extendedReport x] = .ok x.encode ∧ q.bytes = front ++ (x.encode ++ rest) := by
  have hsize : x.written = x.words * 4 := by
    refine Decidable.byContradiction fun hne => ?_
    exact absurd (bytes_insertReport_of_ne hne h).1 (by decide)
  obtain ⟨r, hinsert, hr⟩ := bytes_insertReport hsize hbytes hplace
  rw [h] at hinsert
  cases hinsert
  refine ⟨?_, hr⟩
  have hwritten : ∀ m ∈ [Message.extendedReport x], m.written = m.words * 4 := by
    intro m hm
    rw [List.mem_singleton.1 hm]
    exact hsize
  have hwrite := write_of_written_eq hwritten
  rwa [List.flatMap_singleton] at hwrite

/-- One that is said not to have been made has changed no byte. -/
theorem bytes_of_not_inserted {p q : Packet} {x : ExtendedReport}
    (h : p.insertReport x = .ok (q, false)) : q.bytes = p.bytes := by
  by_cases hsize : x.written = x.words * 4
  · obtain ⟨r, hinsert, -⟩ := bytes_insertReport hsize (insertionPoint_parts p.bytes x.ssrc) rfl
    rw [h] at hinsert
    cases hinsert
  · exact (bytes_insertReport_of_ne hsize h).2

/-- An insertion in the buffer of any packet finds the first farewell, if there is one, and puts in
front of it what writing the report gives, or leaves the bytes of the packet as they are. It puts in
every report of whole words. -/
theorem insertReport_splices (p : Packet) (x : ExtendedReport) :
    p.insertInPlace x = p.insertReport x ∧
      ∃ front back, subPackets p.bytes = front ++ back ∧
        (∀ sub ∈ front, farewell x.ssrc sub = false) ∧
        (∀ sub ∈ back.head?, farewell x.ssrc sub = true) ∧
        (∀ q, p.insertReport x = .ok (q, true) →
          ∃ written, Compound.write [.extendedReport x] = .ok written ∧
            q.bytes = p.bytes.take front.flatten.length ++ written ++
              p.bytes.drop front.flatten.length) ∧
        (∀ q, p.insertReport x = .ok (q, false) → q.bytes = p.bytes ∧ q.len = p.len) ∧
        ((∀ b ∈ x.blocks, b.IsWhole) → ∃ q, p.insertReport x = .ok (q, true)) := by
  obtain ⟨front, back, hsubs, hfront, hback, hparts, hplace⟩ := exists_parts p.bytes x.ssrc
  refine ⟨p.insertInPlace_eq x, front, back, hsubs, hfront, hback, ?_, ?_, ?_⟩
  · intro q hq
    obtain ⟨hwrite, hbytes⟩ := bytes_of_inserted hq hparts hplace
    have htake : p.bytes.take front.flatten.length = front.flatten := by
      rw [hparts, List.take_left]
    have hdrop : p.bytes.drop front.flatten.length = back.flatten ++ trailing p.bytes := by
      rw [hparts, List.drop_left, ← hparts]
    refine ⟨x.encode, hwrite, ?_⟩
    rw [htake, hdrop, hbytes, List.append_assoc]
  · intro q hq
    have hbytes := bytes_of_not_inserted hq
    refine ⟨hbytes, ?_⟩
    rw [← q.length_bytes, hbytes, p.length_bytes]
  · intro hwhole
    have hsize := ExtendedReport.written_eq_of_whole hwhole
    obtain ⟨q, hinsert, -⟩ := bytes_insertReport hsize (insertionPoint_parts p.bytes x.ssrc) rfl
    exact ⟨q, hinsert⟩

def reportOfFive : Bytes := [0x80, 201, 0, 1, 0, 0, 0, 5]

def goodbyeOfSix : Bytes := [0x81, 203, 0, 1, 0, 0, 0, 6]

/-- A goodbye that counts a source and has none. -/
def goodbyeOfNone : Bytes := [0x81, 203, 0, 0]

/-- A report and two goodbyes of which the second cannot be parsed, behind a byte of headroom and in
front of bytes that are no sub-packet. -/
def closing : Packet :=
  .ofBuffer (0 :: (reportOfFive ++ goodbyeOfSix ++ goodbyeOfNone ++ [8, 9])) 1 22

def wholeReport : ExtendedReport := ⟨⟨5⟩, [.referenceTime ⟨7⟩]⟩

/-- A byte over in one block, and then a list of delays that is cut where the declared length
ends. -/
def unevenReport : ExtendedReport := ⟨⟨5⟩, [.unknown ⟨99, 0, [1]⟩, .delays [⟨⟨6⟩, 1, 2⟩]]⟩

theorem insertReport_splices_closing :
    (∃ q, closing.insertReport wholeReport = .ok (q, true) ∧
      q.bytes = reportOfFive ++ goodbyeOfSix ++ wholeReport.encode ++ goodbyeOfNone ++ [8, 9]) ∧
      ∃ q, closing.insertReport unevenReport = .ok (q, false) ∧ q.bytes = closing.bytes := by
  have hsubs : subPackets closing.bytes = [reportOfFive, goodbyeOfSix, goodbyeOfNone] :=
    @subPackets_flatten_append [reportOfFive, goodbyeOfSix, goodbyeOfNone] (by decide) [8, 9]
      (by decide)
  refine ⟨?_, ?_⟩
  · obtain ⟨-, front, back, hparts, hfront, hback, hinserted, -, hwhole⟩ :=
      insertReport_splices closing wholeReport
    obtain ⟨q, hq⟩ := hwhole (by decide)
    obtain ⟨written, hwrite, hbytes⟩ := hinserted q hq
    have hplace : front = [reportOfFive, goodbyeOfSix] := by
      rw [← takeWhile_append hfront hback, ← hparts, hsubs]
      decide
    have hencode : Compound.write [.extendedReport wholeReport] = .ok wholeReport.encode :=
      (bytes_of_inserted hq (insertionPoint_parts closing.bytes wholeReport.ssrc) rfl).1
    rw [hencode] at hwrite
    cases hwrite
    refine ⟨q, hq, ?_⟩
    rw [hbytes, hplace]
    decide
  · obtain ⟨-, front, back, -, -, -, -, hleft, -⟩ := insertReport_splices closing unevenReport
    have hplace : insertionPoint closing.bytes unevenReport.ssrc = 16 := by
      rw [insertionPoint, hsubs]
      decide
    have hinsert : ∃ q, closing.insertReport unevenReport = .ok (q, false) := by
      unfold insertReport
      rw [hplace]
      exact ⟨_, rfl⟩
    obtain ⟨q, hq⟩ := hinsert
    exact ⟨q, hq, (hleft q hq).1⟩

end Packet

end MediaTransport
