import MediaTransport.Proofs.Access.Scan
import MediaTransport.Proofs.Access.Writing
import MediaTransport.Proofs.Splice.Extraction

/-!
# Splicing in place

Insertion and extraction move bytes within the packet's buffer and keep positions in it over a
resize. Growing leaves room for exactly the bytes that an insertion moves up and writes, wherever
the packet stands in its buffer and whether or not it has to move (`Packet.insertInPlace_eq`); an
extraction keeps to the region, which shrinks as it goes (`Packet.extractInPlace_zero`).
-/

namespace MediaTransport.Packet

open Bytes Rtcp

/-- A region inside the buffer is not clamped. -/
theorem ofBuffer_eq {buffer : Bytes} {offset len : Nat} (h : offset + len ≤ buffer.length) :
    ofBuffer buffer offset len = ⟨buffer, offset, len, h⟩ := by
  have hoffset : min offset buffer.length = offset := by omega
  have hlen : min len (buffer.length - offset) = len := by omega
  simp only [ofBuffer, hoffset, hlen]

theorem eq_of_region {p q : Packet} (hbuffer : p.buffer = q.buffer) (hoffset : p.offset = q.offset)
    (hlen : p.len = q.len) : p = q := by
  cases p
  cases q
  cases hbuffer
  cases hoffset
  cases hlen
  rfl

/-- The bytes of the packet, as a part of the buffer. -/
def slice (p : Packet) : Except Fault Bytes :=
  Bytes.slice p.buffer p.offset (p.offset + p.len)

theorem slice_eq (p : Packet) : p.slice = .ok p.bytes := by
  have h := p.holds_bytes.slice_eq
  rwa [length_bytes] at h

/-! ## Growing -/

/-- Makes room for `extra` bytes behind the region, and says how far the region moved. -/
def growInPlace (p : Packet) (extra : Nat) : Except Fault (Packet × Int) := do
  let room ← difference (← difference p.buffer.length p.offset) p.len
  if extra ≤ room then
    return (p, 0)
  else if p.buffer.length < p.len + extra then
    let buffer ← overlayAt 0 (← p.slice) (List.replicate (p.len + extra) 0)
    return (ofBuffer buffer 0 p.len, -p.offset)
  else
    let buffer ← copyWithin p.buffer p.offset (p.offset + p.len) 0
    return (ofBuffer buffer 0 p.len, -p.offset)

theorem overlayAt_replicate (p : Packet) (extra : Nat) :
    overlayAt 0 p.bytes (List.replicate (p.len + extra) 0) =
      .ok (p.bytes ++ List.replicate extra 0) := by
  have hlen : p.bytes.length ≤ (List.replicate (p.len + extra) (0 : UInt8)).length := by
    rw [length_bytes, List.length_replicate]
    exact Nat.le_add_right _ _
  rw [overlayAt_zero hlen, length_bytes, List.drop_replicate, Nat.add_sub_cancel_left]

theorem copyWithin_front (p : Packet) :
    copyWithin p.buffer p.offset (p.offset + p.len) 0 = .ok (p.bytes ++ p.buffer.drop p.len) := by
  have hregion := p.region_le
  have hover : overlayAt 0 p.bytes p.buffer = .ok (p.bytes ++ p.buffer.drop p.bytes.length) :=
    overlayAt_zero (by rw [length_bytes]; omega)
  rw [length_bytes] at hover
  have hslice := p.slice_eq
  unfold slice at hslice
  unfold copyWithin
  rw [hslice]
  exact hover

theorem growInPlace_eq (p : Packet) (extra : Nat) : p.growInPlace extra = .ok (p.grow extra) := by
  have hregion := p.region_le
  unfold growInPlace
  rw [difference_eq (by omega)]
  show (difference (p.buffer.length - p.offset) p.len >>= _) = _
  rw [difference_eq (by omega)]
  show (if extra ≤ p.room then _ else _) = _
  unfold grow
  split
  next => rfl
  next =>
    split
    next =>
      rw [slice_eq]
      show (overlayAt 0 p.bytes _ >>= _) = _
      rw [overlayAt_replicate]
      exact congrArg (fun q => Except.ok (q, -(p.offset : Int))) (ofBuffer_eq _)
    next =>
      rw [copyWithin_front]
      exact congrArg (fun q => Except.ok (q, -(p.offset : Int))) (ofBuffer_eq _)

/-- A position in the region stays in its place there when it is moved along. -/
theorem relocate_grow (p : Packet) (extra k : Nat) :
    relocate (p.offset + k) (p.grow extra).2 = (p.grow extra).1.offset + k := by
  unfold relocate grow
  split
  next => simp only; omega
  next =>
    split
    next => simp only; omega
    next => simp only; omega

/-! ## Insertion -/

/-- Puts `x` into the packet, and says whether it did. -/
def insertInPlace (p : Packet) (x : ExtendedReport) : Except Fault (Packet × Bool) := do
  let size := x.words * 4
  let place ← p.fetchInsertion x.ssrc
  let (grown, delta) ← p.growInPlace size
  let place := relocate place delta
  let stop := grown.offset + grown.len
  let buffer ← copyWithin grown.buffer place stop (place + size)
  let (gap, written) ← x.store (← Bytes.slice buffer place (place + size))
  let buffer ← overlayAt place gap buffer
  if written = size then
    return (ofBuffer buffer grown.offset (grown.len + size), true)
  else
    let buffer ← copyWithin buffer (place + size) (stop + size) place
    return (ofBuffer buffer grown.offset grown.len, false)

/-- Whatever a report declares, in place and out of place it is put in, or taken out again,
alike. -/
theorem insertInPlace_eq (p : Packet) (x : ExtendedReport) :
    p.insertInPlace x = p.insertReport x := by
  obtain ⟨front, rest, hbytes, hplace⟩ := Compound.exists_insertionPoint p.bytes x.ssrc
  obtain ⟨pre, taken, behind, hbuffer, hpre, htaken⟩ := p.buffer_grow (x.words * 4)
  rw [hbytes] at hbuffer
  have hlen : p.len = front.length + rest.length := by
    rw [← p.length_bytes, hbytes, List.length_append]
  have hat : (pre ++ front).length = (p.grow (x.words * 4)).1.offset + front.length := by
    rw [List.length_append, hpre]
  -- The gap is as long as the report declares, whatever still stands in it.
  have hgap : ((rest ++ taken).take (x.words * 4)).length = x.words * 4 := by
    rw [List.length_take, List.length_append]
    omega
  have hcopy := @copyWithin_up (pre ++ front) rest taken behind _ _ _ hat rfl htaken
  rw [Nat.add_assoc, ← hlen] at hcopy
  have hslice :=
    @Bytes.slice_eq (pre ++ front) ((rest ++ taken).take (x.words * 4)) (rest ++ behind)
      _ (_ + x.words * 4) hat (by rw [hgap])
  rw [insertReport_eq hbytes hplace hbuffer hpre htaken]
  simp only [List.append_assoc] at hbuffer hcopy hslice ⊢
  unfold insertInPlace
  simp only [fetchInsertion_eq, hplace, growInPlace_eq, bind, Except.bind, relocate_grow, len_grow,
    hbuffer, hcopy, hslice, ExtendedReport.store_eq_overlay]
  cases hoverlay : x.overlay ((rest ++ taken).take (x.words * 4)) with
  | error fault => rfl
  | ok gap =>
    have hsize : gap.length = x.words * 4 := (ExtendedReport.length_overlay hoverlay).trans hgap
    have hover := @overlayAt_append (pre ++ front) ((rest ++ taken).take (x.words * 4)) gap
      (rest ++ behind) _ hat (hgap.trans hsize.symm)
    have hback := @copyWithin_down (pre ++ front) gap rest behind _
      ((p.grow (x.words * 4)).1.offset + p.len + x.words * 4) _ hat rfl (by omega)
    rw [hsize] at hback
    simp only [List.append_assoc] at hover hback
    simp only [Except.map, hover, hback]
    split
    next => rfl
    next => rfl

/-! ## Extraction -/

/-- The extended report that the sub-packet at position `off` of the buffer can be read as. -/
def fetchReportAt (p : Packet) (off length : Nat) : Except Fault (Option ExtendedReport) := do
  if (← byteAt p.buffer (off + 1)) ≠ PacketType.extendedReport.toByte then
    return none
  else
    match ← (Message.fetchParse (← Bytes.slice p.buffer off (off + length))).run with
    | .ok (.extendedReport x) => return some x
    | _ => return none

/-- The sub-packet at position `start` of the region: how long it is, and the extended report that
it can be read as. -/
def fetchReport (p : Packet) (start : Nat) :
    Except Fault (Option (Nat × Option ExtendedReport)) := do
  match ← Compound.fetchPlace p.buffer (p.offset + start) (p.offset + p.len) with
  | some length => return some (length, ← p.fetchReportAt (p.offset + start) length)
  | none => return none

/-- Moves what follows the `length` bytes at position `start` of the region over them. -/
def closeGap (p : Packet) (start length : Nat) : Except Fault Packet := do
  let buffer ← copyWithin p.buffer (p.offset + start + length) (p.offset + p.len) (p.offset + start)
  return (ofBuffer buffer p.offset p.len).shrink length

theorem length_pos_of_fetchReport {p : Packet} {start length : Nat} {x? : Option ExtendedReport}
    (h : p.fetchReport start = .ok (some (length, x?))) : 0 < length := by
  unfold fetchReport at h
  cases hplace : Compound.fetchPlace p.buffer (p.offset + start) (p.offset + p.len) with
  | error fault =>
    rw [hplace] at h
    cases h
  | ok place =>
    rw [hplace] at h
    cases place with
    | none => cases h
    | some found =>
      simp only [bind, Except.bind] at h
      split at h
      next => cases h
      next =>
        cases h
        exact Compound.length_pos_of_fetchPlace hplace

theorem len_closeGap_le {p q : Packet} {start length : Nat} (h : p.closeGap start length = .ok q) :
    q.len ≤ p.len - length := by
  unfold closeGap at h
  cases hcopy : copyWithin p.buffer (p.offset + start + length) (p.offset + p.len)
    (p.offset + start) with
  | error fault =>
    rw [hcopy] at h
    cases h
  | ok buffer =>
    rw [hcopy] at h
    cases h
    exact Nat.sub_le_sub_right (Nat.min_le_left _ _) _

/-- Takes the readable extended reports from position `start` of the region on out of the packet. -/
def extractInPlace (p : Packet) (start : Nat) : Except Fault (Packet × List ExtendedReport) :=
  if start < p.len then
    match _hfetch : p.fetchReport start with
    | .ok none => return (p, [])
    | .ok (some (length, none)) => p.extractInPlace (start + length)
    | .ok (some (length, some x)) =>
      match _hclose : p.closeGap start length with
      | .ok q => do
        let (q, xs) ← q.extractInPlace start
        return (q, x :: xs)
      | .error fault => throw fault
    | .error fault => throw fault
  else
    return (p, [])
termination_by p.len - start
decreasing_by
  · have := length_pos_of_fetchReport _hfetch
    omega
  · have := length_pos_of_fetchReport _hfetch
    have := len_closeGap_le _hclose
    omega

theorem fetchReportAt_eq {p : Packet} {off : Nat} {sub : Bytes}
    (hlen : Rtcp.headerLength ≤ sub.length) (h : Holds p.buffer off sub) :
    p.fetchReportAt off sub.length = .ok (Compound.extendedReport? sub) := by
  obtain ⟨type, htype⟩ : ∃ type, sub[1]? = some type :=
    ⟨_, List.getElem?_eq_getElem (Nat.lt_of_lt_of_le (by decide) hlen)⟩
  unfold fetchReportAt Compound.extendedReport?
  rw [h.byteAt_eq htype, h.slice_eq, htype]
  show (if type ≠ PacketType.extendedReport.toByte then _ else
    (Message.fetchParse sub).run >>= _) = _
  rw [Message.fetchParse_eq]
  by_cases hreport : type = PacketType.extendedReport.toByte
  · rw [if_neg (not_not_intro hreport), if_pos (congrArg some hreport), Message.extendedReport?]
    cases Message.parse sub with
    | error e => rfl
    | ok m => cases m <;> rfl
  · rw [if_pos hreport, if_neg fun h => hreport (Option.some.inj h)]
    rfl

/-- What stands behind some first bytes of the packet is looked at up to the end of the packet. -/
theorem fetchPlace_eq {p : Packet} {front rest : Bytes} (hp : p.bytes = front ++ rest) :
    Compound.fetchPlace p.buffer (p.offset + front.length) (p.offset + p.len) =
      .ok (Compound.length? rest) := by
  have hholds := p.holds_bytes
  have hstop : p.offset + p.len = p.offset + front.length + rest.length := by
    rw [← p.length_bytes, hp, List.length_append, Nat.add_assoc]
  rw [hp] at hholds
  unfold Compound.fetchPlace
  rw [hstop, hholds.right.slice_eq]
  exact Compound.fetchLength_eq rest

theorem fetchReport_eq {p : Packet} {front sub rest : Bytes} (hsub : Compound.IsSubPacket sub)
    (hp : p.bytes = front ++ (sub ++ rest)) :
    p.fetchReport front.length = .ok (some (sub.length, Compound.extendedReport? sub)) := by
  have hholds := p.holds_bytes
  rw [hp] at hholds
  unfold fetchReport
  rw [fetchPlace_eq hp, Compound.length?, hsub.next?_append]
  show (p.fetchReportAt (p.offset + front.length) sub.length >>= _) = _
  rw [fetchReportAt_eq (Compound.eq_append_of_next? hsub).2 hholds.right.left]
  rfl

theorem fetchReport_of_next?_none {p : Packet} {front rest : Bytes}
    (hrest : Compound.next? rest = none) (hp : p.bytes = front ++ rest) :
    p.fetchReport front.length = .ok none := by
  unfold fetchReport
  rw [fetchPlace_eq hp, Compound.length?, hrest]
  rfl

theorem bytes_cut_append {p : Packet} {front sub rest : Bytes}
    (hp : p.bytes = front ++ (sub ++ rest)) :
    (p.cut front.length sub.length).bytes = front ++ rest := by
  rw [bytes_cut, hp, List.take_left, ← List.append_assoc, ← List.length_append, List.drop_left]

theorem buffer_parts {p : Packet} {front sub rest : Bytes} (hp : p.bytes = front ++ (sub ++ rest)) :
    p.buffer = p.buffer.take p.offset ++ front ++ (sub ++ (rest ++ p.buffer.drop p.stop)) := by
  have h := p.buffer_eq
  rw [hp] at h
  simpa only [List.append_assoc] using h

/-- Where bytes have been cut out, the end of what stood there before is left behind the region. -/
theorem buffer_cut {p : Packet} {front sub rest : Bytes} (hp : p.bytes = front ++ (sub ++ rest)) :
    (p.cut front.length sub.length).buffer = p.buffer.take p.offset ++ front ++
      (rest ++ ((sub ++ rest).drop rest.length ++ p.buffer.drop p.stop)) := by
  have hcut : (p.cut front.length sub.length).buffer = p.buffer.take p.offset ++
      (p.cut front.length sub.length).bytes ++
      p.buffer.drop (p.offset + (p.cut front.length sub.length).bytes.length) := by
    rw [bytes_cut]
    rfl
  have hfront : (p.buffer.take p.offset ++ front).length = p.offset + front.length := by
    rw [List.length_append, length_take_offset]
  have hbehind : p.buffer.drop (p.offset + (front ++ rest).length) =
      (sub ++ rest).drop rest.length ++ p.buffer.drop p.stop := by
    have hdrop := @List.drop_length_add_append _ (p.buffer.take p.offset ++ front)
      (sub ++ (rest ++ p.buffer.drop p.stop)) rest.length
    rw [← buffer_parts hp, hfront, ← List.append_assoc sub, List.drop_append_of_le_length (by
      rw [List.length_append]; omega), Nat.add_assoc, ← List.length_append] at hdrop
    exact hdrop
  rw [hcut, bytes_cut_append hp, hbehind]
  simp only [List.append_assoc]

theorem closeGap_eq {p : Packet} {front sub rest : Bytes} (hp : p.bytes = front ++ (sub ++ rest)) :
    p.closeGap front.length sub.length = .ok (p.cut front.length sub.length) := by
  have hlen : p.len = front.length + sub.length + rest.length := by
    rw [← p.length_bytes, hp, List.length_append, List.length_append, Nat.add_assoc]
  have hfront : (p.buffer.take p.offset ++ front).length = p.offset + front.length := by
    rw [List.length_append, length_take_offset]
  have hcopy := @copyWithin_down _ sub rest (p.buffer.drop p.stop) _ (p.offset + p.len) _ hfront rfl
    (by omega)
  rw [← buffer_parts hp, ← buffer_cut hp] at hcopy
  have hcutLen : (p.cut front.length sub.length).len = p.len - sub.length := by
    rw [← length_bytes, bytes_cut_append hp, List.length_append]
    omega
  -- The gap is closed before the region shrinks, so that the old region has to fit what is left.
  have hsame : p.offset + p.len ≤ (p.cut front.length sub.length).buffer.length := by
    have hregion := p.region_le
    have hlength := congrArg List.length (buffer_parts hp)
    rw [buffer_cut hp]
    simp only [List.length_append, List.length_drop] at hlength ⊢
    omega
  unfold closeGap
  rw [hcopy]
  show Except.ok ((ofBuffer _ p.offset p.len).shrink sub.length) = _
  rw [ofBuffer_eq hsame]
  exact congrArg Except.ok (eq_of_region rfl rfl hcutLen.symm)

theorem extractInPlace_eq {subs : List Bytes} {p : Packet} {front rest : Bytes}
    (hsubs : ∀ sub ∈ subs, Compound.IsSubPacket sub) (hrest : Compound.next? rest = none)
    (hp : p.bytes = front ++ (subs.flatten ++ rest)) :
    p.extractInPlace front.length = .ok (p.extractFrom front.length subs) := by
  induction subs generalizing p front with
  | nil =>
    rw [extractInPlace]
    split
    next =>
      have hnone := fetchReport_of_next?_none hrest hp
      split
      next => rfl
      next hs => rw [hnone] at hs; cases hs
      next hs => rw [hnone] at hs; cases hs
      next hs => rw [hnone] at hs; cases hs
    next => rfl
  | cons sub subs ih =>
    rw [List.flatten_cons, List.append_assoc] at hp
    have hsub := hsubs sub List.mem_cons_self
    have hothers : ∀ s ∈ subs, Compound.IsSubPacket s :=
      fun s hs => hsubs s (List.mem_cons_of_mem _ hs)
    have hfetch := fetchReport_eq hsub hp
    have hinside : front.length < p.len := by
      have hpos : 0 < sub.length :=
        Nat.lt_of_lt_of_le (by decide) (Compound.eq_append_of_next? hsub).2
      rw [← p.length_bytes, hp, List.length_append, List.length_append]
      omega
    rw [extractInPlace, if_pos hinside]
    unfold extractFrom
    cases hx : Compound.extendedReport? sub with
    | none =>
      rw [hx] at hfetch
      split
      next hs => rw [hfetch] at hs; cases hs
      next length hs =>
        rw [hfetch] at hs
        cases hs
        have hnext : p.bytes = (front ++ sub) ++ (subs.flatten ++ rest) := by
          rw [hp, List.append_assoc]
        have hrun := ih hothers hnext
        rwa [List.length_append] at hrun
      next hs => rw [hfetch] at hs; cases hs
      next hs => rw [hfetch] at hs; cases hs
    | some x =>
      rw [hx] at hfetch
      have hrun := ih hothers (bytes_cut_append hp)
      split
      next hs => rw [hfetch] at hs; cases hs
      next hs => rw [hfetch] at hs; cases hs
      next length y hs =>
        rw [hfetch] at hs
        cases hs
        split
        next q hclose =>
          rw [closeGap_eq hp] at hclose
          cases hclose
          rw [hrun]
          rfl
        next fault hclose =>
          rw [closeGap_eq hp] at hclose
          cases hclose
      next hs => rw [hfetch] at hs; cases hs

/-- An extraction starts where the packet does. -/
theorem extractInPlace_zero (p : Packet) : p.extractInPlace 0 = .ok p.extractReports :=
  @extractInPlace_eq (Compound.subPackets p.bytes) p [] (Compound.trailing p.bytes)
    (fun _ => Compound.isSubPacket_of_mem_subPackets) (Compound.next?_trailing p.bytes)
    (Compound.flatten_walk p.bytes).symm

end MediaTransport.Packet
