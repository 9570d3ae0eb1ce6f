import MediaTransport.Proofs.Access.Splice

/-!
# Regions of a buffer

A packet cannot leave its buffer: its type says so. Here a region is a buffer and two numbers that
nothing ties to it, and it is changed in place, with every difference, every sum and every range
checked: this is a build with overflow checks, where a sum that is no number of the machine is a
fault too. Whatever is done to it, it stays the region of a packet, and each change is that of the
packet (`Region.edit_region`, `Region.run_eq`). So it stays inside its buffer, and where it grows
its bytes stay the same, the room is there, and every position in it is where it is said to have
moved (`Region.run_keeps`).
-/

namespace MediaTransport

open Bytes

/-! ## Edits of a packet -/

namespace Packet

/-- Where a packet comes from. -/
inductive Origin where
  | ofBuffer (buffer : Bytes) (offset len : Nat)
  | ofBytes (bytes : Bytes)
  | empty
  deriving DecidableEq, Repr

/-- A change of a packet, or of the bytes in its buffer. -/
inductive Edit where
  | setLen (len : Nat)
  | setOffset (offset : Nat)
  | fill (bytes : Bytes)
  | grow (extra : Nat)
  | shrink (count : Nat)
  | write (start : Nat) (data : Bytes)
  | writeBuffer (start : Nat) (data : Bytes)
  deriving DecidableEq, Repr

/-- The packet at the origin. -/
def ofOrigin : Origin → Packet
  | .ofBuffer buffer offset len => ofBuffer buffer offset len
  | .ofBytes bytes => ofBytes bytes
  | .empty => empty

/-- Changes a packet. Growing overflows where the new length is a number above `limit`, and writing
is a fault where it leaves its range. -/
def edit (limit : Nat) (p : Packet) : Edit → Except Fault Packet
  | .setLen len => .ok (p.setLen len)
  | .setOffset offset => .ok (p.setOffset offset)
  | .fill bytes => .ok (p.fill bytes)
  | .grow extra =>
    if extra ≤ p.room ∨ p.len + extra ≤ limit then .ok (p.grow extra).1 else .error .overflow
  | .shrink count => .ok (p.shrink count)
  | .write start data => p.write start data
  | .writeBuffer start data => p.writeBuffer start data

/-- Changes a packet from its origin on; the first fault ends the run. -/
def run (limit : Nat) (origin : Origin) (edits : List Edit) : Except Fault Packet :=
  edits.foldlM (edit limit) (ofOrigin origin)

end Packet

/-! ## Regions -/

/-- A buffer, and two numbers that are meant for a region of it. -/
structure Region where
  buffer : Bytes
  offset : Nat
  len : Nat
  deriving DecidableEq, Repr

/-- The region of a packet. -/
def Packet.region (p : Packet) : Region := ⟨p.buffer, p.offset, p.len⟩

namespace Region

/-- A sum of lengths, which overflows above `limit`. -/
def sum (limit a b : Nat) : Except Fault Nat :=
  if a + b ≤ limit then .ok (a + b) else .error .overflow

/-- The region of a buffer that is closest to the given one. -/
def ofBuffer (buffer : Bytes) (offset len : Nat) : Except Fault Region := do
  let offset := min offset buffer.length
  return ⟨buffer, offset, min len (← difference buffer.length offset)⟩

/-- Bytes of the buffer from the start of the region on. -/
def capacity (r : Region) : Except Fault Nat := difference r.buffer.length r.offset

/-- The bytes in the region. -/
def slice (r : Region) : Except Fault Bytes := Bytes.slice r.buffer r.offset (r.offset + r.len)

/-- Sets the length, clamped to the capacity. -/
def setLen (r : Region) (len : Nat) : Except Fault Region :=
  return { r with len := min len (← r.capacity) }

/-- Moves the start, clamped to the buffer, and then clamps the length to what remains. -/
def setOffset (r : Region) (offset : Nat) : Except Fault Region := do
  let r := { r with offset := min offset r.buffer.length }
  r.setLen r.len

/-- Replaces the contents; a buffer that is too short is lengthened first. -/
def fill (r : Region) (bytes : Bytes) : Except Fault Region :=
  return ⟨← overlayAt 0 bytes (r.buffer.rightpad bytes.length 0), 0, bytes.length⟩

/-- Moves the region to the front of the buffer, or of a new one if that has less than `needed`
bytes. -/
def moveToFront (r : Region) (needed : Nat) : Except Fault Region :=
  if r.buffer.length < needed then
    return ⟨← overlayAt 0 (← r.slice) (List.replicate needed 0), 0, r.len⟩
  else
    return ⟨← copyWithin r.buffer r.offset (r.offset + r.len) 0, 0, r.len⟩

/-- Makes room for `extra` bytes behind the region, and says how far the region moved. -/
def grow (limit : Nat) (r : Region) (extra : Nat) : Except Fault (Region × Int) := do
  if extra = 0 then return (r, 0)
  let room ← difference (← r.capacity) r.len
  if extra ≤ room then return (r, 0)
  return (← r.moveToFront (← sum limit r.len extra), -r.offset)

/-- Drops up to `count` bytes from the end. -/
def shrink (r : Region) (count : Nat) : Except Fault Region :=
  return { r with len := ← difference r.len (min count r.len) }

/-- Writes `data` over the region's bytes from position `start` of them on. -/
def write (r : Region) (start : Nat) (data : Bytes) : Except Fault Region := do
  if start + data.length ≤ (← r.slice).length then
    return { r with buffer := ← overlayAt (r.offset + start) data r.buffer }
  else
    throw .outOfRange

/-- Writes `data` over the buffer's bytes from position `start` of the buffer on. -/
def writeBuffer (r : Region) (start : Nat) (data : Bytes) : Except Fault Region :=
  return { r with buffer := ← overlayAt start data r.buffer }

/-- The region at the origin. -/
def ofOrigin : Packet.Origin → Except Fault Region
  | .ofBuffer buffer offset len => ofBuffer buffer offset len
  | .ofBytes bytes => ofBuffer bytes 0 bytes.length
  | .empty => .ok ⟨[], 0, 0⟩

/-- Changes a region. -/
def edit (limit : Nat) (r : Region) : Packet.Edit → Except Fault Region
  | .setLen len => r.setLen len
  | .setOffset offset => r.setOffset offset
  | .fill bytes => r.fill bytes
  | .grow extra => return (← r.grow limit extra).1
  | .shrink count => r.shrink count
  | .write start data => r.write start data
  | .writeBuffer start data => r.writeBuffer start data

/-- Changes a region from its origin on; the first fault ends the run. -/
def run (limit : Nat) (origin : Packet.Origin) (edits : List Packet.Edit) :
    Except Fault Region := do
  edits.foldlM (edit limit) (← ofOrigin origin)

/-! ## Edits of a packet's region -/

theorem ofOrigin_eq (origin : Packet.Origin) :
    ofOrigin origin = .ok (Packet.ofOrigin origin).region := by
  cases origin with
  | ofBuffer buffer offset len =>
    simp only [ofOrigin, ofBuffer]
    rw [difference_eq (Nat.min_le_right _ _)]
    rfl
  | ofBytes bytes =>
    simp only [ofOrigin, ofBuffer]
    rw [difference_eq (Nat.min_le_right _ _), Nat.zero_min, Nat.sub_zero]
    exact congrArg (fun len => Except.ok (Region.mk bytes 0 len)) (Nat.min_self _)
  | empty => rfl

variable (limit : Nat) (p : Packet)

theorem capacity_region : p.region.capacity = .ok p.capacity :=
  difference_eq (Nat.le_trans (Nat.le_add_right _ _) p.region_le)

theorem slice_region : p.region.slice = .ok p.bytes := p.slice_eq

theorem setLen_region (len : Nat) : p.region.setLen len = .ok (p.setLen len).region := by
  unfold setLen
  rw [capacity_region]
  rfl

theorem setOffset_region (offset : Nat) :
    p.region.setOffset offset = .ok (p.setOffset offset).region := by
  simp only [setOffset, setLen, capacity]
  rw [difference_eq (Nat.min_le_right _ _)]
  rfl

theorem fill_region (bytes : Bytes) : p.region.fill bytes = .ok (p.fill bytes).region := by
  have hlen : bytes.length ≤ (p.buffer.rightpad bytes.length 0).length := by
    rw [List.length_rightpad]
    exact Nat.le_max_left _ _
  have hdrop : (p.buffer.rightpad bytes.length 0).drop bytes.length =
      p.buffer.drop bytes.length := by
    rw [List.rightpad, List.drop_append, List.drop_replicate, Nat.sub_self]
    exact List.append_nil _
  have hover := overlayAt_zero hlen
  rw [hdrop] at hover
  unfold fill
  show (overlayAt 0 bytes (p.buffer.rightpad bytes.length 0) >>= _) = _
  rw [hover]
  rfl

theorem shrink_region (count : Nat) : p.region.shrink count = .ok (p.shrink count).region := by
  have hlen : p.len - min count p.len = p.len - count := by omega
  unfold shrink
  rw [difference_eq (Nat.min_le_right _ _)]
  exact congrArg (fun len => Except.ok (Region.mk p.buffer p.offset len)) hlen

theorem sum_eq {limit a b : Nat} (h : a + b ≤ limit) : sum limit a b = .ok (a + b) := by
  unfold sum
  rw [if_pos h]

theorem moveToFront_region {p : Packet} {extra : Nat} (h : ¬extra ≤ p.room) :
    p.region.moveToFront (p.len + extra) = .ok (p.grow extra).1.region ∧
      (p.grow extra).2 = -p.offset := by
  unfold moveToFront Packet.grow
  rw [if_neg h]
  by_cases hshort : p.buffer.length < p.len + extra
  · rw [if_pos hshort, slice_region]
    refine ⟨?_, rfl⟩
    show (if p.buffer.length < p.len + extra then _ else _) = _
    rw [if_pos hshort]
    show (overlayAt 0 p.bytes _ >>= _) = _
    rw [p.overlayAt_replicate]
    rfl
  · rw [if_neg hshort]
    refine ⟨?_, rfl⟩
    show (if p.buffer.length < p.len + extra then _ else _) = _
    rw [if_neg hshort]
    show (copyWithin p.buffer p.offset (p.offset + p.len) 0 >>= _) = _
    rw [p.copyWithin_front]
    rfl

/-- A packet grows unless its new length has to be worked out and is too large. -/
theorem grow_region (extra : Nat) :
    p.region.grow limit extra =
      if extra ≤ p.room ∨ p.len + extra ≤ limit then
        .ok ((p.grow extra).1.region, (p.grow extra).2)
      else
        .error .overflow := by
  have hle : p.len ≤ p.capacity := by
    have hregion := p.region_le
    unfold Packet.capacity
    omega
  unfold grow
  rw [capacity_region]
  show (if extra = 0 then _ else difference p.capacity p.len >>= _) = _
  rw [difference_eq hle]
  show (if extra = 0 then _ else if extra ≤ p.room then _ else _) = _
  by_cases hroom : extra ≤ p.room
  · have hgrow : p.grow extra = (p, 0) := if_pos hroom
    rw [if_pos hroom, ite_self, if_pos (Or.inl hroom), hgrow]
    rfl
  · have hzero : extra ≠ 0 := fun h => hroom (h ▸ Nat.zero_le _)
    rw [if_neg hzero, if_neg hroom]
    show (sum limit p.len extra >>= fun needed => p.region.moveToFront needed >>= _) = _
    by_cases hlimit : p.len + extra ≤ limit
    · obtain ⟨hmove, hdelta⟩ := moveToFront_region hroom
      rw [sum_eq hlimit, if_pos (.inr hlimit), hdelta]
      show (p.region.moveToFront (p.len + extra) >>= _) = _
      rw [hmove]
      rfl
    · rw [if_neg (not_or.2 ⟨hroom, hlimit⟩)]
      unfold sum
      rw [if_neg hlimit]
      rfl

/-- Writing over a buffer leaves its length, so that the region needs no clamping. -/
theorem map_region_overlayAt (start : Nat) (data : Bytes) :
    ((overlayAt start data p.buffer).map fun buffer => Packet.ofBuffer buffer p.offset p.len).map
        Packet.region =
      (overlayAt start data p.buffer).map fun buffer => ⟨buffer, p.offset, p.len⟩ := by
  unfold overlayAt
  split
  next hinside =>
    have hlen : p.offset + p.len ≤
        (p.buffer.take start ++ data ++ p.buffer.drop (start + data.length)).length := by
      have hregion := p.region_le
      simp only [List.length_append, List.length_take, List.length_drop]
      omega
    simp only [Except.map]
    rw [Packet.ofBuffer_eq hlen]
    rfl
  next => rfl

theorem write_region (start : Nat) (data : Bytes) :
    p.region.write start data = (p.write start data).map Packet.region := by
  unfold write Packet.write
  rw [slice_region]
  show (if start + data.length ≤ p.bytes.length then _ else _) = _
  rw [Packet.length_bytes]
  split
  next =>
    rw [map_region_overlayAt]
    show (overlayAt (p.offset + start) data p.buffer >>= _) = _
    cases overlayAt (p.offset + start) data p.buffer <;> rfl
  next => rfl

theorem writeBuffer_region (start : Nat) (data : Bytes) :
    p.region.writeBuffer start data = (p.writeBuffer start data).map Packet.region := by
  unfold writeBuffer Packet.writeBuffer
  rw [map_region_overlayAt]
  show (overlayAt start data p.buffer >>= _) = _
  cases overlayAt start data p.buffer <;> rfl

/-! ## Runs -/

/-- Whatever is done to the region of a packet is done to the packet. -/
theorem edit_region (e : Packet.Edit) :
    p.region.edit limit e = (p.edit limit e).map Packet.region := by
  cases e with
  | setLen len => exact setLen_region p len
  | setOffset offset => exact setOffset_region p offset
  | fill bytes => exact fill_region p bytes
  | grow extra =>
    show (p.region.grow limit extra >>= fun grown => pure grown.1) =
      (if extra ≤ p.room ∨ p.len + extra ≤ limit then Except.ok (p.grow extra).1
        else .error .overflow).map Packet.region
    rw [grow_region]
    by_cases h : extra ≤ p.room ∨ p.len + extra ≤ limit
    · rw [if_pos h, if_pos h]
      rfl
    · rw [if_neg h, if_neg h]
      rfl
  | shrink count => exact shrink_region p count
  | write start data => exact write_region p start data
  | writeBuffer start data => exact writeBuffer_region p start data

theorem foldlM_edit_region (edits : List Packet.Edit) :
    edits.foldlM (edit limit) p.region =
      (edits.foldlM (Packet.edit limit) p).map Packet.region := by
  induction edits generalizing p with
  | nil => rfl
  | cons e edits ih =>
    rw [List.foldlM_cons, List.foldlM_cons, edit_region]
    cases hedit : p.edit limit e with
    | error fault => rfl
    | ok q => exact ih q

theorem run_eq (limit : Nat) (origin : Packet.Origin) (edits : List Packet.Edit) :
    run limit origin edits = (Packet.run limit origin edits).map Packet.region := by
  unfold run
  rw [ofOrigin_eq]
  exact foldlM_edit_region limit (Packet.ofOrigin origin) edits

/-- A region is changed as a packet is, and never leaves its buffer. By however many bytes it grows,
as long as its new length is a number: it has the same bytes, there is room for as many behind it,
and each position in it, up to its end, is where it is said to have moved. -/
theorem run_keeps (limit : Nat) (origin : Packet.Origin) (edits : List Packet.Edit) :
    run limit origin edits = (Packet.run limit origin edits).map Packet.region ∧
      ∀ r, run limit origin edits = .ok r →
        r.offset + r.len ≤ r.buffer.length ∧
          ∀ extra, r.len + extra ≤ limit →
            ∃ bytes grown delta, r.slice = .ok bytes ∧ r.grow limit extra = .ok (grown, delta) ∧
              grown.slice = .ok bytes ∧ grown.len = r.len ∧
              grown.offset + grown.len + extra ≤ grown.buffer.length ∧
              ∀ i ≤ r.len, relocate (r.offset + i) delta = grown.offset + i := by
  refine ⟨run_eq limit origin edits, fun r hr => ?_⟩
  obtain ⟨p, rfl⟩ : ∃ p : Packet, r = p.region := by
    rw [run_eq] at hr
    cases hp : Packet.run limit origin edits with
    | error fault =>
      rw [hp] at hr
      cases hr
    | ok p =>
      rw [hp] at hr
      cases hr
      exact ⟨p, rfl⟩
  refine ⟨p.region_le, fun extra hextra => ?_⟩
  refine ⟨p.bytes, (p.grow extra).1.region, (p.grow extra).2, slice_region p, ?_, ?_,
    p.len_grow extra, ?_, fun i _ => p.relocate_grow extra i⟩
  · rw [grow_region]
    exact if_pos (.inr hextra)
  · rw [slice_region, Packet.bytes_grow]
  · have hroom := p.le_room_grow extra
    have hregion := (p.grow extra).1.region_le
    unfold Packet.room at hroom
    show (p.grow extra).1.offset + (p.grow extra).1.len + extra ≤ (p.grow extra).1.buffer.length
    omega

/-- A region that has bytes on both sides moves to the front of its buffer to grow by two. -/
theorem run_keeps_shifted :
    let r : Region := ⟨[9, 9, 9, 1, 7, 3, 4], 3, 3⟩
    run 9 (.ofBuffer [9, 9, 9, 1, 2, 3, 4] 3 4) [.setLen 3, .write 1 [7]] = .ok r ∧
      r.offset + r.len ≤ r.buffer.length ∧
      r.grow 9 2 = .ok (⟨[1, 7, 3, 1, 7, 3, 4], 0, 3⟩, -3) ∧
      relocate (r.offset + 2) (-3) = 0 + 2 := by
  have hrun : run 9 (.ofBuffer [9, 9, 9, 1, 2, 3, 4] 3 4) [.setLen 3, .write 1 [7]] =
      .ok ⟨[9, 9, 9, 1, 7, 3, 4], 3, 3⟩ := rfl
  have hgrow : grow 9 ⟨[9, 9, 9, 1, 7, 3, 4], 3, 3⟩ 2 =
      .ok (⟨[1, 7, 3, 1, 7, 3, 4], 0, 3⟩, -3) := rfl
  obtain ⟨-, hkeeps⟩ := run_keeps 9 (.ofBuffer [9, 9, 9, 1, 2, 3, 4] 3 4) [.setLen 3, .write 1 [7]]
  obtain ⟨hinside, hgrown⟩ := hkeeps _ hrun
  obtain ⟨_, grown, delta, -, hsome, -, -, -, hmoved⟩ := hgrown 2 (by decide)
  rw [hgrow] at hsome
  cases hsome
  exact ⟨hrun, hinside, hgrow, hmoved 2 (by decide)⟩

end Region

end MediaTransport
