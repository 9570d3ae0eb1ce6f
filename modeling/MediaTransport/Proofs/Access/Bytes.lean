import MediaTransport.Bytes

/-!
# Access by position

The readers take words off the front of a byte string and cannot miss. Where bytes are taken by
position instead, out of a buffer whose length was looked at somewhere else, each access has a range
to keep to: here it is checked, and one that leaves its range is a fault. What is in range is what
the readers see (`slice_eq`, `chunks_append`, `Spans.sliceFrom_eq`).
-/

namespace MediaTransport

/-- A computation that takes bytes by position and may refuse them. That it refuses is a result;
that it leaves its range is a fault. -/
abbrev Fetch (ε α : Type) := ExceptT ε (Except Fault) α

/-- The result `r`, come by without a fault. -/
def fetched {ε α : Type} (r : Except ε α) : Fetch ε α := ExceptT.mk (.ok r)

theorem fetched_bind {ε α β : Type} (r : Except ε α) {k : α → Fetch ε β} {f : α → Except ε β}
    (h : ∀ a, r = .ok a → k a = fetched (f a)) : fetched r >>= k = fetched (r >>= f) := by
  cases r with
  | ok a => exact h a rfl
  | error e => rfl

theorem fetched_ok_bind {ε α β : Type} (a : α) (k : α → Fetch ε β) :
    fetched (.ok a) >>= k = k a := rfl

/-- An access within its range is no step of the computation. -/
theorem liftM_ok_bind {ε α β : Type} (a : α) (k : α → Fetch ε β) :
    (liftM (.ok a : Except Fault α) : Fetch ε α) >>= k = k a := rfl

namespace Bytes

/-- The byte at position `i`, which must be there. -/
def byteAt (bytes : Bytes) (i : Nat) : Except Fault UInt8 :=
  match bytes[i]? with
  | some b => .ok b
  | none => .error .outOfRange

/-- The 16-bit word at position `i`. -/
def word16At (bytes : Bytes) (i : Nat) : Except Fault UInt16 :=
  return word16 (← byteAt bytes i) (← byteAt bytes (i + 1))

/-- The 32-bit word at position `i`. -/
def word32At (bytes : Bytes) (i : Nat) : Except Fault UInt32 :=
  return word32 (← byteAt bytes i) (← byteAt bytes (i + 1)) (← byteAt bytes (i + 2))
    (← byteAt bytes (i + 3))

/-- The 64-bit word at position `i`. -/
def word64At (bytes : Bytes) (i : Nat) : Except Fault UInt64 :=
  return word64 (← word32At bytes i) (← word32At bytes (i + 4))

/-- The bytes from position `start` up to position `stop`, which must be in this order and
inside. -/
def slice (bytes : Bytes) (start stop : Nat) : Except Fault Bytes :=
  if start ≤ stop ∧ stop ≤ bytes.length then
    .ok ((bytes.take stop).drop start)
  else
    .error .outOfRange

/-- The bytes from position `start` on. -/
def sliceFrom (bytes : Bytes) (start : Nat) : Except Fault Bytes :=
  slice bytes start bytes.length

/-- Copies the bytes from position `start` up to position `stop` to position `target`. -/
def copyWithin (bytes : Bytes) (start stop target : Nat) : Except Fault Bytes := do
  overlayAt target (← slice bytes start stop) bytes

/-- A difference of lengths and positions, which must not fall below zero. -/
def difference (a b : Nat) : Except Fault Nat :=
  if b ≤ a then .ok (a - b) else .error .outOfRange

/-- The bytes in pieces of `size`; what is left over at the end is in none of them. -/
def chunks (size : Nat) (bytes : Bytes) : List Bytes :=
  if 0 < size ∧ size ≤ bytes.length then
    bytes.take size :: chunks size (bytes.drop size)
  else
    []
termination_by bytes.length
decreasing_by
  rw [List.length_drop]
  omega

/-! ## In range -/

theorem slice_eq {front middle rest : Bytes} {start stop : Nat} (hstart : front.length = start)
    (hstop : start + middle.length = stop) :
    slice (front ++ (middle ++ rest)) start stop = .ok middle := by
  have hinside : start ≤ stop ∧ stop ≤ (front ++ (middle ++ rest)).length := by
    simp only [List.length_append]
    omega
  have htake : (front ++ (middle ++ rest)).take stop = front ++ middle := by
    rw [← List.append_assoc]
    exact List.take_left' (by rw [List.length_append]; omega)
  unfold slice
  rw [if_pos hinside, htake, List.drop_left' hstart]

theorem slice_eq_take_drop {bytes : Bytes} {start stop : Nat} (hstart : start ≤ stop)
    (hstop : stop ≤ bytes.length) :
    slice bytes start stop = .ok ((bytes.take stop).drop start) := by
  unfold slice
  rw [if_pos ⟨hstart, hstop⟩]

theorem sliceFrom_eq_drop {bytes : Bytes} {start : Nat} (h : start ≤ bytes.length) :
    sliceFrom bytes start = .ok (bytes.drop start) := by
  rw [sliceFrom, slice_eq_take_drop h (Nat.le_refl _), List.take_length]

theorem sliceFrom_append {front rest : Bytes} {start : Nat} (h : front.length = start) :
    sliceFrom (front ++ rest) start = .ok rest := by
  rw [sliceFrom_eq_drop (by rw [List.length_append]; omega), List.drop_left' h]

theorem length_of_sliceFrom {bytes rest : Bytes} {start : Nat}
    (h : sliceFrom bytes start = .ok rest) : start + rest.length = bytes.length := by
  unfold sliceFrom slice at h
  split at h
  next hinside =>
    cases h
    rw [List.take_length, List.length_drop]
    omega
  next => cases h

theorem difference_eq {a b : Nat} (h : b ≤ a) : difference a b = .ok (a - b) := by
  unfold difference
  rw [if_pos h]

theorem chunks_append {size : Nat} {chunk : Bytes} (hpos : 0 < size) (hlen : chunk.length = size)
    (rest : Bytes) : chunks size (chunk ++ rest) = chunk :: chunks size rest := by
  rw [chunks, if_pos ⟨hpos, by rw [List.length_append]; omega⟩, List.take_left' hlen,
    List.drop_left' hlen]

theorem chunks_of_short {size : Nat} {bytes : Bytes} (h : bytes.length < size) :
    chunks size bytes = [] := by
  rw [chunks, if_neg (by omega)]

theorem length_chunks {size : Nat} (hpos : 0 < size) (bytes : Bytes) :
    (chunks size bytes).length = bytes.length / size := by
  fun_induction chunks size bytes with
  | case1 bytes h ih =>
    rw [List.length_cons, ih, List.length_drop, Nat.div_eq_sub_div hpos h.2]
  | case2 bytes h =>
    rw [Nat.div_eq_of_lt (by omega)]
    rfl

theorem chunks_take {size : Nat} (hpos : 0 < size) (count : Nat) (bytes : Bytes) :
    chunks size (bytes.take (count * size)) = (chunks size bytes).take count := by
  induction count generalizing bytes with
  | zero => rw [Nat.zero_mul, List.take_zero, List.take_zero, chunks_of_short hpos]
  | succ count ih =>
    have hmul : (count + 1) * size = size + count * size := by rw [Nat.succ_mul, Nat.add_comm]
    by_cases hlen : bytes.length < size
    · rw [List.take_of_length_le (by omega), chunks_of_short hlen, List.take_nil]
    · obtain ⟨chunk, rest, rfl, hchunk⟩ : ∃ chunk rest, bytes = chunk ++ rest ∧
          chunk.length = size :=
        ⟨_, _, (List.take_append_drop size bytes).symm, by rw [List.length_take]; omega⟩
      have htake : (chunk ++ rest).take ((count + 1) * size) =
          chunk ++ rest.take (count * size) := by
        rw [hmul, ← hchunk, List.take_length_add_append]
      rw [htake, chunks_append hpos hchunk, chunks_append hpos hchunk, List.take_succ_cons, ih]

/-! ## Moving bytes -/

theorem overlayAt_append {front old data rest : Bytes} {start : Nat} (hfront : front.length = start)
    (hold : old.length = data.length) :
    overlayAt start data (front ++ (old ++ rest)) = .ok (front ++ (data ++ rest)) := by
  have hinside : start + data.length ≤ (front ++ (old ++ rest)).length := by
    simp only [List.length_append]
    omega
  have hrest : (front ++ (old ++ rest)).drop (start + data.length) = rest := by
    rw [← List.append_assoc]
    exact List.drop_left' (by rw [List.length_append]; omega)
  unfold overlayAt
  rw [if_pos hinside, List.take_left' hfront, hrest, List.append_assoc]

/-- Bytes that are copied to the front leave what stands behind them. -/
theorem overlayAt_zero {data bytes : Bytes} (h : data.length ≤ bytes.length) :
    overlayAt 0 data bytes = .ok (data ++ bytes.drop data.length) := by
  unfold overlayAt
  rw [Nat.zero_add, if_pos h, List.take_zero, List.nil_append]

/-- Bytes that move up leave a gap in their place, where stands what has not been written over. -/
theorem copyWithin_up {front rest taken behind : Bytes} {start stop size : Nat}
    (hstart : front.length = start) (hstop : start + rest.length = stop)
    (hsize : taken.length = size) :
    copyWithin (front ++ (rest ++ (taken ++ behind))) start stop (start + size) =
      .ok (front ++ ((rest ++ taken).take size ++ (rest ++ behind))) := by
  have hslice : slice (front ++ (rest ++ (taken ++ behind))) start stop = .ok rest :=
    slice_eq hstart hstop
  have hgap : (front ++ (rest ++ taken).take size).length = start + size := by
    simp only [List.length_append, List.length_take]
    omega
  have hold : ((rest ++ taken).drop size).length = rest.length := by
    rw [List.length_drop, List.length_append]
    omega
  have hover := @overlayAt_append _ _ _ behind _ hgap hold
  rw [List.append_assoc, ← List.append_assoc _ _ behind, List.take_append_drop] at hover
  unfold copyWithin
  rw [hslice, ← List.append_assoc rest]
  exact hover.trans (by rw [List.append_assoc])

/-- Bytes that move down write over what they close up to. -/
theorem copyWithin_down {front gone rest behind : Bytes} {start stop target : Nat}
    (htarget : front.length = target) (hstart : target + gone.length = start)
    (hstop : start + rest.length = stop) :
    copyWithin (front ++ (gone ++ (rest ++ behind))) start stop target =
      .ok (front ++ (rest ++ ((gone ++ rest).drop rest.length ++ behind))) := by
  have hslice : slice (front ++ (gone ++ (rest ++ behind))) start stop = .ok rest := by
    rw [← List.append_assoc]
    exact slice_eq (by rw [List.length_append]; omega) hstop
  have hold : ((gone ++ rest).take rest.length).length = rest.length := by
    rw [List.length_take, List.length_append]
    omega
  have hover := @overlayAt_append _ _ _ ((gone ++ rest).drop rest.length ++ behind) _ htarget hold
  rw [← List.append_assoc _ _ behind, List.take_append_drop] at hover
  unfold copyWithin
  rw [hslice, ← List.append_assoc gone]
  exact hover

/-! ## Bytes inside a buffer -/

/-- At position `start` of the buffer stand the given bytes. -/
def Holds (buffer : Bytes) (start : Nat) (bytes : Bytes) : Prop :=
  ∃ front behind, buffer = front ++ (bytes ++ behind) ∧ front.length = start

namespace Holds

variable {buffer bytes more : Bytes} {start : Nat}

theorem left (h : Holds buffer start (bytes ++ more)) : Holds buffer start bytes := by
  obtain ⟨front, behind, rfl, hfront⟩ := h
  exact ⟨front, more ++ behind, by rw [List.append_assoc], hfront⟩

theorem right (h : Holds buffer start (bytes ++ more)) :
    Holds buffer (start + bytes.length) more := by
  obtain ⟨front, behind, rfl, hfront⟩ := h
  exact ⟨front ++ bytes, behind, by simp only [List.append_assoc],
    by rw [List.length_append, hfront]⟩

theorem slice_eq (h : Holds buffer start bytes) :
    slice buffer start (start + bytes.length) = .ok bytes := by
  obtain ⟨front, behind, rfl, hfront⟩ := h
  exact Bytes.slice_eq hfront rfl

theorem byteAt_eq (h : Holds buffer start bytes) {i : Nat} {b : UInt8} (hb : bytes[i]? = some b) :
    byteAt buffer (start + i) = .ok b := by
  obtain ⟨front, behind, rfl, rfl⟩ := h
  have hi : i < bytes.length := (List.getElem?_eq_some_iff.1 hb).1
  unfold byteAt
  rw [List.getElem?_append_right (Nat.le_add_right _ _), Nat.add_sub_cancel_left,
    List.getElem?_append_left hi, hb]

end Holds

/-! ## Readers of a fixed length -/

/-- The reader takes `size` bytes if there are that many, whatever they are. -/
def Spans {α : Type} (size : Nat) (item? : Bytes → Option (α × Bytes)) : Prop :=
  ∀ bytes, (item? bytes).map Prod.snd =
    if bytes.length < size then none else some (bytes.drop size)

namespace Spans

variable {α : Type} {size : Nat} {item? : Bytes → Option (α × Bytes)} {bytes rest : Bytes} {a : α}

theorem eq_none_iff (h : Spans size item?) : item? bytes = none ↔ bytes.length < size := by
  rw [← Option.map_eq_none_iff (f := Prod.snd), h bytes]
  split
  next hshort => exact iff_of_true rfl hshort
  next hlong => exact iff_of_false nofun hlong

theorem eq_drop (h : Spans size item?) (ha : item? bytes = some (a, rest)) :
    size ≤ bytes.length ∧ rest = bytes.drop size := by
  have hrest := h bytes
  rw [ha] at hrest
  split at hrest
  next => cases hrest
  next hlong => exact ⟨Nat.le_of_not_lt hlong, Option.some.inj hrest⟩

theorem not_lt (h : Spans size item?) (ha : item? bytes = some (a, rest)) : ¬bytes.length < size :=
  Nat.not_lt.2 (h.eq_drop ha).1

theorem sliceFrom_eq (h : Spans size item?) (ha : item? bytes = some (a, rest)) :
    sliceFrom bytes size = .ok rest := by
  obtain ⟨hlen, rfl⟩ := h.eq_drop ha
  exact sliceFrom_eq_drop hlen

theorem holds_rest (h : Spans size item?) (ha : item? bytes = some (a, rest)) {buffer : Bytes}
    {start : Nat} (hbytes : Holds buffer start bytes) : Holds buffer (start + size) rest := by
  obtain ⟨hlen, rfl⟩ := h.eq_drop ha
  have hfront : (bytes.take size).length = size := by
    rw [List.length_take]
    omega
  rw [← List.take_append_drop size bytes] at hbytes
  rw [← hfront]
  simpa only [hfront] using hbytes.right

/-- Readers in a row fail when the bytes are too few for all of them. -/
theorem bind_eq_none_iff (h : Spans size item?) {β : Type} {k : α × Bytes → Option β} {n : Nat}
    (hk : ∀ a rest, k (a, rest) = none ↔ rest.length < n) :
    (item? bytes >>= k) = none ↔ bytes.length < size + n := by
  cases hitem : item? bytes with
  | none =>
    have := h.eq_none_iff.1 hitem
    exact iff_of_true rfl (by omega)
  | some item =>
    obtain ⟨a, rest⟩ := item
    obtain ⟨hlen, rfl⟩ := h.eq_drop hitem
    show k (a, bytes.drop size) = none ↔ _
    rw [hk, List.length_drop]
    omega

theorem many?_eq_none_iff (h : Spans size item?) {count : Nat} :
    many? item? count bytes = none ↔ bytes.length < count * size := by
  induction count generalizing bytes with
  | zero => simp [many?]
  | succ count ih =>
    rw [Nat.succ_mul, Nat.add_comm (count * size)]
    refine h.bind_eq_none_iff fun a rest => ?_
    rw [← ih]
    cases hmany : many? item? count rest <;> simp [hmany]

theorem not_lt_of_many? (h : Spans size item?) {count : Nat} {items : List α}
    (hmany : many? item? count bytes = some (items, rest)) : ¬bytes.length < count * size := by
  rw [← h.many?_eq_none_iff, hmany]
  exact nofun

end Spans

theorem spans_take? (n : Nat) : Spans n (take? n) := by
  intro bytes
  split
  next hshort => rw [take?_eq_none_iff.2 hshort, Option.map_none]
  next hlong =>
    have htake : take? n bytes = some (bytes.take n, bytes.drop n) :=
      take?_eq_some_iff.2 ⟨(List.take_append_drop n bytes).symm, by rw [List.length_take]; omega⟩
    rw [htake, Option.map_some]

end Bytes

end MediaTransport
