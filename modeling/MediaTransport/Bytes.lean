/-!
# Byte strings

Everything on the wire is a list of bytes. Words are written most significant byte first, and a
reader takes its word off the front and hands back the rest, so that a layout is a sequence of
readers and what was written is read again with the rest untouched (`uint32?_ofUInt32`,
`take?_append`).
-/

namespace MediaTransport

/-- A byte string. -/
abbrev Bytes := List UInt8

/-- Why a computation ends without a result. -/
inductive Fault where
  /-- An access outside the bytes it was meant for. -/
  | outOfRange
  /-- A division by zero. -/
  | zeroDivisor
  /-- A number that its type has no room for. -/
  | overflow
  deriving DecidableEq, Repr

namespace Bytes

/-! ## Words -/

/-- The word with the base 256 digits `a`, `b`. -/
def word16 (a b : UInt8) : UInt16 :=
  .ofNat (a.toNat * 256 + b.toNat)

/-- The word with the base 256 digits `a`, `b`, `c`, `d`. -/
def word32 (a b c d : UInt8) : UInt32 :=
  .ofNat (((a.toNat * 256 + b.toNat) * 256 + c.toNat) * 256 + d.toNat)

/-- The word with the given halves. -/
def word64 (high low : UInt32) : UInt64 :=
  .ofNat (high.toNat * 4294967296 + low.toNat)

/-- The two base 256 digits of a word. -/
def ofUInt16 (n : UInt16) : Bytes :=
  [.ofNat (n.toNat / 256), .ofNat n.toNat]

/-- The three low base 256 digits of a word. -/
def ofUInt24 (n : UInt32) : Bytes :=
  [.ofNat (n.toNat / 65536), .ofNat (n.toNat / 256), .ofNat n.toNat]

/-- The four base 256 digits of a word. -/
def ofUInt32 (n : UInt32) : Bytes :=
  [.ofNat (n.toNat / 16777216), .ofNat (n.toNat / 65536), .ofNat (n.toNat / 256), .ofNat n.toNat]

/-- The eight base 256 digits of a word, one half after the other. -/
def ofUInt64 (n : UInt64) : Bytes :=
  ofUInt32 (.ofNat (n.toNat / 4294967296)) ++ ofUInt32 (.ofNat n.toNat)

theorem ofUInt16_word16 (a b : UInt8) : ofUInt16 (word16 a b) = [a, b] := by
  have ha := a.toNat_lt
  have hb := b.toNat_lt
  simp only [ofUInt16, word16, UInt16.toNat_ofNat', List.cons.injEq, and_true, ← UInt8.toNat_inj,
    UInt8.toNat_ofNat']
  omega

theorem ofUInt32_word32 (a b c d : UInt8) : ofUInt32 (word32 a b c d) = [a, b, c, d] := by
  have ha := a.toNat_lt
  have hb := b.toNat_lt
  have hc := c.toNat_lt
  have hd := d.toNat_lt
  simp only [ofUInt32, word32, UInt32.toNat_ofNat', List.cons.injEq, and_true, ← UInt8.toNat_inj,
    UInt8.toNat_ofNat']
  omega

theorem ofUInt64_word64 (high low : UInt32) :
    ofUInt64 (word64 high low) = ofUInt32 high ++ ofUInt32 low := by
  have hhigh := high.toNat_lt
  have hlow := low.toNat_lt
  have hparts : UInt32.ofNat ((word64 high low).toNat / 4294967296) = high ∧
      UInt32.ofNat (word64 high low).toNat = low := by
    simp only [word64, ← UInt32.toNat_inj, UInt32.toNat_ofNat', UInt64.toNat_ofNat']
    omega
  rw [ofUInt64, hparts.1, hparts.2]

@[simp] theorem length_ofUInt16 (n : UInt16) : (ofUInt16 n).length = 2 := rfl

@[simp] theorem length_ofUInt24 (n : UInt32) : (ofUInt24 n).length = 3 := rfl

@[simp] theorem length_ofUInt32 (n : UInt32) : (ofUInt32 n).length = 4 := rfl

@[simp] theorem length_ofUInt64 (n : UInt64) : (ofUInt64 n).length = 8 := rfl

/-! ## Readers -/

/-- The byte at the front, and the rest. -/
def uint8? : Bytes → Option (UInt8 × Bytes)
  | a :: rest => some (a, rest)
  | _ => none

/-- The 16-bit word at the front, and the rest. -/
def uint16? : Bytes → Option (UInt16 × Bytes)
  | a :: b :: rest => some (word16 a b, rest)
  | _ => none

/-- The 24-bit number at the front, and the rest. -/
def uint24? : Bytes → Option (UInt32 × Bytes)
  | a :: b :: c :: rest => some (word32 0 a b c, rest)
  | _ => none

/-- The 32-bit word at the front, and the rest. -/
def uint32? : Bytes → Option (UInt32 × Bytes)
  | a :: b :: c :: d :: rest => some (word32 a b c d, rest)
  | _ => none

/-- The 64-bit word at the front, and the rest. -/
def uint64? (bytes : Bytes) : Option (UInt64 × Bytes) := do
  let (high, rest) ← uint32? bytes
  let (low, rest) ← uint32? rest
  return (word64 high low, rest)

@[simp] theorem uint8?_cons (b : UInt8) (rest : Bytes) : uint8? (b :: rest) = some (b, rest) := rfl

@[simp] theorem uint16?_ofUInt16 (n : UInt16) (rest : Bytes) :
    uint16? (ofUInt16 n ++ rest) = some (n, rest) := by
  have := n.toNat_lt
  simp only [ofUInt16, uint16?, word16, List.cons_append, List.nil_append, UInt8.toNat_ofNat',
    Option.some.injEq, Prod.mk.injEq, and_true, ← UInt16.toNat_inj, UInt16.toNat_ofNat']
  omega

@[simp] theorem uint24?_ofUInt24 (n : UInt32) (rest : Bytes) :
    uint24? (ofUInt24 n ++ rest) = some (.ofNat (n.toNat % 16777216), rest) := by
  simp only [ofUInt24, uint24?, word32, List.cons_append, List.nil_append, UInt8.toNat_ofNat',
    Option.some.injEq, Prod.mk.injEq, and_true, ← UInt32.toNat_inj, UInt32.toNat_ofNat',
    UInt8.toNat_zero]
  omega

@[simp] theorem uint32?_ofUInt32 (n : UInt32) (rest : Bytes) :
    uint32? (ofUInt32 n ++ rest) = some (n, rest) := by
  have := n.toNat_lt
  simp only [ofUInt32, uint32?, word32, List.cons_append, List.nil_append, UInt8.toNat_ofNat',
    Option.some.injEq, Prod.mk.injEq, and_true, ← UInt32.toNat_inj, UInt32.toNat_ofNat']
  omega

@[simp] theorem uint64?_ofUInt64 (n : UInt64) (rest : Bytes) :
    uint64? (ofUInt64 n ++ rest) = some (n, rest) := by
  have := n.toNat_lt
  simp only [ofUInt64, uint64?, List.append_assoc, uint32?_ofUInt32, Option.bind_eq_bind,
    Option.bind_some, Option.pure_def, word64, UInt32.toNat_ofNat', Option.some.injEq,
    Prod.mk.injEq, and_true, ← UInt64.toNat_inj, UInt64.toNat_ofNat']
  omega

/-- The first `n` bytes and the rest, if there are that many. -/
def take? (n : Nat) (bytes : Bytes) : Option (Bytes × Bytes) :=
  let (front, rest) := bytes.splitAt n
  if front.length = n then some (front, rest) else none

theorem take?_eq_some_iff {n : Nat} {bytes front rest : Bytes} :
    take? n bytes = some (front, rest) ↔ bytes = front ++ rest ∧ front.length = n := by
  simp only [take?, List.splitAt_eq]
  constructor
  · intro h
    split at h
    next hn =>
      cases h
      exact ⟨(List.take_append_drop n bytes).symm, hn⟩
    next => cases h
  · rintro ⟨rfl, rfl⟩
    simp

@[simp] theorem take?_append (front rest : Bytes) :
    take? front.length (front ++ rest) = some (front, rest) :=
  take?_eq_some_iff.2 ⟨rfl, rfl⟩

theorem take?_eq_none_iff {n : Nat} {bytes : Bytes} :
    take? n bytes = none ↔ bytes.length < n := by
  simp only [take?, List.splitAt_eq, List.length_take]
  split <;> simp <;> omega

/-- As many items as asked for, read one after the other, and the rest. -/
def many? {α : Type} (item? : Bytes → Option (α × Bytes)) : Nat → Bytes → Option (List α × Bytes)
  | 0, bytes => some ([], bytes)
  | count + 1, bytes => do
    let (item, rest) ← item? bytes
    let (items, rest) ← many? item? count rest
    return (item :: items, rest)

theorem many?_flatMap {α β : Type} {item? : Bytes → Option (β × Bytes)} {encode : α → Bytes}
    {f : α → β} {items : List α}
    (h : ∀ a ∈ items, ∀ rest, item? (encode a ++ rest) = some (f a, rest)) (rest : Bytes) :
    many? item? items.length (items.flatMap encode ++ rest) = some (items.map f, rest) := by
  induction items with
  | nil => rfl
  | cons a items ih =>
    have hi := ih fun b hb => h b (List.mem_cons_of_mem _ hb)
    simp [many?, h a (List.mem_cons_self ..), hi]

theorem length_of_many? {α : Type} {item? : Bytes → Option (α × Bytes)} {count : Nat}
    {bytes rest : Bytes} {items : List α} (h : many? item? count bytes = some (items, rest)) :
    items.length = count := by
  induction count generalizing bytes items with
  | zero =>
    cases h
    rfl
  | succ count ih =>
    simp only [many?, Option.bind_eq_bind, Option.bind_eq_some_iff, Option.pure_def,
      Option.some.injEq, Prod.mk.injEq] at h
    obtain ⟨⟨item, next⟩, -, ⟨others, last⟩, hothers, rfl, rfl⟩ := h
    exact congrArg (· + 1) (ih hothers)

/-- The sum of some lengths. -/
def total : List Nat → Nat
  | [] => 0
  | length :: lengths => length + total lengths

@[simp] theorem total_nil : total [] = 0 := rfl

@[simp] theorem total_cons (length : Nat) (lengths : List Nat) :
    total (length :: lengths) = length + total lengths := rfl

theorem total_append (lengths more : List Nat) :
    total (lengths ++ more) = total lengths + total more := by
  induction lengths with
  | nil => exact (Nat.zero_add _).symm
  | cons length lengths ih =>
    rw [List.cons_append, total_cons, total_cons, ih, Nat.add_assoc]

theorem total_replicate (count length : Nat) :
    total (List.replicate count length) = count * length := by
  induction count with
  | zero => exact (Nat.zero_mul _).symm
  | succ count ih => rw [List.replicate_succ, total_cons, ih, Nat.succ_mul, Nat.add_comm]

theorem length_flatMap {α : Type} (encode : α → Bytes) (items : List α) :
    (items.flatMap encode).length = total (items.map fun a => (encode a).length) := by
  induction items with
  | nil => rfl
  | cons a items ih => rw [List.flatMap_cons, List.length_append, ih, List.map_cons, total_cons]

theorem length_flatMap_of_length_eq {α : Type} {encode : α → Bytes} {size : Nat}
    (h : ∀ a, (encode a).length = size) (items : List α) :
    (items.flatMap encode).length = size * items.length := by
  have hsize : (items.map fun a => (encode a).length) = List.replicate items.length size := by
    rw [List.map_congr_left fun a _ => h a, List.map_const']
  rw [length_flatMap, hsize, total_replicate, Nat.mul_comm]

/-! ## Writing in place -/

/-- Puts `data` over the front of `bytes`, which must be long enough. -/
def overlay (data bytes : Bytes) : Except Fault Bytes :=
  match take? data.length bytes with
  | some (_, rest) => .ok (data ++ rest)
  | none => .error .outOfRange

/-- Puts `data` over the bytes that start at position `start`. The range written must lie inside. -/
def overlayAt (start : Nat) (data bytes : Bytes) : Except Fault Bytes :=
  if start + data.length ≤ bytes.length then
    .ok (bytes.take start ++ data ++ bytes.drop (start + data.length))
  else
    .error .outOfRange

end Bytes

end MediaTransport
