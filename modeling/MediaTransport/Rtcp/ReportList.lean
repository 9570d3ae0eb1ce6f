import MediaTransport.Bytes

/-!
# Report lists

A control packet counts its reports or sources in five bits, so a list of them never holds more than
31 items (`ReportList.length_le`). Longer sequences are split over several lists: all but the last
are full, and none is empty.
-/

namespace MediaTransport.Rtcp

/-- The most items one header can count. -/
def maxItems : Nat := 31

/-- At most 31 items, in order. -/
structure ReportList (α : Type) where
  toList : List α
  length_le : toList.length ≤ maxItems
  deriving DecidableEq, Repr

namespace ReportList

variable {α : Type}

/-- The list without items. -/
def empty : ReportList α := ⟨[], Nat.zero_le _⟩

instance : Inhabited (ReportList α) := ⟨empty⟩

/-- The list with one item. -/
def singleton (a : α) : ReportList α := ⟨[a], by simp [maxItems]⟩

/-- Number of items. -/
def length (l : ReportList α) : Nat := l.toList.length

/-- Whether there are no items. -/
def isEmpty (l : ReportList α) : Bool := l.toList.isEmpty

/-- Whether no more items fit. -/
def isFull (l : ReportList α) : Bool := l.length == maxItems

/-- The item at position `i`. -/
def get? (l : ReportList α) (i : Nat) : Option α := l.toList[i]?

/-- The item at position `i`, which must be there. -/
def get (l : ReportList α) (i : Nat) : Except Fault α :=
  match l.get? i with
  | some a => .ok a
  | none => .error .outOfRange

/-- Appends an item, or hands it back when the list is full. -/
def push (l : ReportList α) (a : α) : Except α (ReportList α) :=
  if h : l.toList.length < maxItems then
    .ok ⟨l.toList ++ [a], by simp only [List.length_append, List.length_singleton]; omega⟩
  else
    .error a

/-- The list of `items`, if they are not too many. -/
def ofList? (items : List α) : Option (ReportList α) :=
  if h : items.length ≤ maxItems then some ⟨items, h⟩ else none

/-- Splits any number of items into full lists and a last one for the remainder. -/
def split : List α → List (ReportList α)
  | [] => []
  | a :: rest =>
    ⟨(a :: rest).take maxItems, List.length_take_le ..⟩ :: split ((a :: rest).drop maxItems)
termination_by items => items.length
decreasing_by
  simp only [List.length_drop, List.length_cons, maxItems]
  omega

end ReportList

end MediaTransport.Rtcp
