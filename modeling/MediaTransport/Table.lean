import MediaTransport.Ident

/-!
# Tables by source

A finite map from sources to values. The entries stand in the order in which their sources came in
first; what is looked up is the value inserted last (`get?_insert`).
-/

namespace MediaTransport

/-- A finite map from sources to `α`. -/
structure Table (α : Type) where
  entries : List (Ssrc × α) := []
  deriving Repr

namespace Table

variable {α : Type}

/-- The table without entries. -/
def empty : Table α := ⟨[]⟩

instance : Inhabited (Table α) := ⟨empty⟩

/-- The value of `ssrc`. -/
def get? (t : Table α) (ssrc : Ssrc) : Option α := t.entries.lookup ssrc

/-- Puts `value` in place of the value of `ssrc`, or at the end. -/
def put (ssrc : Ssrc) (value : α) : List (Ssrc × α) → List (Ssrc × α)
  | [] => [(ssrc, value)]
  | entry :: entries =>
    if entry.1 = ssrc then (ssrc, value) :: entries else entry :: put ssrc value entries

/-- Sets the value of `ssrc`. -/
def insert (t : Table α) (ssrc : Ssrc) (value : α) : Table α := ⟨put ssrc value t.entries⟩

/-- The values, in the order in which their sources came in first. -/
def values (t : Table α) : List α := t.entries.map (·.2)

/-- Sets the value of several sources, one after the other. -/
def insertAll (t : Table α) (key : α → Ssrc) (values : List α) : Table α :=
  values.foldl (fun t value => t.insert (key value) value) t

@[simp] theorem get?_empty (ssrc : Ssrc) : (empty : Table α).get? ssrc = none := rfl

theorem lookup_cons_of_ne {ssrc other : Ssrc} (h : other ≠ ssrc) (value : α)
    (entries : List (Ssrc × α)) :
    ((ssrc, value) :: entries).lookup other = entries.lookup other := by
  have : (other == ssrc) = false := by simpa using h
  rw [List.lookup_cons, this]

theorem get?_insert (t : Table α) (ssrc other : Ssrc) (value : α) :
    (t.insert ssrc value).get? other = if other = ssrc then some value else t.get? other := by
  obtain ⟨entries⟩ := t
  simp only [insert, get?]
  induction entries with
  | nil =>
    by_cases ho : other = ssrc
    · simp [put, ho]
    · simp [put, ho, lookup_cons_of_ne]
  | cons entry entries ih =>
    obtain ⟨key, old⟩ := entry
    by_cases hk : key = ssrc
    · by_cases ho : other = ssrc
      · simp [put, hk, ho]
      · simp [put, hk, ho, lookup_cons_of_ne]
    · by_cases ho : other = key
      · simp [put, ho, hk]
      · simp [put, hk, lookup_cons_of_ne ho, ih]

/-- Of several values of one source the last counts. -/
theorem get?_insertAll (t : Table α) (key : α → Ssrc) (values : List α) (ssrc : Ssrc) :
    (t.insertAll key values).get? ssrc =
      ((values.filter fun value => key value = ssrc).getLast?).or (t.get? ssrc) := by
  unfold insertAll
  induction values generalizing t with
  | nil => rfl
  | cons value values ih =>
    rw [List.foldl_cons, ih, get?_insert, List.filter_cons]
    by_cases hkey : key value = ssrc
    · rw [if_pos hkey.symm, if_pos (decide_eq_true hkey), List.getLast?_cons]
      cases (values.filter fun value => key value = ssrc).getLast? <;> rfl
    · rw [if_neg (Ne.symm hkey), if_neg (mt of_decide_eq_true hkey)]

end Table

end MediaTransport
