import MediaTransport.Address
import MediaTransport.Bytes

/-!
# Datagram filters

Filters are consulted in order, up to the first that does not accept the datagram.
-/

namespace MediaTransport

/-- What names a filter. -/
abbrev FilterId := Nat

/-- What a filter makes of a datagram. -/
structure Verdict where
  accepted : Bool
  /-- Whether the filter closes the receiver on it. -/
  closes : Bool := false
  deriving DecidableEq, Repr

/-- A filter, which judges a datagram by its bytes and where it came from. -/
structure Filter where
  id : FilterId
  judge : Bytes → Address → Verdict

/-- A filter was consulted. -/
structure Consultation where
  filter : FilterId
  /-- The length of the datagram. -/
  length : Nat
  verdict : Verdict
  deriving DecidableEq, Repr

namespace Filter

/-- Consults filters about a datagram. -/
def consult (bytes : Bytes) (source : Address) : List Filter → List Consultation
  | [] => []
  | f :: filters =>
    let verdict := f.judge bytes source
    ⟨f.id, bytes.length, verdict⟩ :: if verdict.accepted then consult bytes source filters else []

/-- Adds a filter, unless it is there already. -/
def add (filters : List Filter) (f : Filter) : List Filter :=
  if filters.any (·.id == f.id) then filters else filters ++ [f]

/-- Removes a filter. -/
def remove (filters : List Filter) (id : FilterId) : List Filter :=
  filters.filter (·.id != id)

/-- A datagram is accepted by all consulted filters just when it is accepted by all there are. -/
theorem all_consult (bytes : Bytes) (source : Address) (filters : List Filter) :
    ((consult bytes source filters).all (·.verdict.accepted)) =
      filters.all fun f => (f.judge bytes source).accepted := by
  induction filters with
  | nil => rfl
  | cons f filters ih =>
    cases h : (f.judge bytes source).accepted <;> simp [consult, h, ih]

end Filter

end MediaTransport
