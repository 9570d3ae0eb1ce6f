import MediaTransport.Json.Basic

/-!
# Reading settings from JSON

How the fields of a record are found in a JSON value, and what is accepted for each. A record is an
object, or an array of its fields in order. A number must be a non-negative integer within the width
of its field; a choice is its name, or an object with that name as its only member and null as the
value.
-/

namespace MediaTransport.Json

/-- The fields of a record: its members by name, or its items in order. -/
inductive Fields where
  | named (members : List (String × Json))
  | ordered (items : List Json)

/-- The fields of a value that is read as a record of `count` fields. -/
def fields? (count : Nat) : Json → Option Fields
  | object members => some (.named members)
  | array items => if items.length ≤ count then some (.ordered items) else none
  | _ => none

/-- The field called `name`, which is the field number `index` of its record. -/
def Fields.get? (fields : Fields) (index : Nat) (name : String) : Option Json :=
  match fields with
  | named members => (object members).member? name
  | ordered items => items[index]?

/-- A field that must be there. -/
def Fields.require? {α : Type} (fields : Fields) (index : Nat) (name : String)
    (decode? : Json → Option α) : Option α := do
  decode? (← fields.get? index name)

/-- A field that has the value `missing` when it is not there. -/
def Fields.getD? {α : Type} (fields : Fields) (index : Nat) (name : String)
    (decode? : Json → Option α) (missing : α) : Option α :=
  match fields.get? index name with
  | some value => decode? value
  | none => some missing

/-- A truth value. -/
def bool? : Json → Option Bool
  | bool b => some b
  | _ => none

/-- A text. -/
def string? : Json → Option String
  | string s => some s
  | _ => none

/-- A natural number below `bound`. -/
def natBelow? (bound : Nat) : Json → Option Nat
  | integer n => if 0 ≤ n ∧ n < bound then some n.toNat else none
  | _ => none

/-- A 64-bit number. -/
def uint64? (value : Json) : Option UInt64 :=
  (natBelow? UInt64.size value).map .ofNat

/-- A 32-bit number. -/
def uint32? (value : Json) : Option UInt32 :=
  (natBelow? UInt32.size value).map .ofNat

/-- A value that may be null. -/
def nullable? {α : Type} (decode? : Json → Option α) : Json → Option (Option α)
  | null => some none
  | value => (decode? value).map some

/-- One of several named choices. -/
def choice? {α : Type} (ofName? : String → Option α) : Json → Option α
  | string name => ofName? name
  | object [(name, null)] => ofName? name
  | _ => none

end MediaTransport.Json
