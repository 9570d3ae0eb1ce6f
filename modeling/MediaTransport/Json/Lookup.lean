import MediaTransport.Json.Basic

/-!
# Looking things up in JSON

Access to the members of a document by name. What is missing, or is not of the kind that is asked
for, reads as null, zero, the empty text or the empty list.
-/

namespace MediaTransport.Json

/-- The member called `name`. -/
def field (j : Json) (name : String) : Json := (j.member? name).getD null

/-- Whether there is a member called `name` that is not null. -/
def has (j : Json) (name : String) : Bool :=
  match j.field name with
  | null => false
  | _ => true

/-! ## The content of a value -/

/-- A whole number. -/
def toInt : Json → Int
  | integer n => n
  | _ => 0

/-- A natural number. -/
def toNat (j : Json) : Nat := j.toInt.toNat

/-- A text. -/
def toText : Json → String
  | string s => s
  | _ => ""

/-- A truth value, for which a number that is not zero also stands. -/
def toBool : Json → Bool
  | bool b => b
  | integer n => n != 0
  | _ => false

/-- The items of an array. -/
def toList : Json → List Json
  | array items => items
  | _ => []

/-- Reads a value, unless it is null. -/
def ifPresent {α : Type} (read : Json → α) : Json → Option α
  | null => none
  | j => some (read j)

/-! ## The content of a member -/

/-- A whole number by name. -/
def int (j : Json) (name : String) : Int := (j.field name).toInt

/-- A natural number by name. -/
def nat (j : Json) (name : String) : Nat := (j.field name).toNat

/-- A natural number by name, which is `missing` if it is not there. -/
def natD (j : Json) (name : String) (missing : Nat) : Nat :=
  if j.has name then j.nat name else missing

/-- A text by name. -/
def text (j : Json) (name : String) : String := (j.field name).toText

/-- A truth value by name. -/
def flag (j : Json) (name : String) : Bool := (j.field name).toBool

/-- The items of an array by name. -/
def list (j : Json) (name : String) : List Json := (j.field name).toList

/-- The low byte of a number by name. -/
def byte (j : Json) (name : String) : UInt8 := .ofNat (j.nat name)

/-- The low 16 bits of a number by name. -/
def word16 (j : Json) (name : String) : UInt16 := .ofNat (j.nat name)

/-- The low 32 bits of a number by name. -/
def word32 (j : Json) (name : String) : UInt32 := .ofNat (j.nat name)

/-- The low 64 bits of a number by name. -/
def word64 (j : Json) (name : String) : UInt64 := .ofNat (j.nat name)

end MediaTransport.Json
