/-!
# JSON values

Configurations are stored as JSON. A number that is written without fraction and exponent is an
integer of any size; any other number is kept as the text it was written as, since no setting takes
one.
-/

namespace MediaTransport

/-- A JSON value. -/
inductive Json where
  | null
  | bool (b : Bool)
  | integer (n : Int)
  /-- A number with a fraction or an exponent, or minus zero. -/
  | decimal (literal : String)
  | string (s : String)
  | array (items : List Json)
  | object (members : List (String × Json))
  deriving Repr, Inhabited

namespace Json

/-- The last member of an object with the given name. -/
def member? (name : String) : Json → Option Json
  | object members => (members.reverse.find? fun m => m.1 == name).map (·.2)
  | _ => none

/-- A natural number as a JSON value. -/
def ofNat (n : Nat) : Json := integer n

/-- A value that may be missing, which is written as null. -/
def ofOption : Option Json → Json
  | some value => value
  | none => null

end Json

end MediaTransport
