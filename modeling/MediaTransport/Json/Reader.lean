import MediaTransport.Json.Basic

/-!
# Reading JSON

A value is read off a list of characters. Arrays and objects nest at most as deep as the text is
long, which bounds the recursion.
-/

namespace MediaTransport.Json

/-- Whether a character separates tokens. -/
def isBlank (c : Char) : Bool :=
  c == ' ' || c == '\n' || c == '\r' || c == '\t'

/-- The text from its first token on. -/
def skipBlanks (text : List Char) : List Char :=
  text.dropWhile isBlank

/-- The value of a hexadecimal digit. -/
def hexValue? (c : Char) : Option Nat :=
  if c.isDigit then some (c.toNat - 48)
  else if 'a' ≤ c ∧ c ≤ 'f' then some (c.toNat - 87)
  else if 'A' ≤ c ∧ c ≤ 'F' then some (c.toNat - 55)
  else none

/-- The number that four hexadecimal digits write. -/
def hexWord? (a b c d : Char) : Option Nat := do
  return (((← hexValue? a) * 16 + (← hexValue? b)) * 16 + (← hexValue? c)) * 16 + (← hexValue? d)

/-- The character that follows a backslash in a string. -/
def unescape? : Char → Option Char
  | '"' => some '"'
  | '\\' => some '\\'
  | '/' => some '/'
  | 'b' => some '\x08'
  | 'f' => some '\x0c'
  | 'n' => some '\n'
  | 'r' => some '\r'
  | 't' => some '\t'
  | _ => none

/-- The rest of a string up to its closing quote, after the characters `seen`, latest first. A
character outside the basic plane may be written as two escapes. -/
def readString (seen : List Char) : List Char → Option (String × List Char)
  | [] => none
  | '"' :: rest => some (.ofList seen.reverse, rest)
  | '\\' :: 'u' :: a :: b :: c :: d :: rest =>
    match hexWord? a b c d with
    | some high =>
      if 0xD800 ≤ high ∧ high < 0xDC00 then
        match rest with
        | '\\' :: 'u' :: e :: f :: g :: h :: rest =>
          match hexWord? e f g h with
          | some low =>
            if 0xDC00 ≤ low ∧ low < 0xE000 then
              readString (.ofNat (0x10000 + (high - 0xD800) * 1024 + (low - 0xDC00)) :: seen) rest
            else
              none
          | none => none
        | _ => none
      else if 0xDC00 ≤ high ∧ high < 0xE000 then
        none
      else
        readString (.ofNat high :: seen) rest
    | none => none
  | '\\' :: c :: rest =>
    match unescape? c with
    | some c => readString (c :: seen) rest
    | none => none
  | c :: rest => readString (c :: seen) rest

/-- Whether a character can be part of a number. -/
def isNumeric (c : Char) : Bool :=
  c.isDigit || c == '-' || c == '+' || c == '.' || c == 'e' || c == 'E'

/-- The number that a run of numeric characters writes. -/
def ofLiteral? (literal : List Char) : Option Json :=
  let (negative, digits) := match literal with
    | '-' :: digits => (true, digits)
    | digits => (false, digits)
  if digits.isEmpty then
    none
  else if digits.all Char.isDigit ∧ ¬(negative ∧ digits.all (· == '0')) then
    let n : Nat := digits.foldl (fun n c => n * 10 + (c.toNat - 48)) 0
    some (integer (if negative then -n else n))
  else
    some (decimal (.ofList literal))

mutual

/-- The value at the front of the text. -/
def readValue : Nat → List Char → Option (Json × List Char)
  | 0, _ => none
  | depth + 1, text =>
    match skipBlanks text with
    | 'n' :: 'u' :: 'l' :: 'l' :: rest => some (null, rest)
    | 't' :: 'r' :: 'u' :: 'e' :: rest => some (bool true, rest)
    | 'f' :: 'a' :: 'l' :: 's' :: 'e' :: rest => some (bool false, rest)
    | '"' :: rest => do
      let (s, rest) ← readString [] rest
      return (string s, rest)
    | '[' :: rest =>
      match skipBlanks rest with
      | ']' :: rest => some (array [], rest)
      | rest => do
        let (items, rest) ← readItems depth rest
        return (array items, rest)
    | '\x7b' :: rest =>
      match skipBlanks rest with
      | '\x7d' :: rest => some (object [], rest)
      | rest => do
        let (members, rest) ← readMembers depth rest
        return (object members, rest)
    | text => do
      let value ← ofLiteral? (text.takeWhile isNumeric)
      return (value, text.dropWhile isNumeric)

/-- The items of an array, up to its closing bracket. -/
def readItems : Nat → List Char → Option (List Json × List Char)
  | 0, _ => none
  | depth + 1, text => do
    let (item, rest) ← readValue depth text
    match skipBlanks rest with
    | ',' :: rest =>
      let (items, rest) ← readItems depth rest
      return (item :: items, rest)
    | ']' :: rest => return ([item], rest)
    | _ => none

/-- The members of an object, up to its closing brace. -/
def readMembers : Nat → List Char → Option (List (String × Json) × List Char)
  | 0, _ => none
  | depth + 1, text => do
    match skipBlanks text with
    | '"' :: rest =>
      let (name, rest) ← readString [] rest
      match skipBlanks rest with
      | ':' :: rest =>
        let (value, rest) ← readValue depth rest
        match skipBlanks rest with
        | ',' :: rest =>
          let (members, rest) ← readMembers depth rest
          return ((name, value) :: members, rest)
        | '\x7d' :: rest => return ([(name, value)], rest)
        | _ => none
      | _ => none
    | _ => none

end

/-- The value that a text consists of. -/
def parse? (text : String) : Option Json := do
  let chars := text.toList
  let (value, rest) ← readValue (chars.length + 1) chars
  if (skipBlanks rest).isEmpty then return value else none

end MediaTransport.Json
