/-!
# Socket addresses

A host, in either address family, and the number of a service on it. `Address.parse?` reads the
usual spellings, and `Address.text` writes the one canonical spelling: an IPv4 host in dotted
decimals, an IPv6 host in brackets, in lower case and with its longest run of zero groups left out.
-/

namespace MediaTransport

/-- Where packets come from or go to. -/
inductive Address where
  | ipv4 (a b c d : UInt8) (service : UInt16)
  | ipv6 (groups : Vector UInt16 8) (scope : UInt32) (service : UInt16)
  deriving DecidableEq, Repr

namespace Address

/-! ## Reading

A reader takes what it reads off the front of the text and hands back the rest. -/

/-- The value of a digit in bases up to 16. -/
def digit? (base : Nat) (c : Char) : Option Nat :=
  let value :=
    if '0' ≤ c ∧ c ≤ '9' then c.toNat - '0'.toNat
    else if 'a' ≤ c ∧ c ≤ 'f' then c.toNat - 'a'.toNat + 10
    else if 'A' ≤ c ∧ c ≤ 'F' then c.toNat - 'A'.toNat + 10
    else 16
  if value < base then some value else none

/-- The digits at the front, by value, and the rest. -/
def digits (base : Nat) : List Char → List Nat × List Char
  | [] => ([], [])
  | c :: text =>
    match digit? base c with
    | some value =>
      let (values, rest) := digits base text
      (value :: values, rest)
    | none => ([], c :: text)

/-- The number at the front, which must be below `bound`. -/
def number? (base bound : Nat) (text : List Char) : Option (Nat × List Char) :=
  let (values, rest) := digits base text
  let value := values.foldl (fun n d => n * base + d) 0
  if values ≠ [] ∧ value < bound then some (value, rest) else none

/-- The given character. -/
def expect? (c : Char) : List Char → Option (List Char)
  | d :: text => if c = d then some text else none
  | [] => none

/-- A part of a dotted host: at most three digits, and no zero in front of others. -/
def octet? (text : List Char) : Option (UInt8 × List Char) := do
  let (values, _) := digits 10 text
  if 3 < values.length ∨ (1 < values.length ∧ values.head? = some 0) then none
  let (n, rest) ← number? 10 256 text
  return (.ofNat n, rest)

/-- A host in dotted decimals. -/
def dotted? (text : List Char) : Option ((UInt8 × UInt8 × UInt8 × UInt8) × List Char) := do
  let (a, text) ← octet? text
  let (b, text) ← octet? (← expect? '.' text)
  let (c, text) ← octet? (← expect? '.' text)
  let (d, text) ← octet? (← expect? '.' text)
  return ((a, b, c, d), text)

/-- A group of an IPv6 host: at most four hexadecimal digits. -/
def group? (text : List Char) : Option (UInt16 × List Char) := do
  if 4 < (digits 16 text).1.length then none
  let (n, rest) ← number? 16 65536 text
  return (.ofNat n, rest)

/-- The groups at the front, at most `limit`, with colons between them and with `before` in front of
the first. The last two may be written in dotted decimals, and it is told whether they were. -/
def groups (before : Option Char) : Nat → List Char → List UInt16 × Bool × List Char
  | 0, text => ([], false, text)
  | limit + 1, text =>
    let start? := match before with
      | some c => expect? c text
      | none => some text
    match start? with
    | none => ([], false, text)
    | some start =>
      match (if 0 < limit then dotted? start else none) with
      | some ((a, b, c, d), rest) =>
        ([.ofNat (a.toNat * 256 + b.toNat), .ofNat (c.toNat * 256 + d.toNat)], true, rest)
      | none =>
        match group? start with
        | some (g, rest) =>
          let (more, dottedEnd, rest) := groups (some ':') limit rest
          (g :: more, dottedEnd, rest)
        | none => ([], false, text)

/-- The eight groups of a host: all of them, or those on either side of a double colon, which stands
for one zero group at least. -/
def hostGroups? (text : List Char) : Option (Vector UInt16 8 × List Char) := do
  let (front, dottedEnd, text) := groups none 8 text
  let (all, text) ←
    if front.length = 8 then some (front, text)
    else if dottedEnd then none
    else do
      let text ← expect? ':' (← expect? ':' text)
      let (back, _, text) := groups none (7 - front.length) text
      some (front ++ List.replicate (8 - front.length - back.length) 0 ++ back, text)
  if h : all.toArray.size = 8 then some (⟨all.toArray, h⟩, text) else none

/-- The number of the zone that a host belongs to; zero if it is left out. -/
def scope (text : List Char) : UInt32 × List Char :=
  match (expect? '%' text).bind (number? 10 UInt32.size) with
  | some (n, rest) => (.ofNat n, rest)
  | none => (0, text)

/-- The number of a service, with its colon. -/
def service? (text : List Char) : Option (UInt16 × List Char) := do
  let (n, rest) ← number? 10 UInt16.size (← expect? ':' text)
  return (.ofNat n, rest)

/-- An address of either family. -/
def read? (text : List Char) : Option (Address × List Char) :=
  match dotted? text with
  | some ((a, b, c, d), text) => do
    let (service, text) ← service? text
    return (ipv4 a b c d service, text)
  | none => do
    let (groups, text) ← hostGroups? (← expect? '[' text)
    let (scope, text) := scope text
    let (service, text) ← service? (← expect? ']' text)
    return (ipv6 groups scope service, text)

/-- Reads a text that is an address from start to end. -/
def parse? (text : String) : Option Address :=
  match read? text.toList with
  | some (address, []) => some address
  | _ => none

/-! ## Writing -/

/-- A host in dotted decimals. -/
def dottedText (a b c d : UInt8) : String :=
  ".".intercalate ([a, b, c, d].map fun octet => Nat.repr octet.toNat)

/-- Groups with colons between them. -/
def groupsText (groups : List UInt16) : String :=
  ":".intercalate (groups.map fun g => .ofList (Nat.toDigits 16 g.toNat))

/-- Where the longest run of zero groups starts, and its length; the first of equally long ones. -/
def longestZeroRun (groups : List UInt16) : Nat × Nat :=
  (List.range groups.length).foldl (fun best start =>
    let length := ((groups.drop start).takeWhile (· = 0)).length
    if best.2 < length then (start, length) else best) (0, 0)

/-- The canonical spelling of an IPv6 host. An IPv4 host that is mapped into IPv6 keeps its dotted
decimals, and a single zero group is written. -/
def hostText (groups : List UInt16) : String :=
  match groups with
  | [0, 0, 0, 0, 0, 0xffff, high, low] =>
    "::ffff:" ++ dottedText (.ofNat (high.toNat / 256)) (.ofNat high.toNat)
      (.ofNat (low.toNat / 256)) (.ofNat low.toNat)
  | _ =>
    let (start, length) := longestZeroRun groups
    if 1 < length then
      groupsText (groups.take start) ++ "::" ++ groupsText (groups.drop (start + length))
    else
      groupsText groups

/-- The canonical spelling of an address. -/
def text : Address → String
  | ipv4 a b c d service => dottedText a b c d ++ ":" ++ Nat.repr service.toNat
  | ipv6 groups scope service =>
    let zone := if scope = 0 then "" else "%" ++ Nat.repr scope.toNat
    "[" ++ hostText groups.toList ++ zone ++ "]:" ++ Nat.repr service.toNat

end Address

end MediaTransport
