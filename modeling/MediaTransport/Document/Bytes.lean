import MediaTransport.Bytes
import MediaTransport.Ident
import MediaTransport.Json.Lookup
import MediaTransport.Json.Reader
import MediaTransport.Json.Writer

/-!
# Byte strings and numbers in documents

In a document a byte string is written in hexadecimal digits. A long one is not written out: its
length, its two ends and a fingerprint stand for it. Documents that are read may also repeat byte
strings and join them.
-/

namespace MediaTransport

namespace Bytes

/-- The two hexadecimal digits of each byte. -/
def toHex (bytes : Bytes) : String :=
  .ofList (bytes.flatMap fun b => [Json.hexDigit (b.toNat / 16), Json.hexDigit (b.toNat % 16)])

/-- The bytes with the given pairs of hexadecimal digits. -/
def ofHex : List Char → Bytes
  | a :: b :: digits =>
    .ofNat ((Json.hexValue? a).getD 0 * 16 + (Json.hexValue? b).getD 0) :: ofHex digits
  | _ => []

/-- The 64-bit fingerprint of a byte string by the method of Fowler, Noll and Vo: each byte is put
into the low end, and then the whole is multiplied by a prime. -/
def fingerprint (bytes : Bytes) : UInt64 :=
  bytes.foldl (fun h b => (h ^^^ b.toUInt64) * 0x100000001b3) 0xcbf29ce484222325

end Bytes

namespace Document

/-! ## Writing -/

/-- The longest byte string that is written out. -/
def maxWritten : Nat := 2048

/-- A byte string. -/
def ofBytes (bytes : Bytes) : Json :=
  let length := bytes.length
  if length ≤ maxWritten then
    .string bytes.toHex
  else
    .object [("len", .ofNat length), ("head", .string (Bytes.toHex (bytes.take 32))),
      ("tail", .string (Bytes.toHex (bytes.drop (length - 32)))),
      ("fnv1a", .string (Bytes.toHex (Bytes.ofUInt64 bytes.fingerprint)))]

/-- A value that may be missing. -/
def ofOption {α : Type} (write : α → Json) (a : Option α) : Json := .ofOption (a.map write)

/-- A list of values. -/
def ofList {α : Type} (write : α → Json) (items : List α) : Json := .array (items.map write)

/-- A byte as a number. -/
def ofByte (n : UInt8) : Json := .ofNat n.toNat

/-- A 16-bit number. -/
def ofWord16 (n : UInt16) : Json := .ofNat n.toNat

/-- A 32-bit number. -/
def ofWord32 (n : UInt32) : Json := .ofNat n.toNat

/-- A 64-bit number. -/
def ofWord64 (n : UInt64) : Json := .ofNat n.toNat

/-- A source. -/
def ofSsrc (s : Ssrc) : Json := ofWord32 s.value

/-! ## Reading -/

mutual

/-- A byte string: hexadecimal digits, an object with what is repeated (`rep`) and how often (`n`),
or an array of byte strings that are joined. -/
def toBytes : Json → Bytes
  | .string digits => Bytes.ofHex digits.toList
  | .array items => joined items
  | .object members => (List.replicate ((Json.object members).nat "n") (repeated members)).flatten
  | _ => []

/-- Byte strings, joined. -/
def joined : List Json → Bytes
  | [] => []
  | item :: items => toBytes item ++ joined items

/-- What is repeated. -/
def repeated : List (String × Json) → Bytes
  | [] => []
  | (name, value) :: members => if name == "rep" then toBytes value else repeated members

end

/-- A byte string by name. -/
def bytes (j : Json) (name : String) : Bytes := toBytes (j.field name)

/-- A source. -/
def toSsrc (j : Json) : Ssrc := ⟨.ofNat j.toNat⟩

/-- A source by name. -/
def ssrc (j : Json) (name : String) : Ssrc := toSsrc (j.field name)

end Document

end MediaTransport
