import MediaTransport.Json.Decode

/-!
# Crypto policies

Which cipher and which authentication protect the packets of a stream, and with keys of which
lengths. Lengths are in bytes; the text of a policy gives them in bits.
-/

namespace MediaTransport

/-- The cipher of the payload. -/
inductive Cipher where
  | null
  | aesCounter
  | aesF8
  | twofishCounter
  | twofishF8
  deriving DecidableEq, Repr

namespace Cipher

/-- The number of a cipher. -/
def number : Cipher → Nat
  | null => 0
  | aesCounter => 1
  | aesF8 => 2
  | twofishCounter => 3
  | twofishF8 => 4

/-- The name of a cipher. -/
def name : Cipher → String
  | null => "Null"
  | aesCounter => "AesCm"
  | aesF8 => "AesF8"
  | twofishCounter => "Twofish"
  | twofishF8 => "TwofishF8"

/-- All ciphers, by number. -/
def all : List Cipher := [null, aesCounter, aesF8, twofishCounter, twofishF8]

/-- The cipher with the given name. -/
def ofName? (name : String) : Option Cipher := all.find? fun c => c.name == name

@[simp] theorem ofName?_name (c : Cipher) : ofName? c.name = some c := by cases c <;> rfl

@[simp] theorem getElem?_all_number (c : Cipher) : all[c.number]? = some c := by cases c <;> rfl

end Cipher

/-- The authentication of packets. -/
inductive Authentication where
  | null
  | hmacSha1
  | skein
  deriving DecidableEq, Repr

namespace Authentication

/-- The number of an authentication. -/
def number : Authentication → Nat
  | null => 0
  | hmacSha1 => 1
  | skein => 2

/-- The name of an authentication. -/
def name : Authentication → String
  | null => "Null"
  | hmacSha1 => "HmacSha1"
  | skein => "Skein"

/-- All authentications, by number. -/
def all : List Authentication := [null, hmacSha1, skein]

/-- The authentication with the given name. -/
def ofName? (name : String) : Option Authentication := all.find? fun a => a.name == name

@[simp] theorem ofName?_name (a : Authentication) : ofName? a.name = some a := by cases a <;> rfl

@[simp] theorem getElem?_all_number (a : Authentication) : all[a.number]? = some a := by
  cases a <;> rfl

end Authentication

/-- How the packets of a stream are protected. -/
structure SrtpPolicy where
  cipher : Cipher
  cipherKeyLength : UInt64
  authentication : Authentication
  authenticationKeyLength : UInt64
  tagLength : UInt64
  saltLength : UInt64
  deriving DecidableEq, Repr

namespace SrtpPolicy

/-- AES in counter mode with a tag of 80 bits. -/
def aesCm128HmacSha1With80 : SrtpPolicy := ⟨.aesCounter, 16, .hmacSha1, 20, 10, 14⟩

/-- AES in counter mode with a tag of 32 bits. -/
def aesCm128HmacSha1With32 : SrtpPolicy := ⟨.aesCounter, 16, .hmacSha1, 20, 4, 14⟩

/-- AES in f8 mode with a tag of 80 bits. -/
def f8128HmacSha1With80 : SrtpPolicy := ⟨.aesF8, 16, .hmacSha1, 20, 10, 14⟩

/-- No protection. -/
def unprotected : SrtpPolicy := ⟨.null, 0, .null, 0, 0, 0⟩

/-- The text of a policy. -/
def describe (p : SrtpPolicy) : String :=
  let bits (length : UInt64) := Nat.repr (length.toNat * 8)
  p.cipher.name ++ "/" ++ bits p.cipherKeyLength ++ " " ++
    p.authentication.name ++ "/" ++ bits p.authenticationKeyLength ++
    " tag " ++ bits p.tagLength ++ " salt " ++ bits p.saltLength

/-- The stored form of a policy. -/
def toJson (p : SrtpPolicy) : Json :=
  .object [
    ("encryption", .string p.cipher.name),
    ("encryption_key_len", .ofNat p.cipherKeyLength.toNat),
    ("auth", .string p.authentication.name),
    ("auth_key_len", .ofNat p.authenticationKeyLength.toNat),
    ("auth_tag_len", .ofNat p.tagLength.toNat),
    ("salt_key_len", .ofNat p.saltLength.toNat)]

/-- Reads a policy. Every field must be there. -/
def ofJson? (value : Json) : Option SrtpPolicy := do
  let fields ← value.fields? 6
  return {
    cipher := ← fields.require? 0 "encryption" (Json.choice? Cipher.ofName?)
    cipherKeyLength := ← fields.require? 1 "encryption_key_len" Json.uint64?
    authentication := ← fields.require? 2 "auth" (Json.choice? Authentication.ofName?)
    authenticationKeyLength := ← fields.require? 3 "auth_key_len" Json.uint64?
    tagLength := ← fields.require? 4 "auth_tag_len" Json.uint64?
    saltLength := ← fields.require? 5 "salt_key_len" Json.uint64? }

end SrtpPolicy

end MediaTransport
