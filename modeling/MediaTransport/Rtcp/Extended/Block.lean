import MediaTransport.Rtcp.Extended.VoipMetrics

/-!
# Blocks of an extended report

An extended report is a sequence of blocks. Each starts with a type, a byte whose meaning is up to
the type, and the number of words that follow. Three types are interpreted; a block of any other
type, or of a length that its type does not have, is kept as it is.

The number of words has 16 bits. For the items of a `delays` block it is a product in these bits,
which is taken as in a build that does not check for overflow; in the others 21846 items or more
panic.
-/

namespace MediaTransport.Rtcp

/-- The time at which a receiver sent its report. -/
structure ReferenceTime where
  ntpTime : UInt64
  deriving DecidableEq, Repr

namespace ReferenceTime

/-- The number of the block type. -/
def blockType : UInt8 := 4

/-- Length of what follows the block header, in words. -/
def bodyWords : Nat := 2

/-- The bytes that follow the block header. -/
def encodeBody (t : ReferenceTime) : Bytes := Bytes.ofUInt64 t.ntpTime

/-- The time in the bytes that follow a block header. -/
def readBody? (bytes : Bytes) : Option ReferenceTime := do
  let (ntpTime, _) ← Bytes.uint64? bytes
  return ⟨ntpTime⟩

@[simp] theorem length_encodeBody (t : ReferenceTime) : t.encodeBody.length = bodyWords * 4 := rfl

/-- The time in a whole block, whatever its header says. -/
def read (block : Bytes) : Except ParseError ReferenceTime :=
  match readBody? (block.drop 4) with
  | some t => .ok t
  | none => .error .shortReferenceTime

end ReferenceTime

/-- How long ago the last reference time of one receiver arrived. -/
structure ReceiverDelay where
  ssrc : Ssrc
  lastRrTime : UInt32 := 0
  lastRrDelay : UInt32 := 0
  deriving DecidableEq, Repr

namespace ReceiverDelay

/-- Length of an item in bytes. -/
def size : Nat := 12

/-- The bytes of an item. -/
def encode (d : ReceiverDelay) : Bytes :=
  d.ssrc.encode ++ (Bytes.ofUInt32 d.lastRrTime ++ Bytes.ofUInt32 d.lastRrDelay)

/-- The item at the front of `bytes`, and the rest. -/
def read? (bytes : Bytes) : Option (ReceiverDelay × Bytes) := do
  let (ssrc, rest) ← Ssrc.read? bytes
  let (lastRrTime, rest) ← Bytes.uint32? rest
  let (lastRrDelay, rest) ← Bytes.uint32? rest
  return (⟨ssrc, lastRrTime, lastRrDelay⟩, rest)

/-- All whole items of `bytes`. What is left over at the end is not read. -/
def readAll (bytes : Bytes) : List ReceiverDelay :=
  match bytes with
  | a :: b :: c :: d :: e :: f :: g :: h :: i :: j :: k :: l :: rest =>
    ⟨⟨Bytes.word32 a b c d⟩, Bytes.word32 e f g h, Bytes.word32 i j k l⟩ :: readAll rest
  | _ => []

/-- The items in a whole block, whatever its header says. -/
def readBlock (block : Bytes) : Except ParseError (List ReceiverDelay) :=
  match Bytes.take? 4 block with
  | some (_, body) => .ok (readAll body)
  | none => .error .shortDelays

@[simp] theorem length_encode (d : ReceiverDelay) : d.encode.length = size := rfl

end ReceiverDelay

/-- The number of the block type that lists receiver delays. -/
def delaysBlockType : UInt8 := 5

/-- A block of a type or length that is not interpreted. -/
structure UnknownBlock where
  blockType : UInt8
  /-- The byte after the type. -/
  typeSpecific : UInt8
  /-- What follows the block header. -/
  body : Bytes
  deriving DecidableEq, Repr

/-- A block of an extended report. -/
inductive Block where
  | referenceTime (t : ReferenceTime)
  | delays (items : List ReceiverDelay)
  | voipMetrics (m : VoipMetrics)
  | unknown (b : UnknownBlock)
  deriving DecidableEq, Repr

namespace Block

/-- Length of a block header in bytes. -/
def headerLength : Nat := 4

/-- Length of a block in bytes, with its header. -/
def length : Block → Nat
  | referenceTime _ => 4 + ReferenceTime.bodyWords * 4
  | delays items => 4 + ReceiverDelay.size * items.length
  | voipMetrics _ => 4 + VoipMetrics.bodyWords * 4
  | unknown b => 4 + b.body.length

/-- The header of a block with `words` words after it. The number is taken modulo 65536, as in a
build without overflow checks. -/
def encodeHeader (blockType typeSpecific : UInt8) (words : Nat) : Bytes :=
  blockType :: typeSpecific :: Bytes.ofUInt16 (.ofNat words)

/-- The bytes of a block, as a build without overflow checks writes them. The length in the header
is in whole words. -/
def encode : Block → Bytes
  | referenceTime t =>
    encodeHeader ReferenceTime.blockType 0 ReferenceTime.bodyWords ++ t.encodeBody
  | delays items =>
    encodeHeader delaysBlockType 0 (3 * items.length) ++ items.flatMap ReceiverDelay.encode
  | voipMetrics m => encodeHeader VoipMetrics.blockType 0 VoipMetrics.bodyWords ++ m.encodeBody
  | unknown b => encodeHeader b.blockType b.typeSpecific (b.body.length / 4) ++ b.body

@[simp] theorem length_encodeHeader (blockType typeSpecific : UInt8) (words : Nat) :
    (encodeHeader blockType typeSpecific words).length = headerLength := rfl

@[simp] theorem length_encode (b : Block) : b.encode.length = b.length := by
  cases b with
  | referenceTime t => rfl
  | delays items =>
    simp [encode, length, headerLength,
      Bytes.length_flatMap_of_length_eq ReceiverDelay.length_encode]
  | voipMetrics m => rfl
  | unknown b => simp [encode, length, headerLength]

/-- The block with the given header and body. -/
def ofParts (blockType typeSpecific : UInt8) (words : Nat) (body : Bytes) : Block :=
  let raw := unknown ⟨blockType, typeSpecific, body⟩
  if blockType = ReferenceTime.blockType ∧ words = ReferenceTime.bodyWords then
    (ReferenceTime.readBody? body).elim raw referenceTime
  else if blockType = delaysBlockType ∧ words % 3 = 0 then
    delays (ReceiverDelay.readAll body)
  else if blockType = VoipMetrics.blockType ∧ words = VoipMetrics.bodyWords then
    (VoipMetrics.readBody? body).elim raw voipMetrics
  else
    raw

/-- The block at the front of `bytes`, and the rest. -/
def read (bytes : Bytes) : Except ParseError (Block × Bytes) :=
  match bytes with
  | blockType :: typeSpecific :: a :: b :: rest =>
    let words := (Bytes.word16 a b).toNat
    match Bytes.take? (words * 4) rest with
    | some (body, rest) => .ok (ofParts blockType typeSpecific words body, rest)
    | none => .error .blockExceedsPacket
  | _ => .error .shortBlockHeader

theorem length_of_read {bytes rest : Bytes} {block : Block} (h : read bytes = .ok (block, rest)) :
    rest.length < bytes.length := by
  unfold read at h
  split at h
  next blockType typeSpecific a b tail =>
    simp only at h
    split at h
    next body rest' ht =>
      cases h
      obtain ⟨rfl, -⟩ := Bytes.take?_eq_some_iff.1 ht
      simp only [List.length_cons, List.length_append]
      omega
    next => cases h
  next => cases h

end Block

end MediaTransport.Rtcp
