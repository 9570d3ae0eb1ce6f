import MediaTransport.Rtcp.Extended.Block

/-!
# Extended reports

An extended report is written block by block over a buffer. As a rule that puts down `encode` and
nothing else. A block that is not a whole number of words leaves the declared length of the report
short of what is written, and a list of receiver delays that runs into the end of the buffer is cut
there, so writing says how many bytes it meant to write (`written`), and fails when a block does not
start inside the buffer.
-/

namespace MediaTransport.Rtcp

/-- A report made of blocks. -/
structure ExtendedReport where
  ssrc : Ssrc
  blocks : List Block := []
  deriving DecidableEq, Repr

namespace ExtendedReport

/-- Length in words, as declared: the header, the originator and the whole words of each block. -/
def words (x : ExtendedReport) : Nat :=
  2 + Bytes.total (x.blocks.map fun block => block.length / 4)

/-- Length of everything that is written, in bytes. -/
def written (x : ExtendedReport) : Nat :=
  8 + Bytes.total (x.blocks.map Block.length)

/-- The header of an extended report. -/
def header (x : ExtendedReport) : Header where
  type := .extendedReport
  padding := false
  count := ⟨0, by decide⟩
  wordsLessOne := .ofNat (x.words - 1)

/-- The bytes of an extended report. -/
def encode (x : ExtendedReport) : Bytes :=
  x.header.encode ++ (x.ssrc.encode ++ x.blocks.flatMap Block.encode)

/-- The voice quality blocks. -/
def voipMetrics (x : ExtendedReport) : List VoipMetrics :=
  x.blocks.filterMap fun
    | .voipMetrics m => some m
    | _ => none

/-! ## Reading -/

/-- Reads blocks until the bytes are used up. -/
def readBlocks (bytes : Bytes) : Except ParseError (List Block) :=
  if bytes.isEmpty then
    .ok []
  else
    match _h : Block.read bytes with
    | .ok (block, rest) => return block :: (← readBlocks rest)
    | .error e => .error e
termination_by bytes.length
decreasing_by exact Block.length_of_read _h

/-- Reads what follows the header of an extended report. -/
def readBody (body : Bytes) : Except ParseError ExtendedReport :=
  match Ssrc.read? body with
  | some (ssrc, rest) => return ⟨ssrc, ← readBlocks rest⟩
  | none => .error .shortExtendedReport

/-! ## Writing over a buffer -/

/-- Writes as many of the items as fit over `bytes`: what stands in their place then, and what
follows them if all of them fit. -/
def overlayDelays : List ReceiverDelay → Bytes → Bytes × Option Bytes
  | [], bytes => ([], some bytes)
  | item :: items, bytes =>
    match Bytes.take? ReceiverDelay.size bytes with
    | some (_, rest) =>
      let (front, rest) := overlayDelays items rest
      (item.encode ++ front, rest)
    | none => (bytes, none)

/-- Writes a block over the front of `bytes`: what stands in its place then, and what follows it
unless it runs into the end. -/
def overlayBlock (block : Block) (bytes : Bytes) : Except Fault (Bytes × Option Bytes) :=
  match block with
  | .delays items =>
    match Bytes.take? Block.headerLength bytes with
    | some (_, rest) =>
      let (front, rest) := overlayDelays items rest
      .ok (Block.encodeHeader delaysBlockType 0 (3 * items.length) ++ front, rest)
    | none => .error .outOfRange
  | block =>
    match Bytes.take? block.length bytes with
    | some (_, rest) => .ok (block.encode, some rest)
    | none => .error .outOfRange

/-- Writes blocks one after the other over the front of `bytes`. Only the last may run into the
end. -/
def overlayBlocks : List Block → Bytes → Except Fault Bytes
  | [], bytes => .ok bytes
  | block :: blocks, bytes => do
    match ← overlayBlock block bytes with
    | (front, some rest) => return front ++ (← overlayBlocks blocks rest)
    | (front, none) => if blocks.isEmpty then return front else throw .outOfRange

/-- Writes an extended report over the front of `bytes`. -/
def overlay (x : ExtendedReport) (bytes : Bytes) : Except Fault Bytes :=
  match Bytes.take? 8 bytes with
  | some (_, rest) => return x.header.encode ++ (x.ssrc.encode ++ (← overlayBlocks x.blocks rest))
  | none => .error .outOfRange

end ExtendedReport

end MediaTransport.Rtcp
