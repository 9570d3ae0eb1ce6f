import MediaTransport.Rtcp.Report

/-!
# Goodbye packets

A goodbye lists the sources that are no longer in use. A reason may follow the list; it is not read.
-/

namespace MediaTransport.Rtcp

/-- Sources that are no longer in use. -/
structure Goodbye where
  sources : ReportList Ssrc := .empty
  deriving DecidableEq, Repr

namespace Goodbye

/-- Length in words: the header and one word for each source. -/
def words (g : Goodbye) : Nat := 1 + g.sources.length

/-- The header of a goodbye. -/
def header (g : Goodbye) : Header := .ofParts .goodbye g.sources g.words

/-- The bytes of a goodbye. -/
def encode (g : Goodbye) : Bytes :=
  g.header.encode ++ g.sources.toList.flatMap Ssrc.encode

/-- Reads what follows the header of a goodbye with `count` sources. -/
def readBody (count : Nat) (body : Bytes) : Except ParseError Goodbye :=
  match Bytes.many? Ssrc.read? count body with
  | some (sources, _) =>
    match ReportList.ofList? sources with
    | some list => .ok ⟨list⟩
    | none => .error .tooManySources
  | none => .error .shortGoodbye

/-- Whether the raw goodbye `packet` lists `ssrc`. The sources must lie within the declared
length. -/
def lists (packet : Bytes) (ssrc : Ssrc) : Except ParseError Bool := do
  let header ← Header.read packet
  let body := (packet.take header.bytes).drop headerLength
  match Bytes.many? Ssrc.read? header.count.val body with
  | some (sources, _) => return sources.contains ssrc
  | none => throw .sourcesExceedPacket

end Goodbye

end MediaTransport.Rtcp
