import MediaTransport.Rtcp.Message

/-!
# Compound packets

Control packets travel one after the other in a compound packet. The walk over it looks at headers
alone: a sub-packet has version 2, a type in the range that tells control from media, and a declared
length that fits in what is left. It ends at the first bytes that are no sub-packet, so that a
compound packet is the sub-packets of its walk and then those bytes (`flatten_walk`).

The reader takes the padding off each sub-packet and skips those that it cannot interpret.
-/

namespace MediaTransport.Rtcp.Compound

/-- The first sub-packet and what follows it. -/
def next? (bytes : Bytes) : Option (Bytes × Bytes) :=
  match bytes with
  | first :: second :: third :: fourth :: _ =>
    if first >>> 6 = protocolVersion ∧ 192 ≤ second ∧ second ≤ 223 then
      Bytes.take? (((Bytes.word16 third fourth).toNat + 1) * 4) bytes
    else
      none
  | _ => none

/-- A sub-packet and what follows it make up the bytes, and a sub-packet is no shorter than a
header. -/
theorem eq_append_of_next? {bytes sub rest : Bytes} (h : next? bytes = some (sub, rest)) :
    bytes = sub ++ rest ∧ headerLength ≤ sub.length := by
  unfold next? at h
  split at h
  next =>
    split at h
    next =>
      obtain ⟨happ, hlen⟩ := Bytes.take?_eq_some_iff.1 h
      exact ⟨happ, by simp only [headerLength]; omega⟩
    next => cases h
  next => cases h

theorem length_of_next? {bytes sub rest : Bytes} (h : next? bytes = some (sub, rest)) :
    rest.length < bytes.length := by
  obtain ⟨rfl, hlen⟩ := eq_append_of_next? h
  simp only [headerLength] at hlen
  simp only [List.length_append]
  omega

/-- The declared length of the sub-packet that `bytes` starts with. -/
def length? (bytes : Bytes) : Option Nat :=
  (next? bytes).map fun sub => sub.1.length

/-- Whether `bytes` starts with a control packet. -/
def isControl (bytes : Bytes) : Bool :=
  (next? bytes).isSome

/-- The sub-packets, and the bytes after the last of them. -/
def walk (bytes : Bytes) : List Bytes × Bytes :=
  match _h : next? bytes with
  | some (sub, rest) =>
    let (subs, trailing) := walk rest
    (sub :: subs, trailing)
  | none => ([], bytes)
termination_by bytes.length
decreasing_by exact length_of_next? _h

/-- The sub-packets of a compound packet. -/
def subPackets (bytes : Bytes) : List Bytes := (walk bytes).1

/-- What follows the last sub-packet. -/
def trailing (bytes : Bytes) : Bytes := (walk bytes).2

theorem flatten_walk (bytes : Bytes) : (subPackets bytes).flatten ++ trailing bytes = bytes := by
  unfold subPackets trailing
  fun_induction walk bytes with
  | case1 bytes sub rest h subs trail heq ih =>
    obtain ⟨rfl, -⟩ := eq_append_of_next? h
    rw [heq] at ih
    simp only [List.flatten_cons, List.append_assoc]
    exact congrArg (sub ++ ·) ih
  | case2 => rfl

/-! ## Reading and writing messages -/

/-- A sub-packet without its padding, whose length is in the last byte; the padding must leave the
header. -/
def unpadded? (sub : Bytes) : Option Bytes :=
  match sub.head?, sub.getLast? with
  | some first, some last =>
    if Header.paddingBit first then
      if headerLength + last.toNat ≤ sub.length then
        some (sub.take (sub.length - last.toNat))
      else
        none
    else
      some sub
  | _, _ => none

/-- The messages of a compound packet. A sub-packet that is no message is skipped; reading ends at
the end of the walk, or at a sub-packet with more padding than it is long. -/
def read (bytes : Bytes) : List Message :=
  match _h : next? bytes with
  | some (sub, rest) =>
    match unpadded? sub with
    | some packet =>
      match Message.read packet with
      | .ok message => message :: read rest
      | .error _ => read rest
    | none => []
  | none => []
termination_by bytes.length
decreasing_by all_goals exact length_of_next? _h

/-- Writes messages one after the other over `bytes`. -/
def overlay : List Message → Bytes → Except Fault Bytes
  | [], bytes => .ok bytes
  | message :: messages, bytes => do
    let bytes ← message.overlay bytes
    match Bytes.take? message.written bytes with
    | some (front, rest) => return front ++ (← overlay messages rest)
    | none => if messages.isEmpty then return bytes else throw .outOfRange

/-- The compound packet of the given messages, in a buffer of their declared lengths. -/
def write (messages : List Message) : Except Fault Bytes :=
  overlay messages (List.replicate (Bytes.total (messages.map fun m => m.words * 4)) 0)

end MediaTransport.Rtcp.Compound
