import MediaTransport.Proofs.Access.Extended
import MediaTransport.Proofs.Compound.Walk

/-!
# Compound packets by position

The reader of a compound packet trusts the declared length once it has checked it against the bytes,
and the padding count once it has checked it against the declared length. The one step of its loop
is the one step of the walk (`Compound.fetchStep_eq`), and the loop ends because a declared length
is never zero.
-/

namespace MediaTransport.Rtcp

open Bytes

/-! ## One message -/

namespace Message

/-- The message at the front of `bytes`. -/
def fetch (bytes : Bytes) : Fetch ParseError Message := do
  let header ← Header.fetch bytes
  let body ← slice bytes headerLength (min header.bytes bytes.length)
  let count := header.count.val
  match header.type with
  | .senderReport => return senderReport (← SenderReport.fetchBody count body)
  | .receiverReport => return receiverReport (← ReceiverReport.fetchBody count body)
  | .extendedReport => return extendedReport (← ExtendedReport.fetchBody body)
  | .goodbye => return goodbye (← Goodbye.fetchBody count body)
  | _ => throw .ignoredType

/-- The message at the front of `bytes`, which must be of a kind that is interpreted. -/
def fetchParse (bytes : Bytes) : Fetch ReadError Message := do
  let header ← (Header.fetch bytes).adapt .malformed
  if interprets header.type then
    (fetch bytes).adapt .malformed
  else
    throw (.unexpectedType header.type)

theorem fetch_eq (bytes : Bytes) : fetch bytes = fetched (read bytes) := by
  unfold fetch read
  rw [Header.fetch_eq]
  refine fetched_bind _ fun header hheader => ?_
  have hlen := Header.headerLength_le_of_read hheader
  have hbytes := header.headerLength_le_bytes
  have hbody : slice bytes headerLength (min header.bytes bytes.length) =
      .ok ((bytes.take header.bytes).drop headerLength) := by
    rw [slice_eq_take_drop (by omega) (by omega), ← List.take_eq_take_min]
  rw [hbody, liftM_ok_bind]
  cases header.type with
  | senderReport =>
    simp only [SenderReport.fetchBody_eq]
    exact fetched_bind _ fun _ _ => rfl
  | receiverReport =>
    simp only [ReceiverReport.fetchBody_eq]
    exact fetched_bind _ fun _ _ => rfl
  | extendedReport =>
    simp only [ExtendedReport.fetchBody_eq]
    exact fetched_bind _ fun _ _ => rfl
  | goodbye =>
    simp only [Goodbye.fetchBody_eq]
    exact fetched_bind _ fun _ _ => rfl
  | sourceDescription | applicationDefined | transportLayerFeedback | payloadSpecificFeedback => rfl

theorem fetchParse_eq (bytes : Bytes) : fetchParse bytes = fetched (parse bytes) := by
  unfold fetchParse parse
  rw [Header.fetch_eq, fetch_eq]
  refine fetched_bind _ fun header _ => ?_
  split <;> rfl

end Message

/-! ## The walk -/

namespace Compound

/-- The declared length of the sub-packet that `bytes` starts with. -/
def fetchLength (bytes : Bytes) : Except Fault (Option Nat) :=
  if bytes.length < headerLength then
    return none
  else do
    let first ← byteAt bytes 0
    let second ← byteAt bytes 1
    if first >>> 6 = protocolVersion ∧ 192 ≤ second ∧ second ≤ 223 then
      let length := ((← word16At bytes 2).toNat + 1) * 4
      return if length ≤ bytes.length then some length else none
    else
      return none

theorem fetchLength_eq (bytes : Bytes) : fetchLength bytes = .ok (length? bytes) := by
  match bytes with
  | [] | [_] | [_, _] | [_, _, _] => rfl
  | first :: second :: third :: fourth :: rest =>
    have hheader : ¬(first :: second :: third :: fourth :: rest).length < headerLength := by
      simp [headerLength]
    unfold fetchLength length? next?
    rw [if_neg hheader]
    show (if first >>> 6 = protocolVersion ∧ 192 ≤ second ∧ second ≤ 223 then _ else _) = _
    simp only
    split
    next hfits =>
      cases htake : take? (((word16 third fourth).toNat + 1) * 4)
          (first :: second :: third :: fourth :: rest) with
      | none =>
        have hlen := take?_eq_none_iff.1 htake
        show Except.ok (if _ ≤ _ then _ else _) = _
        rw [if_neg (by omega)]
        rfl
      | some parts =>
        obtain ⟨sub, tail⟩ := parts
        obtain ⟨happ, hlen⟩ := take?_eq_some_iff.1 htake
        show Except.ok (if _ ≤ _ then _ else _) = _
        have := congrArg List.length happ
        rw [List.length_append] at this
        rw [if_pos (by omega), Option.map_some, hlen]
    next => rfl

theorem fetchLength_of_next? {bytes sub rest : Bytes} (h : next? bytes = some (sub, rest)) :
    fetchLength bytes = .ok (some sub.length) := by
  rw [fetchLength_eq, length?, h]
  rfl

/-- How much of a sub-packet of length `full` at the front of `bytes` is not padding. -/
def fetchUnpadded (bytes : Bytes) (full : Nat) : Except Fault (Option Nat) := do
  if Header.paddingBit (← byteAt bytes 0) then
    let padding := (← byteAt bytes (← difference full 1)).toNat
    if full < headerLength + padding then return none else return some (← difference full padding)
  else
    return some full

/-- What one step of the reader makes of the sub-packet at the front of `bytes`, and what is left to
read. -/
def fetchStep (bytes : Bytes) : Except Fault (Option (Option Message × Bytes)) := do
  match ← fetchLength bytes with
  | none => return none
  | some full =>
    match ← fetchUnpadded bytes full with
    | none => return none
    | some unpadded =>
      let message ← (Message.fetch (← slice bytes 0 unpadded)).run
      return some (message.toOption, ← sliceFrom bytes full)

theorem exists_padding {sub packet : Bytes} (h : unpadded? sub = some packet) :
    ∃ padding, sub = packet ++ padding := by
  unfold unpadded? at h
  split at h
  next =>
    split at h
    next =>
      split at h
      next =>
        cases h
        exact ⟨_, (List.take_append_drop _ sub).symm⟩
      next => cases h
    next =>
      cases h
      exact ⟨[], (List.append_nil _).symm⟩
  next => cases h

theorem fetchUnpadded_eq {sub : Bytes} (hsub : headerLength ≤ sub.length) (rest : Bytes) :
    fetchUnpadded (sub ++ rest) sub.length = .ok ((unpadded? sub).map List.length) := by
  have hpos : 0 < sub.length := Nat.lt_of_lt_of_le (by decide) hsub
  have hne : sub ≠ [] := List.length_pos_iff.1 hpos
  obtain ⟨first, tail, rfl⟩ := List.exists_cons_of_ne_nil hne
  obtain ⟨last, hlast⟩ : ∃ last, (first :: tail).getLast? = some last :=
    ⟨_, List.getLast?_eq_some_getLast hne⟩
  have hlastAt : byteAt (first :: tail ++ rest) ((first :: tail).length - 1) = .ok last := by
    rw [List.getLast?_eq_getElem?] at hlast
    unfold byteAt
    rw [List.getElem?_append_left (by omega), hlast]
  unfold fetchUnpadded unpadded?
  rw [difference_eq (by omega)]
  show (if Header.paddingBit first then byteAt _ ((first :: tail).length - 1) >>= _ else _) = _
  rw [hlastAt, hlast]
  simp only [List.head?_cons]
  by_cases hpadded : Header.paddingBit first
  · rw [if_pos hpadded, if_pos hpadded]
    show (if (first :: tail).length < headerLength + last.toNat then _ else _) = _
    by_cases hfits : headerLength + last.toNat ≤ (first :: tail).length
    · rw [if_neg (by omega), if_pos hfits, difference_eq (by omega), Option.map_some,
        List.length_take, Nat.min_eq_left (Nat.sub_le _ _)]
      rfl
    · rw [if_pos (by omega), if_neg hfits]
      rfl
  · rw [if_neg hpadded, if_neg hpadded]
    rfl

theorem fetchStep_eq (bytes : Bytes) : fetchStep bytes = .ok ((next? bytes).bind fun (sub, rest) =>
    (unpadded? sub).map fun packet => ((Message.read packet).toOption, rest)) := by
  unfold fetchStep
  cases hnext : next? bytes with
  | none =>
    rw [fetchLength_eq, length?, hnext]
    rfl
  | some step =>
    obtain ⟨sub, rest⟩ := step
    rw [fetchLength_of_next? hnext]
    obtain ⟨rfl, hsub⟩ := eq_append_of_next? hnext
    show (fetchUnpadded (sub ++ rest) sub.length >>= _) = _
    rw [fetchUnpadded_eq hsub]
    cases hpacket : unpadded? sub with
    | none =>
      simp only [Option.bind_some, hpacket]
      rfl
    | some packet =>
      obtain ⟨padding, rfl⟩ := exists_padding hpacket
      have hslice : slice (packet ++ padding ++ rest) 0 packet.length = .ok packet := by
        have h := @slice_eq [] packet (padding ++ rest) 0 packet.length rfl (Nat.zero_add _)
        rwa [List.nil_append, ← List.append_assoc] at h
      simp only [Option.bind_some, hpacket]
      show (slice (packet ++ padding ++ rest) 0 packet.length >>= _) = _
      rw [hslice, sliceFrom_append rfl]
      show ((Message.fetch packet).run >>= _) = _
      rw [Message.fetch_eq]
      rfl

/-- A step that goes on takes a sub-packet off. -/
theorem exists_of_fetchStep {bytes rest : Bytes} {message : Option Message}
    (h : fetchStep bytes = .ok (some (message, rest))) :
    ∃ sub packet, next? bytes = some (sub, rest) ∧ unpadded? sub = some packet ∧
      message = (Message.read packet).toOption := by
  rw [fetchStep_eq] at h
  obtain ⟨⟨sub, rest'⟩, hnext, hmap⟩ := Option.bind_eq_some_iff.1 (Except.ok.inj h)
  obtain ⟨packet, hpacket, heq⟩ := Option.map_eq_some_iff.1 hmap
  cases heq
  exact ⟨sub, packet, hnext, hpacket, rfl⟩

theorem length_of_fetchStep {bytes rest : Bytes} {message : Option Message}
    (h : fetchStep bytes = .ok (some (message, rest))) : rest.length < bytes.length := by
  obtain ⟨sub, packet, hnext, -⟩ := exists_of_fetchStep h
  exact length_of_next? hnext

/-- The messages of a compound packet. -/
def fetch (bytes : Bytes) : Except Fault (List Message) :=
  match _h : fetchStep bytes with
  | .ok (some (message, rest)) => return message.toList ++ (← fetch rest)
  | .ok none => return []
  | .error fault => throw fault
termination_by bytes.length
decreasing_by exact length_of_fetchStep _h

theorem fetch_eq (bytes : Bytes) : fetch bytes = .ok (read bytes) := by
  fun_induction fetch bytes with
  | case1 bytes message rest hstep ih =>
    obtain ⟨sub, packet, hnext, hpacket, rfl⟩ := exists_of_fetchStep hstep
    obtain ⟨hsub, rfl⟩ := next?_eq_some_iff.1 hnext
    rw [ih, hsub.read_append, hpacket]
    rfl
  | case2 bytes hstep =>
    rw [fetchStep_eq] at hstep
    cases hnext : next? bytes with
    | none =>
      rw [read_of_next?_none hnext]
      rfl
    | some step =>
      obtain ⟨sub, rest⟩ := step
      obtain ⟨hsub, rfl⟩ := next?_eq_some_iff.1 hnext
      rw [hnext, Option.bind_some] at hstep
      rw [hsub.read_append, Option.map_eq_none_iff.1 (Except.ok.inj hstep)]
      rfl
  | case3 bytes fault hstep =>
    rw [fetchStep_eq] at hstep
    cases hstep

end Compound

end MediaTransport.Rtcp
