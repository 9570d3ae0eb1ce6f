import MediaTransport.Rtcp.Compound

/-!
# The walk over a compound packet

A byte string is a sub-packet when the walk takes it whole (`IsSubPacket`). The walk is a unique
reading: each step takes off one sub-packet, and what follows plays no part in where it ends
(`next?_eq_some_iff`). So a walk can be read off any way of writing the bytes as sub-packets and a
rest that starts with none (`walk_flatten_append`), and every splice of whole sub-packets into a
compound packet is a splice of the list of its sub-packets.
-/

namespace MediaTransport.Rtcp.Compound

/-- One sub-packet and nothing else. -/
def IsSubPacket (sub : Bytes) : Prop := next? sub = some (sub, [])

instance (sub : Bytes) : Decidable (IsSubPacket sub) :=
  inferInstanceAs (Decidable (next? sub = some (sub, [])))

theorem next?_append {bytes sub rest : Bytes} (h : next? bytes = some (sub, rest)) (more : Bytes) :
    next? (bytes ++ more) = some (sub, rest ++ more) := by
  unfold next? at h
  split at h
  next first second third fourth tail =>
    split at h
    next hfits =>
      obtain ⟨happ, hlen⟩ := Bytes.take?_eq_some_iff.1 h
      simp only [next?, List.cons_append]
      rw [if_pos hfits, Bytes.take?_eq_some_iff]
      refine ⟨?_, hlen⟩
      rw [← List.append_assoc, ← happ]
      rfl
    next => cases h
  next => cases h

theorem isSubPacket_of_next? {bytes sub rest : Bytes} (h : next? bytes = some (sub, rest)) :
    IsSubPacket sub := by
  unfold next? at h
  split at h
  next first second third fourth tail =>
    split at h
    next hfits =>
      obtain ⟨happ, hlen⟩ := Bytes.take?_eq_some_iff.1 h
      -- The declared length counts the header, so that the header is a part of `sub`.
      match sub, happ, hlen with
      | [], _, hlen | [_], _, hlen | [_, _], _, hlen | [_, _, _], _, hlen =>
        simp only [List.length_cons, List.length_nil] at hlen
        omega
      | a :: b :: c :: d :: body, happ, hlen =>
        simp only [List.cons_append, List.cons.injEq] at happ
        obtain ⟨rfl, rfl, rfl, rfl, -⟩ := happ
        simp only [IsSubPacket, next?]
        rw [if_pos hfits, Bytes.take?_eq_some_iff]
        exact ⟨(List.append_nil _).symm, hlen⟩
    next => cases h
  next => cases h

/-- The first step of a walk is the one way to take a sub-packet off the front. -/
theorem next?_eq_some_iff {bytes sub rest : Bytes} :
    next? bytes = some (sub, rest) ↔ IsSubPacket sub ∧ bytes = sub ++ rest := by
  constructor
  · intro h
    exact ⟨isSubPacket_of_next? h, (eq_append_of_next? h).1⟩
  · rintro ⟨h, rfl⟩
    exact next?_append h rest

theorem IsSubPacket.next?_append {sub : Bytes} (h : IsSubPacket sub) (rest : Bytes) :
    next? (sub ++ rest) = some (sub, rest) :=
  next?_eq_some_iff.2 ⟨h, rfl⟩

/-! ## Walks -/

theorem walk_of_next?_none {bytes : Bytes} (h : next? bytes = none) : walk bytes = ([], bytes) := by
  rw [walk]
  split
  next sub rest hs => rw [h] at hs; cases hs
  next => rfl

theorem IsSubPacket.walk_append {sub : Bytes} (h : IsSubPacket sub) (rest : Bytes) :
    walk (sub ++ rest) = (sub :: subPackets rest, trailing rest) := by
  rw [walk]
  split
  next sub' rest' hs =>
    rw [h.next?_append rest] at hs
    cases hs
    rfl
  next hs => rw [h.next?_append rest] at hs; cases hs

theorem walk_flatten_append {subs : List Bytes} (hsubs : ∀ sub ∈ subs, IsSubPacket sub)
    {rest : Bytes} (hrest : next? rest = none) : walk (subs.flatten ++ rest) = (subs, rest) := by
  induction subs with
  | nil => exact walk_of_next?_none hrest
  | cons sub subs ih =>
    have hw := ih fun s hs => hsubs s (List.mem_cons_of_mem _ hs)
    rw [List.flatten_cons, List.append_assoc, (hsubs sub List.mem_cons_self).walk_append]
    unfold subPackets trailing
    rw [hw]

theorem walk_flatten {subs : List Bytes} (hsubs : ∀ sub ∈ subs, IsSubPacket sub) :
    walk subs.flatten = (subs, []) := by
  have h := @walk_flatten_append subs hsubs [] rfl
  rwa [List.append_nil] at h

theorem subPackets_flatten_append {subs : List Bytes} (hsubs : ∀ sub ∈ subs, IsSubPacket sub)
    {rest : Bytes} (hrest : next? rest = none) : subPackets (subs.flatten ++ rest) = subs :=
  congrArg Prod.fst (walk_flatten_append hsubs hrest)

theorem isSubPacket_of_mem_subPackets {bytes sub : Bytes} (h : sub ∈ subPackets bytes) :
    IsSubPacket sub := by
  unfold subPackets at h
  fun_induction walk bytes with
  | case1 bytes first rest hnext subs trail heq ih =>
    rw [heq] at ih
    rcases List.mem_cons.1 h with rfl | h
    · exact isSubPacket_of_next? hnext
    · exact ih h
  | case2 => cases h

theorem next?_trailing (bytes : Bytes) : next? (trailing bytes) = none := by
  unfold trailing
  fun_induction walk bytes with
  | case1 bytes first rest hnext subs trail heq ih =>
    rw [heq] at ih
    exact ih
  | case2 bytes h => exact h

/-- A packet is a control packet when its walk takes a first step. -/
theorem isControl_iff {bytes : Bytes} : isControl bytes = true ↔ subPackets bytes ≠ [] := by
  unfold isControl subPackets
  fun_cases walk bytes with
  | case1 sub rest h subs trail heq => simp [h]
  | case2 h => simp [h]

theorem next?_of_not_isControl {bytes : Bytes} (h : isControl bytes = false) :
    next? bytes = none := by
  rwa [isControl, Option.isSome_eq_false_iff, Option.isNone_iff_eq_none] at h

/-! ## Reading along the walk -/

theorem read_of_next?_none {bytes : Bytes} (h : next? bytes = none) : read bytes = [] := by
  rw [read]
  split
  next sub rest hs => rw [h] at hs; cases hs
  next => rfl

/-- The reader takes the sub-packets one at a time; only a padding that does not fit stops it. -/
theorem IsSubPacket.read_append {sub : Bytes} (h : IsSubPacket sub) (rest : Bytes) :
    read (sub ++ rest) =
      match unpadded? sub with
      | some packet => (Message.read packet).toOption.toList ++ read rest
      | none => [] := by
  rw [read]
  split
  next sub' rest' hs =>
    rw [h.next?_append rest] at hs
    cases hs
    cases unpadded? sub with
    | none => rfl
    | some packet =>
      cases hm : Message.read packet with
      | ok m => simp [hm, Except.toOption]
      | error e => simp [hm, Except.toOption]
  next hs => rw [h.next?_append rest] at hs; cases hs

/-- The message in a sub-packet, if there is one once the padding is off. -/
def message? (sub : Bytes) : Option Message :=
  (unpadded? sub).bind fun packet => (Message.read packet).toOption

theorem read_flatten_append {subs : List Bytes} (hsubs : ∀ sub ∈ subs, IsSubPacket sub)
    (hfits : ∀ sub ∈ subs, (unpadded? sub).isSome) {rest : Bytes} (hrest : next? rest = none) :
    read (subs.flatten ++ rest) = subs.filterMap message? := by
  induction subs with
  | nil => exact read_of_next?_none hrest
  | cons sub subs ih =>
    have hothers := ih (fun s hs => hsubs s (List.mem_cons_of_mem _ hs))
      (fun s hs => hfits s (List.mem_cons_of_mem _ hs))
    obtain ⟨packet, hpacket⟩ := Option.isSome_iff_exists.1 (hfits sub List.mem_cons_self)
    have hmessage : message? sub = (Message.read packet).toOption := by
      unfold message?
      rw [hpacket, Option.bind_some]
    rw [List.flatten_cons, List.append_assoc, (hsubs sub List.mem_cons_self).read_append, hpacket]
    simp only
    rw [hothers, List.filterMap_cons, hmessage]
    cases (Message.read packet).toOption <;> rfl

/-- Where all padding fits, the reader reads each sub-packet for itself. -/
theorem read_eq_filterMap {bytes : Bytes}
    (hfits : ∀ sub ∈ subPackets bytes, (unpadded? sub).isSome) :
    read bytes = (subPackets bytes).filterMap message? := by
  have h :=
    read_flatten_append (fun _ => isSubPacket_of_mem_subPackets) hfits (next?_trailing bytes)
  rwa [flatten_walk] at h

end MediaTransport.Rtcp.Compound
