import MediaTransport.Proofs.Codec.Image

/-!
# Truncated packets

A compound packet that is cut off is read up to the last message that is whole, and nothing is made
of the piece behind it (`read_take`). The readers of single messages would make something of a
piece, since they take a declared length that is too long for what there is. It is the walk that
never hands them one: of a sub-packet that is cut nothing is a sub-packet, wherever the cut is
(`IsSubPacket.next?_take`).
-/

namespace MediaTransport.Rtcp.Compound

/-- No sub-packet starts in what is left of one that is cut. -/
theorem IsSubPacket.next?_take {sub : Bytes} (h : IsSubPacket sub) {n : Nat} (hn : n < sub.length) :
    next? (sub.take n) = none := by
  by_contra hsome
  obtain ⟨⟨first, rest⟩, hnext⟩ := Option.ne_none_iff_exists'.1 hsome
  -- A step of the walk does not look behind its sub-packet, so that it would be the same without
  -- the cut.
  have hwhole := Compound.next?_append hnext (sub.drop n)
  rw [List.take_append_drop] at hwhole
  obtain ⟨rfl, -⟩ := Prod.mk.inj (Option.some.inj (h.symm.trans hwhole))
  have hlen := congrArg List.length (eq_append_of_next? hnext).1
  rw [List.length_take, List.length_append] at hlen
  omega

/-- The messages at the front that are written whole within `n` bytes. -/
def within : Nat → List Message → List Message
  | _, [] => []
  | n, m :: messages => if m.written ≤ n then m :: within (n - m.written) messages else []

theorem within_isPrefix (n : Nat) (messages : List Message) : within n messages <+: messages := by
  induction messages generalizing n with
  | nil => exact List.prefix_refl []
  | cons m messages ih =>
    rw [within]
    split
    next => exact (List.prefix_cons_inj m).2 (ih _)
    next => exact List.nil_prefix

theorem total_within_le (n : Nat) (messages : List Message) :
    Bytes.total ((within n messages).map Message.written) ≤ n := by
  induction messages generalizing n with
  | nil => exact Nat.zero_le n
  | cons m messages ih =>
    rw [within]
    split
    next hfits =>
      have hrest := ih (n - m.written)
      rw [List.map_cons, Bytes.total_cons]
      omega
    next => exact Nat.zero_le n

theorem prefix_within {n : Nat} {front messages : List Message} (hfront : front <+: messages)
    (hfits : Bytes.total (front.map Message.written) ≤ n) : front <+: within n messages := by
  induction messages generalizing n front with
  | nil => exact hfront
  | cons m messages ih =>
    rcases List.prefix_cons_iff.1 hfront with rfl | ⟨others, rfl, hothers⟩
    · exact List.nil_prefix
    · rw [List.map_cons, Bytes.total_cons] at hfits
      rw [within, if_pos (by omega), List.prefix_cons_inj]
      exact ih hothers (by omega)

/-- The first messages of a compound packet are read as long as they are whole. -/
theorem read_take_flatMap_encode {messages : List Message}
    (h : ∀ m ∈ messages, m.Encodable ∧ m.Exact) (n : Nat) :
    read ((messages.flatMap Message.encode).take n) = within n messages := by
  induction messages generalizing n with
  | nil =>
    rw [List.flatMap_nil, List.take_nil]
    exact read_of_next?_none rfl
  | cons m messages ih =>
    obtain ⟨⟨hencodable, hexact⟩, hrest⟩ := List.forall_mem_cons.1 h
    have hlen := m.length_encode
    rw [within, List.flatMap_cons]
    split
    next hfits =>
      obtain ⟨more, rfl⟩ := Nat.exists_eq_add_of_le hfits
      rw [← hlen, List.take_length_add_append, read_encode_append hencodable,
        Message.asRead_eq_self_iff.2 hexact, ih hrest, Nat.add_sub_cancel_left]
    next hcut =>
      rw [List.take_append_of_le_length (by omega)]
      exact read_of_next?_none (hencodable.isSubPacket_encode.next?_take (by omega))

/-- Whether the compound packet of some messages has no more than `n` bytes. -/
def WrittenWithin (n : Nat) (messages : List Message) : Prop :=
  ∃ bytes, write messages = .ok bytes ∧ bytes.length ≤ n

theorem writtenWithin_iff {messages : List Message} (h : ∀ m ∈ messages, m.Encodable) (n : Nat) :
    WrittenWithin n messages ↔ Bytes.total (messages.map Message.written) ≤ n := by
  have hlen : (messages.flatMap Message.encode).length =
      Bytes.total (messages.map Message.written) := by
    rw [Bytes.length_flatMap, List.map_congr_left fun m _ => m.length_encode]
  rw [← hlen]
  constructor
  · rintro ⟨bytes, hwrite, hle⟩
    cases hwrite.symm.trans (write_eq h)
    exact hle
  · exact fun hle => ⟨_, write_eq h, hle⟩

/-- What is read of the first bytes of a compound packet is the longest row of its first messages
that is written in no more bytes. -/
theorem read_take {messages : List Message} {bytes : Bytes} (hwrite : write messages = .ok bytes)
    (hread : read bytes = messages) (n : Nat) :
    read (bytes.take n) <+: messages ∧ WrittenWithin n (read (bytes.take n)) ∧
      ∀ front, front <+: messages → WrittenWithin n front → front <+: read (bytes.take n) := by
  have hall := roundTrip_iff.1 ⟨bytes, hwrite, hread⟩
  have hencodable : ∀ {front}, front <+: messages → ∀ m ∈ front, m.Encodable :=
    fun hfront m hm => (hall m (hfront.subset hm)).1
  have hbytes := write_eq (hencodable (List.prefix_refl messages))
  rw [hwrite] at hbytes
  rw [Except.ok.inj hbytes, read_take_flatMap_encode hall]
  have hfirst := within_isPrefix n messages
  refine ⟨hfirst, (writtenWithin_iff (hencodable hfirst) n).2 (total_within_le n messages), ?_⟩
  exact fun front hfront hfits =>
    prefix_within hfront ((writtenWithin_iff (hencodable hfront) n).1 hfits)

/-- Two bytes short of the end, the last message is lost. -/
theorem read_take_lastWords :
    ∃ bytes, write lastWords = .ok bytes ∧ bytes.length = 72 ∧ read bytes = lastWords ∧
      read (bytes.take 70) = lastWords.take 2 := by
  have hall : ∀ m ∈ lastWords, m.Encodable ∧ m.Exact := by decide
  obtain ⟨bytes, hwrite, hread⟩ := roundTrip_iff.2 hall
  have hwithin := writtenWithin_iff fun m hm => (hall m hm).1
  obtain ⟨hfirst, hfits, hlongest⟩ := read_take hwrite hread 70
  have htwo : lastWords.take 2 <+: read (bytes.take 70) := by
    refine hlongest _ ⟨lastWords.drop 2, rfl⟩ ((writtenWithin_iff ?_ 70).2 (by decide))
    exact fun m hm => (hall m (List.mem_of_mem_take hm)).1
  have hnotAll : read (bytes.take 70) ≠ lastWords := by
    intro hsame
    rw [hsame, hwithin] at hfits
    exact absurd hfits (by decide)
  refine ⟨bytes, hwrite, ?_, hread, (htwo.eq_of_length_le ?_).symm⟩
  · cases hwrite
    rfl
  · have hlt := Nat.lt_of_le_of_ne hfirst.length_le fun hlen => hnotAll (hfirst.eq_of_length hlen)
    exact Nat.le_of_lt_succ hlt

end MediaTransport.Rtcp.Compound
