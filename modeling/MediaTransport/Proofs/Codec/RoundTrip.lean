import MediaTransport.Proofs.Codec.Writing

/-!
# The round trip of a compound packet

Writing messages and reading them back gives what the wire keeps of each
(`read_flatMap_encode_append`), with whatever follows the compound packet read after it. So the
messages come back exactly when each of them has room on the wire (`read_write`).
-/

namespace MediaTransport.Rtcp.Compound

/-- A written message is one step of the reader. -/
theorem read_encode_append {m : Message} (hm : m.Encodable) (rest : Bytes) :
    read (m.encode ++ rest) = m.asRead :: read rest := by
  have hmessage := hm.read_encode []
  rw [List.append_nil] at hmessage
  rw [hm.isSubPacket_encode.read_append, m.unpadded?_encode]
  show (Message.read m.encode).toOption.toList ++ read rest = _
  rw [hmessage]
  rfl

theorem read_flatMap_encode_append {messages : List Message} (h : ∀ m ∈ messages, m.Encodable)
    (rest : Bytes) :
    read (messages.flatMap Message.encode ++ rest) = messages.map Message.asRead ++ read rest := by
  induction messages with
  | nil => rfl
  | cons m messages ih =>
    have htail := ih fun n hn => h n (List.mem_cons_of_mem _ hn)
    rw [List.flatMap_cons, List.append_assoc, read_encode_append (h m List.mem_cons_self), htail]
    rfl

theorem map_asRead_eq_self_iff {messages : List Message} :
    messages.map Message.asRead = messages ↔ ∀ m ∈ messages, m.Exact := by
  constructor
  · intro h m hm
    have hid := h.trans (List.map_id messages).symm
    exact Message.asRead_eq_self_iff.1 (List.map_inj_left.1 hid m hm)
  · intro h
    have hid := List.map_congr_left fun m hm => Message.asRead_eq_self_iff.2 (h m hm)
    exact hid.trans (List.map_id messages)

/-- Messages that can be written come back from the wire exactly when each of them has room there,
and then they come back in front of whatever follows them. -/
theorem read_write {messages : List Message} (h : ∀ m ∈ messages, m.Encodable) :
    ∃ bytes, write messages = .ok bytes ∧
      (read bytes = messages ↔ ∀ m ∈ messages, m.Exact) ∧
      ((∀ m ∈ messages, m.Exact) → ∀ rest, read (bytes ++ rest) = messages ++ read rest) := by
  refine ⟨messages.flatMap Message.encode, write_eq h, ?_, ?_⟩
  · have hread := read_flatMap_encode_append h []
    have hnil : read [] = [] := read_of_next?_none rfl
    rw [hnil, List.append_nil, List.append_nil] at hread
    rw [hread]
    exact map_asRead_eq_self_iff
  · intro hexact rest
    rw [read_flatMap_encode_append h rest, map_asRead_eq_self_iff.2 hexact]

/-- An originator that answers a reference time, and says goodbye. -/
def lastWords : List Message :=
  [.receiverReport ⟨⟨1⟩, ⟨[⟨⟨2⟩, 0, 16777215, 9, 0, 5, 6⟩], by decide⟩⟩,
    .extendedReport ⟨⟨1⟩, [.delays [⟨⟨2⟩, 3, 4⟩], .unknown ⟨9, 1, [1, 2, 3, 4]⟩]⟩,
    .goodbye ⟨⟨[⟨1⟩], by decide⟩⟩]

theorem read_write_lastWords :
    ∃ bytes, write lastWords = .ok bytes ∧ read bytes = lastWords ∧
      ∀ rest, read (bytes ++ rest) = lastWords ++ read rest := by
  have hexact : ∀ m ∈ lastWords, m.Exact := by decide
  obtain ⟨bytes, hwrite, hread, hrest⟩ := @read_write lastWords (by decide)
  exact ⟨bytes, hwrite, hread.2 hexact, hrest hexact⟩

end MediaTransport.Rtcp.Compound
