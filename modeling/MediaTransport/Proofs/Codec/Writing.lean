import MediaTransport.Proofs.Codec.Message

/-!
# Writing in place

Writing a message over a buffer puts down its encoding and leaves what lies behind, whatever stood
there before: over as many bytes as the message writes, `overlay` is `encode` (`overlay_append`). A
compound packet is therefore the encodings of its messages one after the other, as long as every
message declares the length that it writes (`write_of_written_eq`).
-/

namespace MediaTransport.Bytes

theorem overlay_append {data old : Bytes} (hlen : old.length = data.length) (rest : Bytes) :
    overlay data (old ++ rest) = .ok (data ++ rest) := by
  unfold overlay
  rw [← hlen, take?_append]

/-- A buffer with room for two pieces is two pieces. -/
theorem exists_append {old : Bytes} {m n : Nat} (hlen : old.length = m + n) :
    ∃ front back, old = front ++ back ∧ front.length = m ∧ back.length = n := by
  refine ⟨old.take m, old.drop m, (List.take_append_drop m old).symm, ?_, ?_⟩
  · rw [List.length_take]
    omega
  · rw [List.length_drop]
    omega

theorem take?_front {front : Bytes} {n : Nat} (hlen : front.length = n) (rest : Bytes) :
    take? n (front ++ rest) = some (front, rest) := by
  rw [← hlen, take?_append]

end MediaTransport.Bytes

namespace MediaTransport.Rtcp

namespace ExtendedReport

theorem overlayDelays_append {items : List ReceiverDelay} {old : Bytes}
    (hlen : old.length = ReceiverDelay.size * items.length) (rest : Bytes) :
    overlayDelays items (old ++ rest) = (items.flatMap ReceiverDelay.encode, some rest) := by
  induction items generalizing old with
  | nil =>
    rw [List.length_nil, Nat.mul_zero, List.length_eq_zero_iff] at hlen
    subst hlen
    rfl
  | cons item items ih =>
    rw [List.length_cons, Nat.mul_succ, Nat.add_comm] at hlen
    obtain ⟨front, back, rfl, hfront, hback⟩ := Bytes.exists_append hlen
    rw [List.append_assoc]
    simp only [overlayDelays, Bytes.take?_front hfront, ih hback, List.flatMap_cons]

theorem overlayBlock_append {b : Block} {old : Bytes} (hlen : old.length = b.length)
    (rest : Bytes) : overlayBlock b (old ++ rest) = .ok (b.encode, some rest) := by
  have hplain := Bytes.take?_front hlen rest
  cases b with
  | referenceTime t => simp only [overlayBlock, hplain]
  | voipMetrics m => simp only [overlayBlock, hplain]
  | unknown b => simp only [overlayBlock, hplain]
  | delays items =>
    obtain ⟨front, back, rfl, hfront, hback⟩ :=
      @Bytes.exists_append old Block.headerLength (ReceiverDelay.size * items.length) hlen
    rw [List.append_assoc]
    simp only [overlayBlock, Bytes.take?_front hfront, overlayDelays_append hback]
    rfl

theorem overlayBlocks_append {blocks : List Block} {old : Bytes}
    (hlen : old.length = Bytes.total (blocks.map Block.length)) (rest : Bytes) :
    overlayBlocks blocks (old ++ rest) = .ok (blocks.flatMap Block.encode ++ rest) := by
  induction blocks generalizing old with
  | nil =>
    rw [List.map_nil, Bytes.total_nil, List.length_eq_zero_iff] at hlen
    subst hlen
    rfl
  | cons b blocks ih =>
    rw [List.map_cons, Bytes.total_cons] at hlen
    obtain ⟨front, back, rfl, hfront, hback⟩ := Bytes.exists_append hlen
    rw [List.append_assoc]
    simp only [overlayBlocks, overlayBlock_append hfront, bind, Except.bind, ih hback,
      List.flatMap_cons, List.append_assoc]
    rfl

/-- Over as many bytes as it writes, a report puts down its encoding. -/
theorem overlay_append {x : ExtendedReport} {old : Bytes} (hlen : old.length = x.written)
    (rest : Bytes) : x.overlay (old ++ rest) = .ok (x.encode ++ rest) := by
  obtain ⟨front, back, rfl, hfront, hback⟩ :=
    @Bytes.exists_append old 8 (Bytes.total (x.blocks.map Block.length)) hlen
  rw [List.append_assoc]
  simp only [overlay, Bytes.take?_front hfront, overlayBlocks_append hback, bind, Except.bind,
    encode, List.append_assoc]
  rfl

end ExtendedReport

theorem Message.overlay_append {m : Message} {old : Bytes} (hlen : old.length = m.written)
    (rest : Bytes) : m.overlay (old ++ rest) = .ok (m.encode ++ rest) := by
  have hplain := Bytes.overlay_append (hlen.trans m.length_encode.symm) rest
  cases m with
  | extendedReport x => exact ExtendedReport.overlay_append hlen rest
  | senderReport r => exact hplain
  | receiverReport r => exact hplain
  | goodbye g => exact hplain

namespace Compound

theorem overlay_append {messages : List Message} {old : Bytes}
    (hlen : old.length = Bytes.total (messages.map Message.written)) (rest : Bytes) :
    overlay messages (old ++ rest) = .ok (messages.flatMap Message.encode ++ rest) := by
  induction messages generalizing old with
  | nil =>
    rw [List.map_nil, Bytes.total_nil, List.length_eq_zero_iff] at hlen
    subst hlen
    rfl
  | cons m messages ih =>
    rw [List.map_cons, Bytes.total_cons] at hlen
    obtain ⟨front, back, rfl, hfront, hback⟩ := Bytes.exists_append hlen
    have htake := Bytes.take?_front m.length_encode (back ++ rest)
    rw [List.append_assoc]
    simp only [overlay, Message.overlay_append hfront, bind, Except.bind, htake, ih hback,
      List.flatMap_cons, List.append_assoc]
    rfl

/-- A compound packet of messages that are as long as they declare is their encodings in a row. -/
theorem write_of_written_eq {messages : List Message}
    (h : ∀ m ∈ messages, m.written = m.words * 4) :
    write messages = .ok (messages.flatMap Message.encode) := by
  have hlen : (messages.map fun m => m.words * 4) = messages.map Message.written :=
    List.map_congr_left fun m hm => (h m hm).symm
  have hbuffer := @overlay_append messages
    (List.replicate (Bytes.total (messages.map Message.written)) 0) List.length_replicate []
  rw [List.append_nil, List.append_nil] at hbuffer
  unfold write
  rw [hlen, hbuffer]

theorem write_eq {messages : List Message} (h : ∀ m ∈ messages, m.Encodable) :
    write messages = .ok (messages.flatMap Message.encode) :=
  write_of_written_eq fun m hm => (h m hm).written_eq

end Compound

end MediaTransport.Rtcp
