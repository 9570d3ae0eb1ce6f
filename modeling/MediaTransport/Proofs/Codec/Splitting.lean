import MediaTransport.Proofs.Codec.Message

/-!
# Items put into lists one at a time

Lists of items that no bound comes with: an item is refused by a list of exactly 31 items and by no
other (`Items.push`), a refused item goes to a fresh list (`Items.Splitter.step`), and of a count
only five bits are written (`Items.headerBytes`).

While a sequence is split, the items seen so far are in the lists, and only the last list is not
full (`Splitter.Holds.step`). So the lists are in the end those of `ReportList.split`
(`map_toList_split`). The lists that can be made in one way or another are exactly those of at most
31 items (`made_iff`), and the header of a message says how many they are (`split_keeps`).
-/

namespace MediaTransport.Rtcp.Items

variable {α : Type}

/-! ## Filling -/

/-- Appends an item, or hands it back. Only a list of exactly 31 items refuses. -/
def push (items : List α) (a : α) : Except α (List α) :=
  if items.length = maxItems then .error a else .ok (items ++ [a])

/-- The list after an item was offered to it, whether or not it was taken. -/
def offer (items : List α) (a : α) : List α := (push items a).toOption.getD items

/-- The lists that are finished, and the one that is being filled. -/
structure Splitter (α : Type) where
  done : List (List α) := []
  current : List α := []

/-- Takes one more item. What the current list refuses is offered to a fresh one, which is not asked
whether it takes it. -/
def Splitter.step (s : Splitter α) (a : α) : Splitter α :=
  match push s.current a with
  | .ok current => { s with current }
  | .error refused => ⟨s.done ++ [s.current], offer [] refused⟩

/-- The lists when there are no more items. The last one may be empty, and is then left out. -/
def Splitter.finish (s : Splitter α) : List (List α) :=
  if s.current.isEmpty then s.done else s.done ++ [s.current]

/-- Any number of items, in lists. -/
def split (items : List α) : List (List α) := (items.foldl Splitter.step {}).finish

/-- The lists that can be made: without items, of one item, by splitting, and from another list by
offering it an item. -/
inductive Made : List α → Prop
  | empty : Made []
  | singleton (a : α) : Made [a]
  | split (items : List α) {l : List α} (h : l ∈ split items) : Made l
  | offer {l : List α} (h : Made l) (a : α) : Made (offer l a)

theorem push_of_length_lt {items : List α} (h : items.length < maxItems) (a : α) :
    push items a = .ok (items ++ [a]) :=
  if_neg (Nat.ne_of_lt h)

theorem push_of_length_eq {items : List α} (h : items.length = maxItems) (a : α) :
    push items a = .error a :=
  if_pos h

theorem offer_of_length_lt {items : List α} (h : items.length < maxItems) (a : α) :
    offer items a = items ++ [a] := by
  rw [offer, push_of_length_lt h]
  rfl

theorem offer_of_length_eq {items : List α} (h : items.length = maxItems) (a : α) :
    offer items a = items := by
  rw [offer, push_of_length_eq h]
  rfl

/-- A fresh list has room. -/
theorem offer_nil (a : α) : offer [] a = [a] := rfl

/-- A list that is never too long is pushed to as any other. -/
theorem push_toList (r : ReportList α) (a : α) :
    push r.toList a = (r.push a).map ReportList.toList := by
  unfold ReportList.push
  split
  next h => exact push_of_length_lt h a
  next h => exact push_of_length_eq (Nat.le_antisymm r.length_le (Nat.not_lt.1 h)) a

/-! ## The lists while they are filled -/

/-- The items seen so far are in the lists, in order; the finished lists are full, and the current
one is not more than that. -/
structure Splitter.Holds (s : Splitter α) (seen : List α) : Prop where
  joined : s.done.flatten ++ s.current = seen
  full : ∀ l ∈ s.done, l.length = maxItems
  fits : s.current.length ≤ maxItems

theorem Splitter.Holds.step {s : Splitter α} {seen : List α} (hs : s.Holds seen) (a : α) :
    (s.step a).Holds (seen ++ [a]) := by
  rcases Nat.lt_or_eq_of_le hs.fits with hroom | hfull
  · rw [Splitter.step, push_of_length_lt hroom]
    refine ⟨?_, hs.full, ?_⟩
    · show s.done.flatten ++ (s.current ++ [a]) = seen ++ [a]
      rw [← List.append_assoc, hs.joined]
    · show (s.current ++ [a]).length ≤ maxItems
      rw [List.length_append]
      exact hroom
  · -- The current list is finished, and the refused item is alone in the next one.
    rw [Splitter.step, push_of_length_eq hfull]
    refine ⟨?_, ?_, ?_⟩
    · show (s.done ++ [s.current]).flatten ++ offer [] a = seen ++ [a]
      rw [List.flatten_append, List.flatten_singleton, hs.joined, offer_nil]
    · exact List.forall_mem_append.2 ⟨hs.full, List.forall_mem_singleton.2 hfull⟩
    · show (offer [] a).length ≤ maxItems
      rw [offer_nil]
      exact Nat.succ_le_succ (Nat.zero_le _)

theorem Splitter.Holds.foldl_step {s : Splitter α} {seen : List α} (hs : s.Holds seen)
    (items : List α) : (items.foldl Splitter.step s).Holds (seen ++ items) := by
  induction items generalizing s seen with
  | nil => rwa [List.append_nil]
  | cons a items ih =>
    have hmore := ih (hs.step a)
    rwa [List.append_assoc] at hmore

theorem holds_foldl_step (items : List α) : (items.foldl Splitter.step {}).Holds items :=
  have hnone : Splitter.Holds ({} : Splitter α) [] := ⟨rfl, fun _ => nofun, Nat.zero_le _⟩
  hnone.foldl_step items

/-! ## The lists in the end -/

/-- What is asked of lists that `items` are split into. -/
structure IsSplit (items : List α) (lists : List (List α)) : Prop where
  joined : lists.flatten = items
  nonempty : ∀ l ∈ lists, l ≠ []
  length_le : ∀ l ∈ lists, l.length ≤ maxItems
  full : ∀ l ∈ lists.dropLast, l.length = maxItems

theorem ne_nil_of_full {l : List α} (h : l.length = maxItems) : l ≠ [] := by
  rintro rfl
  cases h

theorem Splitter.Holds.isSplit_finish {s : Splitter α} {items : List α} (hs : s.Holds items) :
    IsSplit items s.finish := by
  have hnonempty : ∀ l ∈ s.done, l ≠ [] := fun l hl => ne_nil_of_full (hs.full l hl)
  have hlength : ∀ l ∈ s.done, l.length ≤ maxItems := fun l hl => Nat.le_of_eq (hs.full l hl)
  unfold Splitter.finish
  by_cases hempty : s.current = []
  · rw [if_pos (List.isEmpty_iff.2 hempty)]
    refine ⟨?_, hnonempty, hlength, fun l hl => hs.full l (List.dropLast_subset _ hl)⟩
    rw [← hs.joined, hempty, List.append_nil]
  · rw [if_neg (mt List.isEmpty_iff.1 hempty)]
    refine ⟨?_, List.forall_mem_append.2 ⟨hnonempty, List.forall_mem_singleton.2 hempty⟩,
      List.forall_mem_append.2 ⟨hlength, List.forall_mem_singleton.2 hs.fits⟩, ?_⟩
    · rw [List.flatten_append, List.flatten_singleton, hs.joined]
    · rw [List.dropLast_concat]
      exact hs.full

theorem isSplit_split (items : List α) : IsSplit items (split items) :=
  (holds_foldl_step items).isSplit_finish

theorem map_toList_split_cons (a : α) (rest : List α) :
    (ReportList.split (a :: rest)).map ReportList.toList =
      (a :: rest).take maxItems ::
        (ReportList.split ((a :: rest).drop maxItems)).map ReportList.toList := by
  rw [ReportList.split]
  rfl

/-- A full list at the front is split off first. -/
theorem map_toList_split_append {l : List α} (hl : l.length = maxItems) (rest : List α) :
    (ReportList.split (l ++ rest)).map ReportList.toList =
      l :: (ReportList.split rest).map ReportList.toList := by
  cases l with
  | nil => cases hl
  | cons a l =>
    rw [List.cons_append, map_toList_split_cons, ← List.cons_append, List.take_left' hl,
      List.drop_left' hl]

theorem map_toList_split_flatten_append {lists : List (List α)}
    (hfull : ∀ l ∈ lists, l.length = maxItems) (rest : List α) :
    (ReportList.split (lists.flatten ++ rest)).map ReportList.toList =
      lists ++ (ReportList.split rest).map ReportList.toList := by
  induction lists with
  | nil => rfl
  | cons l lists ih =>
    rw [List.flatten_cons, List.append_assoc, map_toList_split_append (hfull l (.head _)),
      ih fun l hl => hfull l (.tail _ hl), List.cons_append]

/-- Few enough items are one list, if any. -/
theorem map_toList_split_of_length_le {l : List α} (hl : l.length ≤ maxItems) :
    (ReportList.split l).map ReportList.toList = if l.isEmpty then [] else [l] := by
  cases l with
  | nil =>
    rw [ReportList.split]
    rfl
  | cons a l =>
    rw [map_toList_split_cons, List.take_of_length_le hl, List.drop_of_length_le hl,
      ReportList.split]
    rfl

/-- Filling lists one item at a time cuts a sequence into pieces. -/
theorem map_toList_split (items : List α) :
    (ReportList.split items).map ReportList.toList = split items := by
  have hs := holds_foldl_step items
  unfold split Splitter.finish
  rw [← hs.joined, map_toList_split_flatten_append hs.full, map_toList_split_of_length_le hs.fits,
    hs.joined]
  split
  next => exact List.append_nil _
  next => rfl

/-! ## The lists that can be made -/

theorem length_offer_le {l : List α} (hl : l.length ≤ maxItems) (a : α) :
    (offer l a).length ≤ maxItems := by
  rcases Nat.lt_or_eq_of_le hl with hroom | hfull
  · rw [offer_of_length_lt hroom, List.length_append]
    exact hroom
  · rwa [offer_of_length_eq hfull]

theorem Made.length_le {l : List α} (hl : Made l) : l.length ≤ maxItems := by
  induction hl with
  | empty => exact Nat.zero_le _
  | singleton a => exact Nat.succ_le_succ (Nat.zero_le _)
  | split items h => exact (isSplit_split items).length_le _ h
  | offer _ a ih => exact length_offer_le ih a

theorem Made.append {front : List α} (hfront : Made front) {l : List α}
    (hl : (front ++ l).length ≤ maxItems) : Made (front ++ l) := by
  induction l generalizing front with
  | nil => rwa [List.append_nil]
  | cons a l ih =>
    have hroom : front.length < maxItems := by
      rw [List.length_append, List.length_cons] at hl
      omega
    have hnext := hfront.offer a
    rw [offer_of_length_lt hroom] at hnext
    rw [List.append_cons] at hl ⊢
    exact ih hnext hl

/-- The lists that can be made are those that are not too long. -/
theorem made_iff {l : List α} : Made l ↔ l.length ≤ maxItems :=
  ⟨Made.length_le, fun hl => Made.empty.append hl⟩

/-! ## The count in a header -/

/-- The header of a packet of `words` words without padding, of whose count the low five bits are
kept. -/
def headerBytes (type : PacketType) (count words : Nat) : Bytes :=
  (protocolVersion <<< 6 ||| (.ofNat count &&& 0x1f)) :: type.toByte ::
    Bytes.ofUInt16 (.ofNat (words - 1))

/-- The number of items that the header of a message counts. -/
def counted? : Message → Option Nat
  | .senderReport r => some r.reports.length
  | .receiverReport r => some r.reports.length
  | .goodbye g => some g.sources.length
  | .extendedReport _ => none

theorem ofNat_and_mask (n : Nat) : UInt8.ofNat n &&& 0x1f = .ofNat (n % 32) := by
  apply UInt8.toNat_inj.1
  rw [UInt8.toNat_and, UInt8.toNat_ofNat', UInt8.toNat_ofNat']
  show n % 256 &&& 2 ^ 5 - 1 = n % 32 % 256
  rw [Nat.and_two_pow_sub_one_eq_mod]
  omega

/-- The version and the count do not share a bit. -/
theorem version_or_count : ∀ count : Fin 32,
    (protocolVersion <<< 6 ||| .ofNat count.val) = Header.firstByte false count := by
  decide

/-- What is written of a count is what is left of it modulo 32. -/
theorem headerBytes_eq (type : PacketType) (count words : Nat) :
    headerBytes type count words =
      Header.encode ⟨type, false, ⟨count % 32, Nat.mod_lt _ (by decide)⟩, .ofNat (words - 1)⟩ := by
  rw [headerBytes, ofNat_and_mask, Header.encode_eq]
  exact congrArg (· :: _) (version_or_count ⟨count % 32, Nat.mod_lt _ (by decide)⟩)

theorem headerBytes_length (type : PacketType) (r : ReportList α) (words : Nat) :
    headerBytes type r.length words = (Header.ofParts type r words).encode := by
  have hlt : r.toList.length < 32 := Nat.lt_succ_of_le r.length_le
  rw [headerBytes_eq]
  simp only [Header.ofParts, ReportList.length, Nat.mod_eq_of_lt hlt]

/-- A message that counts its items starts with their number. -/
theorem encode_of_counted? {m : Message} {n : Nat} (h : counted? m = some n) :
    m.encode = headerBytes m.header.type n m.words ++ m.encodeBody := by
  rw [Message.encode_eq]
  cases m with
  | senderReport r | receiverReport r | goodbye g =>
    cases h
    rw [headerBytes_length]
    rfl
  | extendedReport x => cases h

theorem type_of_counted? {m : Message} {n : Nat} (h : counted? m = some n) :
    m.header.type ≠ .extendedReport := by
  cases m with
  | senderReport r | receiverReport r | goodbye g => nofun
  | extendedReport x => cases h

/-- A count of no more than five bits is read as it was written. -/
theorem read_headerBytes {type : PacketType} (htype : type ≠ .extendedReport) {count : Nat}
    (hcount : count ≤ maxItems) (words : Nat) (rest : Bytes) :
    Header.read (headerBytes type count words ++ rest) =
      .ok ⟨type, false, ⟨count, Nat.lt_succ_of_le hcount⟩, .ofNat (words - 1)⟩ := by
  have hmod : count % 32 = count := Nat.mod_eq_of_lt (Nat.lt_succ_of_le hcount)
  rw [headerBytes_eq, Header.read_encode]
  simp only [if_neg htype, hmod]

/-- Splitting loses nothing: the lists are those of `ReportList.split`, joined they are the items
again, none is empty or too long, and all but the last are full. No list that can be made is too
long: it is a `ReportList` and takes items as one, and a header that counts it is read with its
length. -/
theorem split_keeps (items : List α) {l : List α} (hl : Made l) :
    split items = (ReportList.split items).map ReportList.toList ∧ IsSplit items (split items) ∧
      (∃ r : ReportList α, r.toList = l ∧
        ∀ a, push l a = (r.push a).map ReportList.toList) ∧
      ∀ m : Message, counted? m = some l.length →
        (∃ body, m.encode = headerBytes m.header.type l.length m.words ++ body) ∧
          ∀ rest, ∃ header, Header.read (m.encode ++ rest) = .ok header ∧
            header.type = m.header.type ∧ header.count.val = l.length := by
  refine ⟨(map_toList_split items).symm, isSplit_split items,
    ⟨⟨l, hl.length_le⟩, rfl, push_toList ⟨l, hl.length_le⟩⟩, fun m hm => ?_⟩
  have hencode := encode_of_counted? hm
  refine ⟨⟨_, hencode⟩, fun rest => ?_⟩
  rw [hencode, List.append_assoc]
  exact ⟨_, read_headerBytes (type_of_counted? hm) hl.length_le _ _, rfl, rfl⟩

/-- Sixty-six sources are split into lists of 31, 31 and 4, and a goodbye to the second of them,
which takes no more, counts 31. -/
theorem split_keeps_sixty_six :
    let sources := (List.range 66).map fun n => (⟨.ofNat n⟩ : Ssrc)
    let full := (sources.drop 31).take 31
    (split sources).map List.length = [31, 31, 4] ∧ offer full ⟨0⟩ = full ∧
      ∃ r : ReportList Ssrc, r.toList = full ∧
        ∃ header, Header.read (Message.goodbye ⟨r⟩).encode = .ok header ∧
          header.count.val = 31 := by
  intro sources full
  have hsplit : split sources = [sources.take 31, full, sources.drop 62] := by decide +kernel
  have hmade : Made (offer full ⟨0⟩) :=
    .offer (.split sources (by rw [hsplit]; exact .tail _ (.head _))) _
  obtain ⟨-, -, ⟨r, hr, -⟩, hcount⟩ := split_keeps sources hmade
  obtain ⟨-, hread⟩ := hcount (.goodbye ⟨r⟩) (by rw [← hr]; rfl)
  obtain ⟨header, hheader, -, hlength⟩ := hread []
  have hfull : offer full ⟨0⟩ = full := rfl
  refine ⟨?_, hfull, r, hr.trans hfull, header, ?_, hlength⟩
  · rw [hsplit]
    rfl
  · rwa [List.append_nil] at hheader

end MediaTransport.Rtcp.Items
