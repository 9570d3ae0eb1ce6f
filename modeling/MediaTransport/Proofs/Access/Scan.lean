import MediaTransport.Proofs.Access.Compound
import MediaTransport.Proofs.Splice.Insertion
import MediaTransport.Rtcp.ReportScan

/-!
# Sub-packets by their places in a buffer

The sub-packets of a packet are listed by where they start in its buffer and how long they are, and
are looked at there: for the sources of the reports, and for the place of an extended report. A
report scan reads from the buffer and not from the sub-packet, so that only the length it has asked
for keeps it inside (`ReportSources.ofRaw?_eq_none_iff`).
-/

namespace MediaTransport.Rtcp.Compound

open Bytes

/-! ## Places -/

/-- The declared length of the sub-packet at position `off`, in a packet that ends at `stop`. -/
def fetchPlace (buffer : Bytes) (off stop : Nat) : Except Fault (Option Nat) := do
  fetchLength (← slice buffer off stop)

theorem length_pos_of_fetchPlace {buffer : Bytes} {off stop length : Nat}
    (h : fetchPlace buffer off stop = .ok (some length)) : 0 < length := by
  unfold fetchPlace at h
  cases hslice : slice buffer off stop with
  | error fault =>
    rw [hslice] at h
    cases h
  | ok bytes =>
    have hlength : fetchLength bytes = .ok (some length) := by rwa [hslice] at h
    rw [fetchLength_eq] at hlength
    obtain ⟨⟨sub, rest⟩, hnext, rfl⟩ := Option.map_eq_some_iff.1 (Except.ok.inj hlength)
    exact Nat.lt_of_lt_of_le (by decide) (eq_append_of_next? hnext).2

/-- Position and length of each sub-packet of the bytes from `off` to `stop`. -/
def fetchPlaces (buffer : Bytes) (off stop : Nat) : Except Fault (List (Nat × Nat)) :=
  if off < stop then
    match _h : fetchPlace buffer off stop with
    | .ok (some length) => return (off, length) :: (← fetchPlaces buffer (off + length) stop)
    | .ok none => return []
    | .error fault => throw fault
  else
    return []
termination_by stop - off
decreasing_by
  have := length_pos_of_fetchPlace _h
  omega

/-- Position and length of pieces that stand one after the other from `off` on. -/
def places (off : Nat) : List Bytes → List (Nat × Nat)
  | [] => []
  | sub :: subs => (off, sub.length) :: places (off + sub.length) subs

theorem fetchPlaces_eq {buffer bytes : Bytes} {off : Nat} (h : Holds buffer off bytes) :
    fetchPlaces buffer off (off + bytes.length) = .ok (places off (subPackets bytes)) := by
  unfold subPackets
  fun_induction walk bytes generalizing off with
  | case1 bytes sub rest hnext subs trail heq ih =>
    obtain ⟨happ, hlen⟩ := eq_append_of_next? hnext
    have hpos : 0 < sub.length := Nat.lt_of_lt_of_le (by decide) hlen
    have hplace : fetchPlace buffer off (off + bytes.length) = .ok (some sub.length) := by
      unfold fetchPlace
      rw [h.slice_eq]
      exact fetchLength_of_next? hnext
    have hrest : fetchPlaces buffer (off + sub.length) (off + bytes.length) =
        .ok (places (off + sub.length) subs) := by
      rw [happ] at h ⊢
      rw [List.length_append, ← Nat.add_assoc, ih h.right, heq]
    have hlength : bytes.length = sub.length + rest.length := by rw [happ, List.length_append]
    rw [fetchPlaces, if_pos (by omega)]
    split
    next length hs =>
      rw [hplace] at hs
      cases hs
      rw [hrest]
      rfl
    next hs => rw [hplace] at hs; cases hs
    next hs => rw [hplace] at hs; cases hs
  | case2 bytes hnext =>
    have hplace : fetchPlace buffer off (off + bytes.length) = .ok none := by
      unfold fetchPlace
      rw [h.slice_eq]
      show fetchLength bytes = _
      rw [fetchLength_eq, length?, hnext]
      rfl
    rw [fetchPlaces]
    split
    next =>
      split
      next hs => rw [hplace] at hs; cases hs
      next => rfl
      next hs => rw [hplace] at hs; cases hs
    next => rfl

end MediaTransport.Rtcp.Compound

namespace MediaTransport.Rtcp

open Bytes

/-! ## The sources of reports -/

/-- The source at position `pos` of the buffer. -/
def sourceAt (buffer : Bytes) (pos : Nat) : Except Fault Ssrc := do
  return ⟨← word32At (← sliceFrom buffer pos) 0⟩

theorem Ssrc.read?_append {bytes rest : Bytes} {s : Ssrc} (hs : Ssrc.read? bytes = some (s, rest))
    (behind : Bytes) : Ssrc.read? (bytes ++ behind) = some (s, rest ++ behind) := by
  iterate 4
    rcases bytes with _ | ⟨_, bytes⟩
    · cases hs
  cases hs
  rfl

theorem sourceAt_eq {buffer bytes rest : Bytes} {pos : Nat} {s : Ssrc} (h : Holds buffer pos bytes)
    (hs : Ssrc.read? bytes = some (s, rest)) : sourceAt buffer pos = .ok s := by
  obtain ⟨front, behind, rfl, hfront⟩ := h
  unfold sourceAt
  rw [sliceFrom_append hfront]
  show word32At (bytes ++ behind) 0 >>= _ = _
  rw [Ssrc.word32At_of_read? (Ssrc.read?_append hs behind)]
  rfl

namespace ReportSources

/-- The originator and the sources of the report at position `off`, with `skipped` bytes between the
originator and the first of `count` blocks. -/
def fetchRaw (buffer : Bytes) (off skipped count : Nat) : Except Fault ReportSources := do
  let sender ← sourceAt buffer (off + 4)
  let sources ← (List.range' (off + 8 + skipped) count ReceptionReport.size).mapM (sourceAt buffer)
  return ⟨sender, sources⟩

/-- The originator and the sources of the report of the given length at position `off`, unless it is
too short for the blocks that it counts. -/
def fetchReport? (buffer : Bytes) (off length skipped : Nat) :
    Except Fault (Option ReportSources) := do
  let count := (Header.countBits (← byteAt buffer off)).val
  if length < headerLength + 4 + count * ReceptionReport.size + skipped then
    return none
  else
    return some (← fetchRaw buffer off skipped count)

/-- The originators and sources of the reports at the given places, unless one of them is too
short. -/
def fetchScan (buffer : Bytes) : List (Nat × Nat) → Except Fault (Option (List ReportSources))
  | [] => return some []
  | (off, length) :: places => do
    let type ← byteAt buffer (off + 1)
    if type ≠ PacketType.senderReport.toByte ∧ type ≠ PacketType.receiverReport.toByte then
      fetchScan buffer places
    else
      let skipped := if type = PacketType.senderReport.toByte then senderInfoRest else 0
      match ← fetchReport? buffer off length skipped with
      | some report => return (← fetchScan buffer places).map (report :: ·)
      | none => return none

theorem spans_readBlock? : Spans ReceptionReport.size readBlock? := by
  intro bytes
  unfold readBlock?
  cases htake : take? ReceptionReport.size bytes with
  | none =>
    rw [if_pos (take?_eq_none_iff.1 htake)]
    rfl
  | some parts =>
    obtain ⟨block, rest⟩ := parts
    obtain ⟨rfl, hblock⟩ := take?_eq_some_iff.1 htake
    have hlen : ¬(block ++ rest).length < ReceptionReport.size := by
      rw [List.length_append]
      omega
    rw [if_neg hlen, List.drop_left' hblock]
    cases hs : Ssrc.read? block with
    | none =>
      have := Ssrc.spans_read?.eq_none_iff.1 hs
      simp only [ReceptionReport.size] at hblock
      omega
    | some read => simp [hs]

theorem sourceAt_of_readBlock? {buffer bytes rest : Bytes} {pos : Nat} {s : Ssrc}
    (h : Holds buffer pos bytes) (hs : readBlock? bytes = some (s, rest)) :
    sourceAt buffer pos = .ok s := by
  simp only [readBlock?, Option.bind_eq_bind, Option.bind_eq_some_iff, Option.pure_def,
    Option.some.injEq, Prod.mk.injEq] at hs
  obtain ⟨⟨block, next⟩, htake, ⟨source, tail⟩, hsource, rfl, rfl⟩ := hs
  obtain ⟨rfl, hblock⟩ := take?_eq_some_iff.1 htake
  exact sourceAt_eq h.left hsource

theorem mapM_sourceAt_eq {buffer bytes rest : Bytes} {pos count : Nat} {sources : List Ssrc}
    (h : Holds buffer pos bytes) (hmany : many? readBlock? count bytes = some (sources, rest)) :
    (List.range' pos count ReceptionReport.size).mapM (sourceAt buffer) = .ok sources := by
  induction count generalizing pos bytes sources with
  | zero =>
    cases hmany
    rfl
  | succ count ih =>
    simp only [many?, Option.bind_eq_bind, Option.bind_eq_some_iff, Option.pure_def,
      Option.some.injEq, Prod.mk.injEq] at hmany
    obtain ⟨⟨s, next⟩, hs, ⟨others, last⟩, hothers, rfl, rfl⟩ := hmany
    have hnext := spans_readBlock?.holds_rest hs h
    rw [List.range'_succ, List.mapM_cons, sourceAt_of_readBlock? h hs, ih hnext hothers]
    rfl

/-- A raw report is too short exactly when it is shorter than all that its count asks for. -/
theorem ofRaw?_eq_none_iff {skipped count : Nat} {sub : Bytes} :
    ofRaw? skipped count sub = none ↔
      sub.length < headerLength + 4 + count * ReceptionReport.size + skipped := by
  have hlen : headerLength + 4 + count * ReceptionReport.size + skipped =
      headerLength + (4 + (skipped + count * ReceptionReport.size)) := by omega
  rw [hlen]
  refine (spans_take? _).bind_eq_none_iff fun _ rest => ?_
  refine Ssrc.spans_read?.bind_eq_none_iff fun _ rest => ?_
  refine (spans_take? _).bind_eq_none_iff fun _ rest => ?_
  rw [← spans_readBlock?.many?_eq_none_iff]
  cases hmany : many? readBlock? count rest <;> simp [hmany]

theorem fetchRaw_eq {buffer sub : Bytes} {off skipped count : Nat} {r : ReportSources}
    (h : Holds buffer off sub) (hr : ofRaw? skipped count sub = some r) :
    fetchRaw buffer off skipped count = .ok r := by
  simp only [ofRaw?, Option.bind_eq_bind, Option.bind_eq_some_iff, Option.pure_def,
    Option.some.injEq] at hr
  obtain ⟨⟨header, rest⟩, hheader, ⟨sender, rest'⟩, hsender, ⟨info, blocks⟩, hinfo,
    ⟨sources, last⟩, hmany, rfl⟩ := hr
  have hrest := (spans_take? _).holds_rest hheader h
  have hblocks := (spans_take? _).holds_rest hinfo (Ssrc.spans_read?.holds_rest hsender hrest)
  have hsource : sourceAt buffer (off + 4) = .ok sender := sourceAt_eq hrest hsender
  have hsources := mapM_sourceAt_eq hblocks hmany
  unfold fetchRaw
  rw [hsource]
  show (List.mapM (sourceAt buffer) (List.range' (off + headerLength + 4 + skipped) count _) >>=
    _) = _
  rw [hsources]
  rfl

theorem fetchReport?_eq {buffer tail : Bytes} {first : UInt8} {off : Nat} (skipped : Nat)
    (h : Holds buffer off (first :: tail)) :
    fetchReport? buffer off (first :: tail).length skipped =
      .ok (ofRaw? skipped (Header.countBits first).val (first :: tail)) := by
  have hfirst : byteAt buffer off = .ok first := @Holds.byteAt_eq _ _ _ h 0 _ rfl
  unfold fetchReport?
  rw [hfirst]
  show (if _ < headerLength + 4 + (Header.countBits first).val * _ + skipped then _ else _) = _
  cases hr : ofRaw? skipped (Header.countBits first).val (first :: tail) with
  | none =>
    rw [if_pos (ofRaw?_eq_none_iff.1 hr)]
    rfl
  | some r =>
    have hlen : ¬(first :: tail).length <
        headerLength + 4 + (Header.countBits first).val * ReceptionReport.size + skipped := by
      rw [← ofRaw?_eq_none_iff, hr]
      exact nofun
    rw [if_neg hlen, fetchRaw_eq h hr]
    rfl

/-- At the places of the sub-packets, the scan reads what it reads in the sub-packets. -/
theorem fetchScan_eq {buffer : Bytes} {subs : List Bytes} {off : Nat}
    (hsubs : ∀ sub ∈ subs, headerLength ≤ sub.length) (h : Holds buffer off subs.flatten) :
    fetchScan buffer (Compound.places off subs) = .ok (scan subs) := by
  induction subs generalizing off with
  | nil => rfl
  | cons sub subs ih =>
    rw [List.flatten_cons] at h
    have hothers := ih (fun s hs => hsubs s (List.mem_cons_of_mem _ hs)) h.right
    match sub, hsubs sub List.mem_cons_self, h, hothers with
    | first :: second :: tail, _, h, hothers =>
      have htype : byteAt buffer (off + 1) = .ok second := h.left.byteAt_eq rfl
      have hboth (skipped : Nat) : (do
          match ← fetchReport? buffer off (first :: second :: tail).length skipped with
          | some report =>
            let others ← fetchScan buffer
              (Compound.places (off + (first :: second :: tail).length) subs)
            return others.map (report :: ·)
          | none => return none) = Except.ok (do
            return (← ofRaw? skipped (Header.countBits first).val (first :: second :: tail)) ::
              (← scan subs)) := by
        rw [fetchReport?_eq skipped h.left, hothers]
        cases ofRaw? skipped (Header.countBits first).val (first :: second :: tail) with
        | none => rfl
        | some report => cases scan subs <;> rfl
      unfold Compound.places fetchScan scan
      rw [htype]
      by_cases hsender : second = PacketType.senderReport.toByte
      · have hkind : ¬(second ≠ PacketType.senderReport.toByte ∧
            second ≠ PacketType.receiverReport.toByte) := fun hkind => hkind.1 hsender
        show (if second ≠ _ ∧ second ≠ _ then _ else _) = _
        simp only [if_neg hkind, if_pos hsender]
        exact hboth senderInfoRest
      · by_cases hreceiver : second = PacketType.receiverReport.toByte
        · have hkind : ¬(second ≠ PacketType.senderReport.toByte ∧
              second ≠ PacketType.receiverReport.toByte) := fun hkind => hkind.2 hreceiver
          show (if second ≠ _ ∧ second ≠ _ then _ else _) = _
          simp only [if_neg hkind, if_neg hsender, if_pos hreceiver]
          exact hboth 0
        · show (if second ≠ _ ∧ second ≠ _ then _ else _) = _
          simp only [if_pos (And.intro hsender hreceiver), if_neg hsender, if_neg hreceiver]
          exact hothers

end ReportSources

/-! ## The place of an extended report -/

namespace Compound

/-- Where an extended report of `ssrc` goes among the sub-packets at the given places, if those in
front of them end at `stop`. -/
def fetchInsertion (buffer : Bytes) (ssrc : Ssrc) (stop : Nat) : List (Nat × Nat) → Except Fault Nat
  | [] => return stop
  | (off, length) :: places => do
    if (← byteAt buffer (off + 1)) ≠ PacketType.goodbye.toByte then
      fetchInsertion buffer ssrc (off + length) places
    else
      match ← (Goodbye.fetchLists (← slice buffer off (off + length)) ssrc).run with
      | .ok false => fetchInsertion buffer ssrc (off + length) places
      | _ => return off

theorem fetchInsertion_eq {buffer : Bytes} {subs : List Bytes} {off : Nat} (ssrc : Ssrc)
    (hsubs : ∀ sub ∈ subs, headerLength ≤ sub.length) (h : Holds buffer off subs.flatten) :
    fetchInsertion buffer ssrc off (places off subs) =
      .ok (off + (subs.takeWhile fun sub => !barred ssrc sub).flatten.length) := by
  induction subs generalizing off with
  | nil => rfl
  | cons sub subs ih =>
    rw [List.flatten_cons] at h
    have hothers := ih (fun s hs => hsubs s (List.mem_cons_of_mem _ hs)) h.right
    obtain ⟨type, htype⟩ : ∃ type, sub[1]? = some type := by
      have hsub := hsubs sub List.mem_cons_self
      exact ⟨_, List.getElem?_eq_getElem (Nat.lt_of_lt_of_le (by decide) hsub)⟩
    -- Either the report goes here or the search goes on behind the sub-packet.
    have hstay (hbarred : barred ssrc sub = true) :
        off = off + ((sub :: subs).takeWhile fun sub => !barred ssrc sub).flatten.length := by
      rw [List.takeWhile_cons, hbarred]
      rfl
    have hgo (hpass : barred ssrc sub = false) :
        fetchInsertion buffer ssrc (off + sub.length) (places (off + sub.length) subs) =
          .ok (off + ((sub :: subs).takeWhile fun sub => !barred ssrc sub).flatten.length) := by
      rw [hothers, List.takeWhile_cons, hpass]
      simp only [Bool.not_false, if_true, List.flatten_cons, List.length_append, Nat.add_assoc]
    unfold places fetchInsertion
    rw [h.left.byteAt_eq htype, h.left.slice_eq]
    show (if type ≠ PacketType.goodbye.toByte then _
      else (Goodbye.fetchLists sub ssrc).run >>= _) = _
    rw [Goodbye.fetchLists_eq]
    by_cases hgoodbye : type = PacketType.goodbye.toByte
    · rw [if_neg (not_not_intro hgoodbye)]
      cases hlists : Goodbye.lists sub ssrc with
      | error e => exact congrArg Except.ok (hstay (by simp [barred, htype, hgoodbye, hlists]))
      | ok listed =>
        have hbarred : barred ssrc sub = listed := by simp [barred, htype, hgoodbye, hlists]
        cases listed with
        | true => exact congrArg Except.ok (hstay hbarred)
        | false => exact hgo hbarred
    · have hpass : barred ssrc sub = false := by
        have hother : (some type == some PacketType.goodbye.toByte) = false :=
          beq_eq_false_iff_ne.2 fun h => hgoodbye (Option.some.inj h)
        unfold barred
        rw [htype, hother, Bool.false_and]
      rw [if_pos hgoodbye]
      exact hgo hpass

end Compound

end MediaTransport.Rtcp

namespace MediaTransport.Packet

open Bytes Rtcp Compound

theorem holds_bytes (p : Packet) : Holds p.buffer p.offset p.bytes :=
  ⟨_, _, p.buffer_eq, p.length_take_offset⟩

/-- Position and length of each sub-packet of the packet. -/
def fetchPlaces (p : Packet) : Except Fault (List (Nat × Nat)) :=
  Compound.fetchPlaces p.buffer p.offset (p.offset + p.len)

/-- The originators and sources of the reports in the packet. -/
def fetchReportSources (p : Packet) : Except Fault (Option (List ReportSources)) := do
  ReportSources.fetchScan p.buffer (← p.fetchPlaces)

/-- Where an extended report of `ssrc` goes in the packet's buffer. -/
def fetchInsertion (p : Packet) (ssrc : Ssrc) : Except Fault Nat := do
  Compound.fetchInsertion p.buffer ssrc p.offset (← p.fetchPlaces)

theorem fetchPlaces_eq (p : Packet) :
    p.fetchPlaces = .ok (places p.offset (subPackets p.bytes)) := by
  unfold fetchPlaces
  rw [← p.length_bytes]
  exact Compound.fetchPlaces_eq p.holds_bytes

theorem holds_subPackets (p : Packet) : Holds p.buffer p.offset (subPackets p.bytes).flatten := by
  have h := p.holds_bytes
  rw [← flatten_walk p.bytes] at h
  exact h.left

theorem headerLength_le_of_mem_subPackets {bytes sub : Bytes} (h : sub ∈ subPackets bytes) :
    Rtcp.headerLength ≤ sub.length :=
  (eq_append_of_next? (isSubPacket_of_mem_subPackets h)).2

theorem fetchReportSources_eq (p : Packet) :
    p.fetchReportSources = .ok (reportSources p.bytes) := by
  unfold fetchReportSources reportSources
  rw [fetchPlaces_eq]
  exact ReportSources.fetchScan_eq (fun _ => headerLength_le_of_mem_subPackets) p.holds_subPackets

theorem fetchInsertion_eq (p : Packet) (ssrc : Ssrc) :
    p.fetchInsertion ssrc = .ok (p.offset + insertionPoint p.bytes ssrc) := by
  unfold fetchInsertion insertionPoint
  rw [fetchPlaces_eq]
  exact Compound.fetchInsertion_eq ssrc (fun _ => headerLength_le_of_mem_subPackets)
    p.holds_subPackets

end MediaTransport.Packet
