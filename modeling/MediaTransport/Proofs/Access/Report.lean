import MediaTransport.Proofs.Access.Bytes
import MediaTransport.Rtcp.Goodbye

/-!
# Reports and goodbyes by position

The parts of a control packet as they are fetched from their places in a buffer. A fetch looks at
the length first and then takes each field by its position. No access leaves the buffer, and what is
fetched is what the reader reads; that is one statement for each part (`fetch_eq`).
-/

namespace MediaTransport.Rtcp

open Bytes

namespace Header

/-- The header at the front of `bytes`. -/
def fetch (bytes : Bytes) : Fetch ParseError Header :=
  if bytes.length < headerLength then
    throw .shortHeader
  else do
    let first ← byteAt bytes 0
    if first >>> 6 ≠ protocolVersion then
      throw .version
    else
      match PacketType.ofByte? (← byteAt bytes 1) with
      | some type => return {
          type
          padding := paddingBit first
          count := if type = .extendedReport then countBits 0 else countBits first
          wordsLessOne := ← word16At bytes 2 }
      | none => throw .unrecognizedType

theorem fetch_eq (bytes : Bytes) : fetch bytes = fetched (read bytes) := by
  match bytes with
  | [] | [_] | [_, _] | [_, _, _] => rfl
  | first :: second :: third :: fourth :: rest =>
    have hlen : ¬(first :: second :: third :: fourth :: rest).length < headerLength := by
      simp [headerLength]
    unfold fetch read
    rw [if_neg hlen]
    show (if first >>> 6 ≠ protocolVersion then _ else _) = _
    by_cases hversion : first >>> 6 ≠ protocolVersion
    · simp only [if_pos hversion]
      rfl
    · simp only [if_neg hversion]
      show (match PacketType.ofByte? second with | some type => _ | none => _) = _
      cases PacketType.ofByte? second <;> rfl

theorem headerLength_le_of_read {bytes : Bytes} {h : Header} (hread : read bytes = .ok h) :
    headerLength ≤ bytes.length := by
  match bytes with
  | [] | [_] | [_, _] | [_, _, _] => cases hread
  | _ :: _ :: _ :: _ :: _ => simp [headerLength]

theorem headerLength_le_bytes (h : Header) : headerLength ≤ h.bytes := by
  simp only [headerLength, bytes, words]
  omega

end Header

namespace ReportList

variable {α : Type}

/-- The list with `items` behind it, if they are not too many. -/
def extend? (l : ReportList α) (items : List α) : Option (ReportList α) :=
  ofList? (l.toList ++ items)

theorem empty_extend? (items : List α) : empty.extend? items = ofList? items := rfl

theorem extend?_nil (l : ReportList α) : l.extend? [] = some l := by
  unfold extend? ofList?
  simp only [List.append_nil, dif_pos l.length_le]

/-- Pushing items one by one extends the list, and fails at the one too many. -/
theorem extend?_cons (l : ReportList α) (a : α) (items : List α) :
    l.extend? (a :: items) =
      match l.push a with
      | .ok l => l.extend? items
      | .error _ => none := by
  unfold extend? push
  by_cases hroom : l.toList.length < maxItems
  · simp only [dif_pos hroom, List.append_assoc, List.singleton_append]
  · have hmany : ¬(l.toList ++ a :: items).length ≤ maxItems := by
      rw [List.length_append, List.length_cons]
      omega
    simp only [dif_neg hroom, ofList?, dif_neg hmany]

end ReportList

/-! ## Feedback on a source -/

namespace ReceptionReport

/-- The block at the front of `bytes`. -/
def fetch (bytes : Bytes) : Fetch ParseError ReceptionReport :=
  if bytes.length < size then
    throw .shortReport
  else do
    return {
      ssrc := ⟨← word32At bytes 0⟩
      fractionLost := ← byteAt bytes 4
      packetsLost := word32 0 (← byteAt bytes 5) (← byteAt bytes 6) (← byteAt bytes 7)
      maxSeq := ← word32At bytes 8
      jitter := ← word32At bytes 12
      lastSrTime := ← word32At bytes 16
      lastSrDelay := ← word32At bytes 20 }

theorem fetch_eq (bytes : Bytes) : fetch bytes = fetched (read bytes) := by
  iterate 24
    rcases bytes with _ | ⟨_, bytes⟩
    · rfl
  unfold fetch
  rw [if_neg (by simp [size])]
  rfl

theorem spans_read? : Spans size read? := by
  intro bytes
  iterate 24
    rcases bytes with _ | ⟨_, bytes⟩
    · rfl
  rw [if_neg (by simp [size])]
  rfl

theorem fetch_of_read? {bytes rest : Bytes} {r : ReceptionReport}
    (h : read? bytes = some (r, rest)) : fetch bytes = fetched (.ok r) := by
  rw [fetch_eq, read, h]

end ReceptionReport

/-- Pushes `count` blocks on to a list, one after the other. -/
def pushReports (list : ReportList ReceptionReport) :
    Nat → Bytes → Fetch ParseError (ReportList ReceptionReport)
  | 0, _ => return list
  | count + 1, bytes => do
    let report ← ReceptionReport.fetch bytes
    match list.push report with
    | .ok list => pushReports list count (← sliceFrom bytes ReceptionReport.size)
    | .error _ => throw .tooManyReports

/-- The first `count` blocks of `bytes`. -/
def fetchReports (count : Nat) (bytes : Bytes) : Fetch ParseError (ReportList ReceptionReport) :=
  if bytes.length < count * ReceptionReport.size then
    throw .shortReports
  else
    pushReports .empty count bytes

theorem pushReports_eq {count : Nat} {bytes rest : Bytes} {reports : List ReceptionReport}
    (h : many? ReceptionReport.read? count bytes = some (reports, rest))
    (list : ReportList ReceptionReport) :
    pushReports list count bytes =
      fetched (match list.extend? reports with
        | some list => .ok list
        | none => .error .tooManyReports) := by
  induction count generalizing bytes reports list with
  | zero =>
    cases h
    rw [ReportList.extend?_nil]
    rfl
  | succ count ih =>
    simp only [many?, Option.bind_eq_bind, Option.bind_eq_some_iff, Option.pure_def,
      Option.some.injEq, Prod.mk.injEq] at h
    obtain ⟨⟨r, next⟩, hr, ⟨others, last⟩, hothers, rfl, rfl⟩ := h
    unfold pushReports
    rw [ReceptionReport.fetch_of_read? hr, fetched_ok_bind, ReportList.extend?_cons]
    cases list.push r with
    | error r => rfl
    | ok list =>
      simp only [ReceptionReport.spans_read?.sliceFrom_eq hr]
      exact ih hothers list

theorem fetchReports_eq (count : Nat) (bytes : Bytes) :
    fetchReports count bytes = fetched (readReports count bytes) := by
  unfold fetchReports readReports
  cases hmany : many? ReceptionReport.read? count bytes with
  | none =>
    rw [if_pos (ReceptionReport.spans_read?.many?_eq_none_iff.1 hmany)]
    rfl
  | some read =>
    rw [if_neg (ReceptionReport.spans_read?.not_lt_of_many? hmany), pushReports_eq hmany]
    rfl

/-! ## Sender and receiver reports -/

namespace SenderInfo

/-- The sender information at the front of `bytes`. -/
def fetch (bytes : Bytes) : Fetch ParseError SenderInfo :=
  if bytes.length < size then
    throw .shortSenderInfo
  else do
    return {
      ssrc := ⟨← word32At bytes 0⟩
      ntpTime := ← word64At bytes 4
      rtpTime := ← word32At bytes 12
      packetCount := ← word32At bytes 16
      octetCount := ← word32At bytes 20 }

theorem fetch_eq (bytes : Bytes) : fetch bytes = fetched (read bytes) := by
  iterate 24
    rcases bytes with _ | ⟨_, bytes⟩
    · rfl
  unfold fetch
  rw [if_neg (by simp [size])]
  rfl

theorem spans_read? : Spans size read? := by
  intro bytes
  iterate 24
    rcases bytes with _ | ⟨_, bytes⟩
    · rfl
  rw [if_neg (by simp [size])]
  rfl

end SenderInfo

namespace SenderReport

/-- What follows the header of a sender report with `count` blocks. -/
def fetchBody (count : Nat) (body : Bytes) : Fetch ParseError SenderReport := do
  let info ← SenderInfo.fetch body
  let reports ← fetchReports count (← sliceFrom body SenderInfo.size)
  return ⟨info, reports⟩

theorem fetchBody_eq (count : Nat) (body : Bytes) :
    fetchBody count body = fetched (readBody count body) := by
  unfold fetchBody readBody
  rw [SenderInfo.fetch_eq, SenderInfo.read]
  cases hinfo : SenderInfo.read? body with
  | none => rfl
  | some read =>
    obtain ⟨info, rest⟩ := read
    simp only [fetched_ok_bind, SenderInfo.spans_read?.sliceFrom_eq hinfo, liftM_ok_bind,
      fetchReports_eq]
    exact fetched_bind _ fun _ _ => rfl

end SenderReport

theorem Ssrc.spans_read? : Spans 4 Ssrc.read? := by
  intro bytes
  iterate 4
    rcases bytes with _ | ⟨_, bytes⟩
    · rfl
  rw [if_neg (by simp)]
  rfl

/-- A source is the word at its place. -/
theorem Ssrc.word32At_of_read? {bytes rest : Bytes} {s : Ssrc}
    (h : Ssrc.read? bytes = some (s, rest)) : word32At bytes 0 = .ok s.value := by
  iterate 4
    rcases bytes with _ | ⟨_, bytes⟩
    · cases h
  cases h
  rfl

namespace ReceiverReport

/-- What follows the header of a receiver report with `count` blocks. -/
def fetchBody (count : Nat) (body : Bytes) : Fetch ParseError ReceiverReport :=
  if body.length < 4 then
    throw .shortReceiverReport
  else do
    let sender : Ssrc := ⟨← word32At body 0⟩
    let reports ← fetchReports count (← sliceFrom body 4)
    return ⟨sender, reports⟩

theorem fetchBody_eq (count : Nat) (body : Bytes) :
    fetchBody count body = fetched (readBody count body) := by
  unfold fetchBody readBody
  cases hsender : Ssrc.read? body with
  | none =>
    rw [if_pos (Ssrc.spans_read?.eq_none_iff.1 hsender)]
    rfl
  | some read =>
    obtain ⟨sender, rest⟩ := read
    rw [if_neg (Ssrc.spans_read?.not_lt hsender)]
    simp only [Ssrc.word32At_of_read? hsender, Ssrc.spans_read?.sliceFrom_eq hsender, liftM_ok_bind,
      fetchReports_eq]
    exact fetched_bind _ fun _ _ => rfl

end ReceiverReport

/-! ## Goodbyes -/

/-- A source fetched from a chunk of its size is the source read. -/
theorem Ssrc.exists_chunk {bytes rest : Bytes} {s : Ssrc} (h : Ssrc.read? bytes = some (s, rest)) :
    ∃ chunk, chunks 4 bytes = chunk :: chunks 4 rest ∧ word32At chunk 0 = .ok s.value := by
  iterate 4
    rcases bytes with _ | ⟨_, bytes⟩
    · cases h
  cases h
  next a b c d =>
    have hchunks : chunks 4 ([a, b, c, d] ++ rest) = [a, b, c, d] :: chunks 4 rest :=
      chunks_append (by omega) (by rfl) rest
    exact ⟨[a, b, c, d], hchunks, rfl⟩

theorem map_word32At_chunks {count : Nat} {bytes rest : Bytes} {sources : List Ssrc}
    (h : many? Ssrc.read? count bytes = some (sources, rest)) :
    ((chunks 4 bytes).take count).map (word32At · 0) = sources.map fun s => .ok s.value := by
  induction count generalizing bytes sources with
  | zero =>
    cases h
    rfl
  | succ count ih =>
    simp only [many?, Option.bind_eq_bind, Option.bind_eq_some_iff, Option.pure_def,
      Option.some.injEq, Prod.mk.injEq] at h
    obtain ⟨⟨s, next⟩, hs, ⟨others, last⟩, hothers, rfl, rfl⟩ := h
    obtain ⟨chunk, hchunks, hword⟩ := Ssrc.exists_chunk hs
    rw [hchunks, List.take_succ_cons, List.map_cons, hword, ih hothers, List.map_cons]

namespace Goodbye

/-- Pushes the sources in the given chunks on to a list, one after the other. -/
def pushSources (list : ReportList Ssrc) : List Bytes → Fetch ParseError (ReportList Ssrc)
  | [] => return list
  | chunk :: chunks => do
    let source : Ssrc := ⟨← word32At chunk 0⟩
    match list.push source with
    | .ok list => pushSources list chunks
    | .error _ => throw .tooManySources

/-- What follows the header of a goodbye with `count` sources. -/
def fetchBody (count : Nat) (body : Bytes) : Fetch ParseError Goodbye :=
  if body.length < count * 4 then
    throw .shortGoodbye
  else do
    return ⟨← pushSources .empty ((chunks 4 body).take count)⟩

theorem pushSources_eq {pieces : List Bytes} {sources : List Ssrc}
    (h : pieces.map (word32At · 0) = sources.map fun s => .ok s.value) (list : ReportList Ssrc) :
    pushSources list pieces =
      fetched (match list.extend? sources with
        | some list => .ok list
        | none => .error .tooManySources) := by
  induction sources generalizing pieces list with
  | nil =>
    rw [List.map_nil, List.map_eq_nil_iff] at h
    subst h
    rw [ReportList.extend?_nil]
    rfl
  | cons s sources ih =>
    obtain ⟨piece, pieces, rfl, hword, hpieces⟩ := List.map_eq_cons_iff.1 h
    unfold pushSources
    rw [hword, liftM_ok_bind, ReportList.extend?_cons]
    show (match list.push s with | .ok _ => _ | .error _ => _) = _
    cases list.push s with
    | error s => rfl
    | ok list => exact ih hpieces list

theorem fetchBody_eq (count : Nat) (body : Bytes) :
    fetchBody count body = fetched (readBody count body) := by
  unfold fetchBody readBody
  cases hmany : many? Ssrc.read? count body with
  | none =>
    rw [if_pos (Ssrc.spans_read?.many?_eq_none_iff.1 hmany)]
    rfl
  | some read =>
    obtain ⟨sources, rest⟩ := read
    rw [if_neg (Ssrc.spans_read?.not_lt_of_many? hmany), pushSources_eq (map_word32At_chunks hmany),
      ReportList.empty_extend?]
    simp only
    cases ReportList.ofList? sources <;> rfl

/-- Whether one of the given chunks is the source `ssrc`. -/
def anyIs (ssrc : Ssrc) : List Bytes → Except Fault Bool
  | [] => return false
  | chunk :: chunks => do
    if (← word32At chunk 0) = ssrc.value then return true else anyIs ssrc chunks

/-- Whether the raw goodbye `packet` lists `ssrc`. -/
def fetchLists (packet : Bytes) (ssrc : Ssrc) : Fetch ParseError Bool := do
  let header ← Header.fetch packet
  let count := header.count.val
  if 4 + count * 4 > min header.bytes packet.length then
    throw .sourcesExceedPacket
  else
    anyIs ssrc (chunks 4 (← slice packet 4 (4 + count * 4)))

theorem anyIs_eq {pieces : List Bytes} {sources : List Ssrc}
    (h : pieces.map (word32At · 0) = sources.map fun s => .ok s.value) (ssrc : Ssrc) :
    anyIs ssrc pieces = .ok (sources.contains ssrc) := by
  induction sources generalizing pieces with
  | nil =>
    rw [List.map_nil, List.map_eq_nil_iff] at h
    subst h
    rfl
  | cons s sources ih =>
    obtain ⟨piece, pieces, rfl, hword, hpieces⟩ := List.map_eq_cons_iff.1 h
    unfold anyIs
    rw [hword]
    show (if s.value = ssrc.value then _ else _) = _
    by_cases hs : s = ssrc
    · rw [if_pos (congrArg Ssrc.value hs), hs, List.contains_cons, beq_self_eq_true, Bool.true_or]
      rfl
    · have hvalue : s.value ≠ ssrc.value := fun h => hs (by cases s; cases ssrc; exact congrArg _ h)
      rw [if_neg hvalue, List.contains_cons, beq_eq_false_iff_ne.2 (Ne.symm hs), Bool.false_or]
      exact ih hpieces

theorem fetchLists_eq (packet : Bytes) (ssrc : Ssrc) :
    fetchLists packet ssrc = fetched (lists packet ssrc) := by
  unfold fetchLists lists
  rw [Header.fetch_eq]
  refine fetched_bind _ fun header hheader => ?_
  have hpacket := Header.headerLength_le_of_read hheader
  have hbytes := header.headerLength_le_bytes
  have hbody : ((packet.take header.bytes).drop headerLength).length =
      min header.bytes packet.length - headerLength := by
    rw [List.length_drop, List.length_take]
  simp only [headerLength] at hpacket hbytes hbody ⊢
  cases hmany : many? Ssrc.read? header.count.val ((packet.take header.bytes).drop 4) with
  | none =>
    have := Ssrc.spans_read?.many?_eq_none_iff.1 hmany
    rw [if_pos (by omega)]
    rfl
  | some read =>
    obtain ⟨sources, rest⟩ := read
    have hlong := Ssrc.spans_read?.not_lt_of_many? hmany
    have hslice : slice packet 4 (4 + header.count.val * 4) =
        .ok (((packet.take header.bytes).drop 4).take (header.count.val * 4)) := by
      rw [slice_eq_take_drop (by omega) (by omega), List.take_drop, List.take_take,
        Nat.min_eq_left (by omega)]
    rw [if_neg (by omega), hslice, liftM_ok_bind, chunks_take (by omega),
      anyIs_eq (map_word32At_chunks hmany)]
    rfl

end Goodbye

end MediaTransport.Rtcp
