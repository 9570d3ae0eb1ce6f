import Mathlib.Data.List.DropRight
import MediaTransport.Proofs.ReportStore.Calls

/-!
# What a store has of its calls

The history of an originator in one direction is what was passed to the store of it, report by
report, each with the moment of its call; sender and receiver reports have one history, extended
reports another. What the store has is told by the history alone (`TakesIn.get?_run`): the latest
report, with the moment of the first call of the unbroken run of equal reports that the history ends
with. A call that prolongs that run changes nothing and is told to nobody, and any other is told to
every listener once (`TakesIn.apply_run`). The two kinds of report differ in their table and their
notice only, and both are cases of `TakesIn`.
-/

namespace MediaTransport

open Rtcp

namespace Stamped

variable {α : Type} [DecidableEq α]

/-- The first of the unbroken run of equal values that a history ends with. -/
def firstOfRun? (history : List (Stamped α)) : Option (Stamped α) :=
  history.getLast?.bind fun last => (history.rtakeWhile fun x => x.value = last.value).head?

/-- The value that a history ends with. -/
def latest? (history : List (Stamped α)) : Option α := history.getLast?.map Stamped.value

omit [DecidableEq α] in
@[simp] theorem latest?_concat (history : List (Stamped α)) (x : Stamped α) :
    latest? (history ++ [x]) = some x.value := by
  unfold latest?
  rw [List.getLast?_concat]
  rfl

/-- The last value belongs to the run that it ends. -/
theorem rtakeWhile_value_concat (history : List (Stamped α)) (x : Stamped α) :
    (history ++ [x]).rtakeWhile (fun y => y.value = x.value) =
      (history.rtakeWhile fun y => y.value = x.value) ++ [x] :=
  List.rtakeWhile_concat_pos (fun y => decide (y.value = x.value)) history x (decide_eq_true rfl)

/-- One more value prolongs the run, or begins a new one. -/
theorem firstOfRun?_concat (history : List (Stamped α)) (x : Stamped α) :
    firstOfRun? (history ++ [x]) =
      if latest? history = some x.value then firstOfRun? history else some x := by
  have hlong : firstOfRun? (history ++ [x]) =
      ((history.rtakeWhile fun y => y.value = x.value) ++ [x]).head? := by
    unfold firstOfRun?
    rw [List.getLast?_concat, Option.bind_some, rtakeWhile_value_concat]
  rw [hlong]
  by_cases h : latest? history = some x.value
  · rw [if_pos h]
    obtain ⟨last, hlast, hvalue⟩ := Option.map_eq_some_iff.1 h
    obtain ⟨earlier, rfl⟩ := List.getLast?_eq_some_iff.1 hlast
    unfold firstOfRun?
    rw [hlast, Option.bind_some, ← hvalue, rtakeWhile_value_concat]
    cases earlier.rtakeWhile fun y => y.value = last.value <;> rfl
  · rw [if_neg h]
    have hends : (history.rtakeWhile fun y => y.value = x.value) = [] := by
      refine List.rtakeWhile_eq_nil_iff.2 fun hne hequal => h ?_
      unfold latest?
      rw [List.getLast?_eq_some_getLast hne, Option.map_some, of_decide_eq_true hequal]
    rw [hends]
    rfl

theorem map_value_firstOfRun? (history : List (Stamped α)) :
    (firstOfRun? history).map Stamped.value = latest? history := by
  induction history using List.reverseRecOn with
  | nil => rfl
  | append_singleton history x ih =>
    rw [firstOfRun?_concat, latest?_concat]
    by_cases h : latest? history = some x.value
    · rw [if_pos h, ih, h]
    · rw [if_neg h]
      rfl

example : firstOfRun? [⟨7, 0⟩, ⟨8, 5⟩, ⟨8, 9⟩] = some (⟨8, 5⟩ : Stamped Nat) := by decide

end Stamped

/-! ## Tables of the latest values -/

namespace Table

variable {α : Type} [DecidableEq α]

/-- The table after `value` came in for `key`: as before if that is the value there. -/
def stored (t : Table (Stamped α)) (now : Instant) (key : Ssrc) (value : α) : Table (Stamped α) :=
  if (t.get? key).map Stamped.value = some value then t else t.insert key ⟨value, now⟩

/-- The table after what an operation passed to it, if anything. -/
def taking (t : Table (Stamped α)) (now : Instant) (source : α → Ssrc) :
    Option α → Table (Stamped α)
  | some a => t.stored now (source a) a
  | none => t

/-- A table that has the first of each run goes on to have it. -/
theorem get?_stored {t : Table (Stamped α)} {history : List (Stamped α)} {ssrc : Ssrc}
    (ht : t.get? ssrc = Stamped.firstOfRun? history) (now : Instant) (key : Ssrc) (value : α) :
    (t.stored now key value).get? ssrc =
      Stamped.firstOfRun? (history ++ if key = ssrc then [⟨value, now⟩] else []) := by
  unfold stored
  by_cases hkey : key = ssrc
  · subst hkey
    rw [if_pos rfl, Stamped.firstOfRun?_concat, ht, Stamped.map_value_firstOfRun?]
    by_cases h : Stamped.latest? history = some value
    · rw [if_pos h, if_pos h, ht]
    · rw [if_neg h, if_neg h, get?_insert, if_pos rfl]
  · rw [if_neg hkey, List.append_nil]
    by_cases h : (t.get? key).map Stamped.value = some value
    · rw [if_pos h, ht]
    · rw [if_neg h, get?_insert, if_neg (Ne.symm hkey), ht]

end Table

/-! ## Histories -/

/-- What calls pass of one originator, each with the moment of its call. -/
def StoreCall.history {α : Type} (passed? : StoreOperation → Option α) (source : α → Ssrc)
    (ssrc : Ssrc) (calls : List StoreCall) : List (Stamped α) :=
  calls.filterMap fun
    | .operation now op => ((passed? op).filter fun a => source a = ssrc).map fun a => ⟨a, now⟩
    | .addListener _ | .removeListener _ => none

namespace ReportStore

open StoreOperation Stamped

/-! ## One operation -/

/-- A report is absorbed, or it is stored and there is something to tell. -/
theorem record_report (s : ReportStore) (now : Instant) (d : Direction) (r : Report) :
    ∃ side, side.reports = (s.side d).reports.insert r.ssrc ⟨r, now⟩ ∧
      side.extended = (s.side d).extended ∧
      s.record now (.report d r) =
        if ((s.side d).reports.get? r.ssrc).map Stamped.value = some r then (s, false, none)
        else (s.withSide d side, true, some (.report d ⟨r, now⟩)) := by
  refine ⟨{ s.side d with
    reports := (s.side d).reports.insert r.ssrc ⟨r, now⟩
    feedback := (s.side d).feedback.insertAll ReceptionReport.ssrc r.feedback }, rfl, rfl, ?_⟩
  simp only [record, ReportSide.storeReport]
  by_cases h : ((s.side d).reports.get? r.ssrc).map Stamped.value = some r
  · rw [if_pos h, if_pos h]
  · rw [if_neg h, if_neg h]

theorem record_extended (s : ReportStore) (now : Instant) (d : Direction) (x : ExtendedReport) :
    ∃ side, side.extended = (s.side d).extended.insert x.ssrc ⟨x, now⟩ ∧
      side.reports = (s.side d).reports ∧
      s.record now (.extended d x) =
        if ((s.side d).extended.get? x.ssrc).map Stamped.value = some x then (s, false, none)
        else (s.withSide d side, true, some (.extended d ⟨x, now⟩)) := by
  refine ⟨{ s.side d with
    extended := (s.side d).extended.insert x.ssrc ⟨x, now⟩
    voipMetrics := (s.side d).voipMetrics.insertAll VoipMetrics.ssrc x.voipMetrics }, rfl, rfl, ?_⟩
  simp only [record, ReportSide.storeExtended]
  by_cases h : ((s.side d).extended.get? x.ssrc).map Stamped.value = some x
  · rw [if_pos h, if_pos h]
  · rw [if_neg h, if_neg h]

/-- An operation passes a report to one table of one side, and leaves the others. -/
theorem tables_record (s : ReportStore) (now : Instant) (op : StoreOperation)
    (direction : Direction) :
    ((s.record now op).1.side direction).reports =
        (s.side direction).reports.taking now Report.ssrc (report? direction op) ∧
      ((s.record now op).1.side direction).extended =
        (s.side direction).extended.taking now ExtendedReport.ssrc (extended? direction op) := by
  cases op with
  | report d r =>
    obtain ⟨side, hreports, hextended, hrecord⟩ := s.record_report now d r
    rw [hrecord]
    by_cases hd : d = direction
    · subst hd
      by_cases h : ((s.side d).reports.get? r.ssrc).map Stamped.value = some r
      · simp [report?, extended?, Table.taking, Table.stored, h]
      · simp [report?, extended?, Table.taking, Table.stored, h, side_withSide, hreports, hextended]
    · by_cases h : ((s.side d).reports.get? r.ssrc).map Stamped.value = some r
      · simp [report?, extended?, Table.taking, hd, h]
      · simp [report?, extended?, Table.taking, hd, h, side_withSide, Ne.symm hd]
  | extended d x =>
    obtain ⟨side, hextended, hreports, hrecord⟩ := s.record_extended now d x
    rw [hrecord]
    by_cases hd : d = direction
    · subst hd
      by_cases h : ((s.side d).extended.get? x.ssrc).map Stamped.value = some x
      · simp [report?, extended?, Table.taking, Table.stored, h]
      · simp [report?, extended?, Table.taking, Table.stored, h, side_withSide, hreports, hextended]
    · by_cases h : ((s.side d).extended.get? x.ssrc).map Stamped.value = some x
      · simp [report?, extended?, Table.taking, hd, h]
      · simp [report?, extended?, Table.taking, hd, h, side_withSide, Ne.symm hd]
  | firstPacket d ssrc moment =>
    simp only [record, ReportSide.storeFirstPacket, report?, extended?, Table.taking]
    cases (s.side d).firstPacket.get? ssrc with
    | some earlier => exact ⟨rfl, rfl⟩
    | none =>
      simp only [side_withSide]
      by_cases hd : direction = d
      · subst hd
        simp
      · simp [hd]
  | roundTrip ssrc millis => cases direction <;> exact ⟨rfl, rfl⟩

/-- A table of the latest values: it is empty at first and takes in what operations pass to it and
nothing else, and a value that it does not have yet is told. -/
structure TakesIn {α : Type} [DecidableEq α] (part : ReportSide → Table (Stamped α))
    (passed? : Direction → StoreOperation → Option α) (source : α → Ssrc)
    (notice : Direction → Stamped α → Notice) : Prop where
  new : part {} = .empty
  record : ∀ (s : ReportStore) (now : Instant) (op : StoreOperation) (direction : Direction),
    part ((s.record now op).1.side direction) =
      (part (s.side direction)).taking now source (passed? direction op)
  tells : ∀ (s : ReportStore) (now : Instant) (op : StoreOperation) (direction : Direction) (a : α),
    passed? direction op = some a → ∃ store, s.record now op =
      if ((part (s.side direction)).get? (source a)).map Stamped.value = some a then
        (s, false, none)
      else (store, true, some (notice direction ⟨a, now⟩))

theorem takesIn_reports : TakesIn ReportSide.reports report? Report.ssrc .report where
  new := rfl
  record s now op direction := (s.tables_record now op direction).1
  tells s now op direction a h := by
    cases op with
    | report d r =>
      obtain ⟨rfl, hr⟩ := Option.ite_none_right_eq_some.1 h
      obtain rfl := Option.some.inj hr
      obtain ⟨side, -, -, hrecord⟩ := s.record_report now d r
      exact ⟨_, hrecord⟩
    | extended | firstPacket | roundTrip => cases h

theorem takesIn_extended :
    TakesIn ReportSide.extended extended? ExtendedReport.ssrc .extended where
  new := rfl
  record s now op direction := (s.tables_record now op direction).2
  tells s now op direction a h := by
    cases op with
    | extended d x =>
      obtain ⟨rfl, hx⟩ := Option.ite_none_right_eq_some.1 h
      obtain rfl := Option.some.inj hx
      obtain ⟨side, -, -, hrecord⟩ := s.record_extended now d x
      exact ⟨_, hrecord⟩
    | report | firstPacket | roundTrip => cases h

/-! ## Runs -/

section Runs

variable {α : Type} [DecidableEq α] {part : ReportSide → Table (Stamped α)}
  {passed? : Direction → StoreOperation → Option α} {source : α → Ssrc}
  {notice : Direction → Stamped α → Notice}

theorem TakesIn.get?_call (h : TakesIn part passed? source notice) (reactions : Reactions)
    {s : ReportStore} {direction : Direction} {ssrc : Ssrc} {history : List (Stamped α)}
    (hs : (part (s.side direction)).get? ssrc = firstOfRun? history) (c : StoreCall) :
    (part ((s.call reactions c).side direction)).get? ssrc =
      firstOfRun? (history ++ StoreCall.history (passed? direction) source ssrc [c]) := by
  cases c with
  | addListener l =>
    rw [call, side_addListener, hs]
    exact congrArg firstOfRun? (List.append_nil history).symm
  | removeListener l =>
    rw [call, side_removeListener, hs]
    exact congrArg firstOfRun? (List.append_nil history).symm
  | operation now op =>
    rw [call, side_apply, h.record]
    cases hop : passed? direction op with
    | none =>
      rw [Table.taking, hs]
      simp only [StoreCall.history, List.filterMap_cons, hop, Option.filter_none, Option.map_none,
        List.filterMap_nil, List.append_nil]
    | some a =>
      rw [Table.taking, Table.get?_stored hs]
      by_cases ha : source a = ssrc
      · simp only [StoreCall.history, List.filterMap_cons, hop, Option.filter_some, ha, decide_true,
          if_true, Option.map_some, List.filterMap_nil]
      · simp only [StoreCall.history, List.filterMap_cons, hop, Option.filter_some, ha,
          decide_false, Bool.false_eq_true, if_false, Option.map_none, List.filterMap_nil]

/-- A table of the latest values has the first of the run that the history of an originator ends
with. -/
theorem TakesIn.get?_run (h : TakesIn part passed? source notice) (reactions : Reactions)
    (calls : List StoreCall) (direction : Direction) (ssrc : Ssrc) :
    (part ((run reactions calls).side direction)).get? ssrc =
      firstOfRun? (StoreCall.history (passed? direction) source ssrc calls) := by
  induction calls using List.reverseRecOn with
  | nil =>
    have hside : (run reactions []).side direction = {} := by cases direction <;> rfl
    rw [hside, h.new]
    rfl
  | append_singleton calls c ih =>
    rw [run_concat, h.get?_call reactions ih c]
    unfold StoreCall.history
    rw [List.filterMap_append]

/-- A value is announced, unless the history of its originator ends with it. -/
theorem TakesIn.apply_run (h : TakesIn part passed? source notice) (reactions : Reactions)
    (calls : List StoreCall) (now : Instant) {direction : Direction} {op : StoreOperation} {a : α}
    (hop : passed? direction op = some a) :
    if latest? (StoreCall.history (passed? direction) source (source a) calls) = some a then
      ((run reactions calls).apply reactions now op).IsSilent
    else
      ((run reactions calls).apply reactions now op).Announces (run reactions calls).listeners
        (notice direction ⟨a, now⟩) := by
  rw [← map_value_firstOfRun?, ← h.get?_run reactions]
  obtain ⟨store, hrecord⟩ := h.tells (run reactions calls) now op direction a hop
  by_cases hsame :
      ((part ((run reactions calls).side direction)).get? (source a)).map Stamped.value = some a
  · rw [if_pos hsame] at hrecord ⊢
    exact isSilent_apply reactions hrecord
  · rw [if_neg hsame] at hrecord ⊢
    exact announces_apply reactions hrecord

end Runs

/-- The sender and receiver reports of an originator that calls pass in one direction. -/
def reportHistory (direction : Direction) (ssrc : Ssrc) (calls : List StoreCall) :
    List (Stamped Report) :=
  StoreCall.history (report? direction) Report.ssrc ssrc calls

/-- The extended reports of an originator that calls pass in one direction. -/
def extendedHistory (direction : Direction) (ssrc : Ssrc) (calls : List StoreCall) :
    List (Stamped ExtendedReport) :=
  StoreCall.history (extended? direction) ExtendedReport.ssrc ssrc calls

/-- After any calls, the store has of each originator the latest report and the latest extended
report in either direction, since the first call of the unbroken run of equal ones; and the next
report changes the store and is told to each listener once just when it is not equal to the latest
of its originator, kind and direction. -/
theorem run_history (reactions : Reactions) (calls : List StoreCall) :
    (run reactions calls).listeners.Nodup ∧ ∀ direction,
      (∀ ssrc,
        ((run reactions calls).side direction).reports.get? ssrc =
            firstOfRun? (reportHistory direction ssrc calls) ∧
          (((run reactions calls).side direction).reports.get? ssrc).map Stamped.value =
            latest? (reportHistory direction ssrc calls)) ∧
      (∀ ssrc,
        ((run reactions calls).side direction).extended.get? ssrc =
            firstOfRun? (extendedHistory direction ssrc calls) ∧
          (((run reactions calls).side direction).extended.get? ssrc).map Stamped.value =
            latest? (extendedHistory direction ssrc calls)) ∧
      (∀ now r,
        if latest? (reportHistory direction r.ssrc calls) = some r then
          ((run reactions calls).apply reactions now (.report direction r)).IsSilent
        else
          ((run reactions calls).apply reactions now (.report direction r)).Announces
            (run reactions calls).listeners (.report direction ⟨r, now⟩)) ∧
      ∀ now x,
        if latest? (extendedHistory direction x.ssrc calls) = some x then
          ((run reactions calls).apply reactions now (.extended direction x)).IsSilent
        else
          ((run reactions calls).apply reactions now (.extended direction x)).Announces
            (run reactions calls).listeners (.extended direction ⟨x, now⟩) := by
  refine ⟨nodup_run reactions calls, fun direction => ⟨?_, ?_, ?_, ?_⟩⟩
  · intro ssrc
    have hfirst := takesIn_reports.get?_run reactions calls direction ssrc
    exact ⟨hfirst, hfirst ▸ map_value_firstOfRun? _⟩
  · intro ssrc
    have hfirst := takesIn_extended.get?_run reactions calls direction ssrc
    exact ⟨hfirst, hfirst ▸ map_value_firstOfRun? _⟩
  · intro now r
    exact takesIn_reports.apply_run reactions calls now (if_pos rfl)
  · intro now x
    exact takesIn_extended.apply_run reactions calls now (if_pos rfl)

end ReportStore

end MediaTransport
