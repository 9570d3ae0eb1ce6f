import MediaTransport.ReportStore.Store

/-!
# Calls on a report store

A run is a sequence of calls on an empty store: operations, each at a moment of its own, and
listeners that are added and removed. What a listener does while it is told concerns the list of
listeners alone (`side_tell`), and no listener is ever in that list twice (`nodup_run`), so that
whoever is told of a report is told once.
-/

namespace MediaTransport

open Rtcp

namespace StoreOperation

/-- The report that an operation passes to the store in one direction. -/
def report? (direction : Direction) : StoreOperation → Option Report
  | .report d r => if d = direction then some r else none
  | _ => none

/-- The extended report that an operation passes to the store in one direction. -/
def extended? (direction : Direction) : StoreOperation → Option ExtendedReport
  | .extended d x => if d = direction then some x else none
  | _ => none

end StoreOperation

/-- A call on a store from outside. -/
inductive StoreCall where
  | operation (now : Instant) (op : StoreOperation)
  | addListener (l : ListenerId)
  | removeListener (l : ListenerId)
  deriving DecidableEq, Repr

namespace ReportStore

/-- The store after a call. -/
def call (reactions : Reactions) (s : ReportStore) : StoreCall → ReportStore
  | .operation now op => (s.apply reactions now op).store
  | .addListener l => s.addListener l
  | .removeListener l => s.removeListener l

/-- The store after calls on an empty one. -/
def run (reactions : Reactions) (calls : List StoreCall) : ReportStore :=
  calls.foldl (call reactions) {}

theorem run_concat (reactions : Reactions) (calls : List StoreCall) (c : StoreCall) :
    run reactions (calls ++ [c]) = (run reactions calls).call reactions c := by
  unfold run
  rw [List.foldl_append]
  rfl

/-! ## The reports stay out of the listeners' reach -/

theorem side_withSide (s : ReportStore) (direction other : Direction) (side : ReportSide) :
    (s.withSide direction side).side other = if other = direction then side else s.side other := by
  cases direction <;> cases other <;> rfl

@[simp] theorem side_addListener (s : ReportStore) (l : ListenerId) (direction : Direction) :
    (s.addListener l).side direction = s.side direction := by
  unfold addListener
  by_cases hl : l ∈ s.listeners
  · rw [if_pos hl]
  · rw [if_neg hl]
    rfl

@[simp] theorem side_removeListener (s : ReportStore) (l : ListenerId) (direction : Direction) :
    (s.removeListener l).side direction = s.side direction := rfl

theorem side_foldl_react (s : ReportStore) (changes : List Reaction) (direction : Direction) :
    (changes.foldl react s).side direction = s.side direction := by
  induction changes generalizing s with
  | nil => rfl
  | cons change changes ih =>
    have hreact : (s.react change).side direction = s.side direction := by
      cases change with
      | add l => exact s.side_addListener l direction
      | remove l => rfl
    rw [List.foldl_cons, ih, hreact]

theorem side_tell (reactions : Reactions) (notice : Notice) (ls : List ListenerId) (s : ReportStore)
    (direction : Direction) : (tell reactions notice ls s).1.side direction = s.side direction := by
  induction ls generalizing s with
  | nil => rfl
  | cons l ls ih =>
    show (tell reactions notice ls _).1.side direction = _
    rw [ih, side_foldl_react]

/-- An operation leaves the reports that it records. -/
theorem side_apply (reactions : Reactions) (now : Instant) (s : ReportStore) (op : StoreOperation)
    (direction : Direction) :
    (s.apply reactions now op).store.side direction = (s.record now op).1.side direction := by
  unfold apply
  rcases s.record now op with ⟨store, changed, notice⟩
  cases notice with
  | none => rfl
  | some notice => exact side_tell reactions notice store.listeners store direction

/-! ## The listeners -/

theorem nodup_addListener {s : ReportStore} (h : s.listeners.Nodup) (l : ListenerId) :
    (s.addListener l).listeners.Nodup := by
  unfold addListener
  by_cases hl : l ∈ s.listeners
  · rwa [if_pos hl]
  · rw [if_neg hl]
    refine List.nodup_append.2 ⟨h, List.pairwise_singleton _ l, fun a ha b hb hab => hl ?_⟩
    rw [← List.mem_singleton.1 hb, ← hab]
    exact ha

theorem nodup_removeListener {s : ReportStore} (h : s.listeners.Nodup) (l : ListenerId) :
    (s.removeListener l).listeners.Nodup := h.filter _

theorem nodup_foldl_react {s : ReportStore} (h : s.listeners.Nodup) (changes : List Reaction) :
    (changes.foldl react s).listeners.Nodup := by
  induction changes generalizing s with
  | nil => exact h
  | cons change changes ih =>
    refine ih ?_
    cases change with
    | add l => exact nodup_addListener h l
    | remove l => exact nodup_removeListener h l

theorem nodup_tell {s : ReportStore} (h : s.listeners.Nodup) (reactions : Reactions)
    (notice : Notice) (ls : List ListenerId) : (tell reactions notice ls s).1.listeners.Nodup := by
  induction ls generalizing s with
  | nil => exact h
  | cons l ls ih => exact ih (nodup_foldl_react h _)

theorem listeners_record (s : ReportStore) (now : Instant) (op : StoreOperation) :
    (s.record now op).1.listeners = s.listeners := by
  have hside : ∀ direction side, (s.withSide direction side).listeners = s.listeners := by
    intro direction side
    cases direction <;> rfl
  cases op with
  | report direction r =>
    simp only [record]
    cases (s.side direction).storeReport now r with
    | none => rfl
    | some stored => exact hside ..
  | extended direction x =>
    simp only [record]
    cases (s.side direction).storeExtended now x with
    | none => rfl
    | some stored => exact hside ..
  | firstPacket direction ssrc moment =>
    simp only [record]
    cases (s.side direction).storeFirstPacket ssrc moment with
    | none => rfl
    | some side => exact hside ..
  | roundTrip ssrc millis => rfl

theorem nodup_apply {s : ReportStore} (h : s.listeners.Nodup) (reactions : Reactions)
    (now : Instant) (op : StoreOperation) : (s.apply reactions now op).store.listeners.Nodup := by
  have hrecord : (s.record now op).1.listeners.Nodup := by
    rw [listeners_record]
    exact h
  unfold apply
  rcases hrec : s.record now op with ⟨store, changed, notice⟩
  rw [hrec] at hrecord
  cases notice with
  | none => exact hrecord
  | some notice => exact nodup_tell hrecord reactions notice store.listeners

/-- No listener is registered twice. -/
theorem nodup_run (reactions : Reactions) (calls : List StoreCall) :
    (run reactions calls).listeners.Nodup := by
  unfold run
  have hstep : ∀ (s : ReportStore), s.listeners.Nodup →
      (calls.foldl (call reactions) s).listeners.Nodup := by
    induction calls with
    | nil => exact fun s h => h
    | cons c calls ih =>
      intro s h
      refine ih (s.call reactions c) ?_
      cases c with
      | operation now op => exact nodup_apply h reactions now op
      | addListener l => exact nodup_addListener h l
      | removeListener l => exact nodup_removeListener h l
  exact hstep {} List.nodup_nil

/-! ## What is told -/

/-- Each of the given listeners is told once, in order, and of the same. -/
theorem map_deliveries_tell (reactions : Reactions) (notice : Notice) (ls : List ListenerId)
    (s : ReportStore) :
    (tell reactions notice ls s).2.map (fun d => (d.listener, d.notice)) =
      ls.map fun l => (l, notice) := by
  induction ls generalizing s with
  | nil => rfl
  | cons l ls ih =>
    show (l, notice) :: (tell reactions notice ls _).2.map _ = (l, notice) :: _
    rw [ih]

namespace Outcome

/-- Something changed, and exactly the given listeners were told of it, each once and in order. -/
def Announces (o : Outcome) (listeners : List ListenerId) (notice : Notice) : Prop :=
  o.changed = true ∧
    o.deliveries.map (fun d => (d.listener, d.notice)) = listeners.map fun l => (l, notice)

/-- Nothing changed, and nobody was told. -/
def IsSilent (o : Outcome) : Prop := o.changed = false ∧ o.deliveries = []

end Outcome

theorem announces_apply (reactions : Reactions) {now : Instant} {s store : ReportStore}
    {op : StoreOperation} {notice : Notice} (h : s.record now op = (store, true, some notice)) :
    (s.apply reactions now op).Announces s.listeners notice := by
  have hlisteners := s.listeners_record now op
  unfold apply
  rw [h] at hlisteners ⊢
  refine ⟨rfl, ?_⟩
  rw [← hlisteners]
  exact map_deliveries_tell reactions notice store.listeners store

theorem isSilent_apply (reactions : Reactions) {now : Instant} {s store : ReportStore}
    {op : StoreOperation} (h : s.record now op = (store, false, none)) :
    (s.apply reactions now op).IsSilent := by
  unfold apply
  rw [h]
  exact ⟨rfl, rfl⟩

end ReportStore

end MediaTransport
