import MediaTransport.Proofs.ReportStore.History
import MediaTransport.Proofs.Roster

/-!
# Who is told of a report

A listener that is told may add and remove listeners, itself among them, and what it does may differ
from call to call, so that each call of a run comes with what the listeners do in it. All additions
and removals of a run, those from outside and those of listeners that were told, make one history,
and the list of listeners is what that history tells (`listeners_runLive`). What is done during a
round of telling is at the end of the history, whereas the round goes through the list as it was
before: whoever is added in a round is told from the next one on, and whoever is removed in it is
still told (`announcement_runLive`).
-/

namespace MediaTransport

open Rtcp

/-- What a reaction does to the list of listeners. -/
def Reaction.change : Reaction → Roster.Change ListenerId
  | .add l => .add l
  | .remove l => .remove l

namespace Notice

/-- The store answers with the report that the notice is about, as it was stored. -/
def HeldBy (s : ReportStore) : Notice → Prop
  | .report direction r => (s.side direction).reports.get? r.value.ssrc = some r
  | .extended direction x => (s.side direction).extended.get? x.value.ssrc = some x

/-- The store has an equal report of the originator already. -/
def IsOld (s : ReportStore) : Notice → Prop
  | .report direction r =>
    ((s.side direction).reports.get? r.value.ssrc).map Stamped.value = some r.value
  | .extended direction x =>
    ((s.side direction).extended.get? x.value.ssrc).map Stamped.value = some x.value

instance (s : ReportStore) : (n : Notice) → Decidable (n.IsOld s)
  | .report .. | .extended .. => inferInstanceAs (Decidable (_ = _))

end Notice

/-- What there is to tell of an operation that stores a report. -/
def StoreOperation.notice? (now : Instant) : StoreOperation → Option Notice
  | .report direction r => some (.report direction ⟨r, now⟩)
  | .extended direction x => some (.extended direction ⟨x, now⟩)
  | .firstPacket .. | .roundTrip .. => none

/-- A call on a store, with what the listeners do that are told in it. -/
structure LiveCall where
  reactions : Reactions
  call : StoreCall

namespace ReportStore

/-- What listeners that were told did to the list, one after the other. -/
def changesIn (reactions : Reactions) (deliveries : List Delivery) :
    List (Roster.Change ListenerId) :=
  deliveries.flatMap fun d => (reactions d.listener d.notice d.seen).map Reaction.change

/-- What happens to the list of listeners in a call. -/
def changesOf (s : ReportStore) (c : LiveCall) : List (Roster.Change ListenerId) :=
  match c.call with
  | .operation now op => changesIn c.reactions (s.apply c.reactions now op).deliveries
  | .addListener l => [.add l]
  | .removeListener l => [.remove l]

/-- A store, and all that happened to its list of listeners. -/
structure Live where
  store : ReportStore := {}
  history : List (Roster.Change ListenerId) := []

/-- After one more call. -/
def Live.call (run : Live) (c : LiveCall) : Live where
  store := run.store.call c.reactions c.call
  history := run.history ++ run.store.changesOf c

/-- Calls on an empty store. -/
def runLive (calls : List LiveCall) : Live := calls.foldl Live.call {}

/-! ## The list of listeners -/

theorem listeners_addListener (s : ReportStore) (l : ListenerId) :
    (s.addListener l).listeners = Roster.change s.listeners (.add l) := by
  unfold addListener
  rw [Roster.change]
  by_cases hl : l ∈ s.listeners
  · rw [if_pos hl, if_pos hl]
  · rw [if_neg hl, if_neg hl]

theorem listeners_foldl_react (s : ReportStore) (reactions : List Reaction) :
    (reactions.foldl react s).listeners =
      (reactions.map Reaction.change).foldl Roster.change s.listeners := by
  induction reactions generalizing s with
  | nil => rfl
  | cons reaction reactions ih =>
    have hreact : (s.react reaction).listeners = Roster.change s.listeners reaction.change := by
      cases reaction with
      | add l => exact s.listeners_addListener l
      | remove l => rfl
    rw [List.foldl_cons, ih, hreact, List.map_cons, List.foldl_cons]

/-- The list after a round of telling has what the listeners in it did. -/
theorem listeners_tell (reactions : Reactions) (notice : Notice) (ls : List ListenerId)
    (s : ReportStore) :
    (tell reactions notice ls s).1.listeners =
      (changesIn reactions (tell reactions notice ls s).2).foldl Roster.change s.listeners := by
  induction ls generalizing s with
  | nil => rfl
  | cons l ls ih =>
    simp only [tell, changesIn, List.flatMap_cons, List.foldl_append]
    rw [ih, listeners_foldl_react, changesIn]

theorem listeners_apply (reactions : Reactions) (now : Instant) (s : ReportStore)
    (op : StoreOperation) :
    (s.apply reactions now op).store.listeners =
      (changesIn reactions (s.apply reactions now op).deliveries).foldl Roster.change
        s.listeners := by
  have hlisteners := s.listeners_record now op
  unfold apply
  rcases hrecord : s.record now op with ⟨store, changed, notice⟩
  rw [hrecord] at hlisteners
  rw [← hlisteners]
  cases notice with
  | none => rfl
  | some notice => exact listeners_tell reactions notice store.listeners store

theorem listeners_call (s : ReportStore) (c : LiveCall) :
    (s.call c.reactions c.call).listeners = (s.changesOf c).foldl Roster.change s.listeners := by
  obtain ⟨reactions, c⟩ := c
  cases c with
  | operation now op => exact listeners_apply reactions now s op
  | addListener l => exact s.listeners_addListener l
  | removeListener l => rfl

/-- The list of listeners is what the additions and removals of the run left in it. -/
theorem listeners_runLive (calls : List LiveCall) :
    (runLive calls).store.listeners = (runLive calls).history.foldl Roster.change [] := by
  unfold runLive
  induction calls using List.reverseRecOn with
  | nil => rfl
  | append_singleton calls c ih =>
    rw [List.foldl_concat, Live.call, listeners_call, ih, List.foldl_append]

/-! ## A round of telling -/

/-- A listener that is told sees what those before it did to the list, and the reports as they were
when the round began. -/
theorem seen_tell (reactions : Reactions) (notice : Notice) {ls : List ListenerId} {s : ReportStore}
    {earlier later : List Delivery} {d : Delivery}
    (h : (tell reactions notice ls s).2 = earlier ++ d :: later) :
    d.seen.listeners = (changesIn reactions earlier).foldl Roster.change s.listeners ∧
      ∀ direction, d.seen.side direction = s.side direction := by
  induction ls generalizing s earlier with
  | nil => exact absurd h (by simp [tell])
  | cons l ls ih =>
    simp only [tell] at h
    cases earlier with
    | nil =>
      obtain ⟨rfl, -⟩ := List.cons.inj h
      exact ⟨rfl, fun _ => rfl⟩
    | cons first earlier =>
      rw [List.cons_append] at h
      obtain ⟨rfl, hrest⟩ := List.cons.inj h
      obtain ⟨hlisteners, hside⟩ := ih hrest
      refine ⟨?_, fun direction => (hside direction).trans (side_foldl_react ..)⟩
      rw [hlisteners, listeners_foldl_react, changesIn, changesIn, List.flatMap_cons,
        List.foldl_append]

/-- An operation that stores a report stores it unless an equal one is there. -/
theorem record_notice {now : Instant} {op : StoreOperation} {notice : Notice}
    (h : op.notice? now = some notice) (s : ReportStore) :
    (notice.IsOld s ∧ s.record now op = (s, false, none)) ∨
      (¬ notice.IsOld s ∧ ∃ store, notice.HeldBy store ∧
        s.record now op = (store, true, some notice)) := by
  cases op with
  | report direction r =>
    obtain rfl := Option.some.inj h
    obtain ⟨side, hreports, -, hrecord⟩ := s.record_report now direction r
    by_cases hold : (Notice.report direction ⟨r, now⟩).IsOld s
    · exact .inl ⟨hold, hrecord.trans (if_pos hold)⟩
    · refine .inr ⟨hold, _, ?_, hrecord.trans (if_neg hold)⟩
      rw [Notice.HeldBy, side_withSide, if_pos rfl, hreports, Table.get?_insert, if_pos rfl]
  | extended direction x =>
    obtain rfl := Option.some.inj h
    obtain ⟨side, hextended, -, hrecord⟩ := s.record_extended now direction x
    by_cases hold : (Notice.extended direction ⟨x, now⟩).IsOld s
    · exact .inl ⟨hold, hrecord.trans (if_pos hold)⟩
    · refine .inr ⟨hold, _, ?_, hrecord.trans (if_neg hold)⟩
      rw [Notice.HeldBy, side_withSide, if_pos rfl, hextended, Table.get?_insert, if_pos rfl]
  | firstPacket | roundTrip => cases h

/-- Nobody is told of an operation that stores no report. -/
theorem deliveries_apply_of_notice?_eq_none (reactions : Reactions) {now : Instant}
    {op : StoreOperation} (h : op.notice? now = none) (s : ReportStore) :
    (s.apply reactions now op).deliveries = [] := by
  unfold apply
  cases op with
  | report | extended => cases h
  | firstPacket direction ssrc moment =>
    simp only [record]
    cases (s.side direction).storeFirstPacket ssrc moment <;> rfl
  | roundTrip => rfl

/-- A store that announces a report to the listeners of the history so far: each is told of it once
and in order, and then sees the report, the reports as they are left, and the list as the history
and those told before it make it. -/
structure Announcement (reactions : Reactions) (history : List (Roster.Change ListenerId))
    (s : ReportStore) (notice : Notice) (o : Outcome) : Prop where
  announces : o.Announces s.listeners notice
  seen : ∀ earlier d later, o.deliveries = earlier ++ d :: later →
    notice.HeldBy d.seen ∧ (∀ direction, d.seen.side direction = o.store.side direction) ∧
      Roster.Lists (history ++ changesIn reactions earlier) d.seen.listeners
  after : Roster.Lists (history ++ changesIn reactions o.deliveries) o.store.listeners

theorem Notice.HeldBy.of_side_eq {notice : Notice} {s store : ReportStore} (h : notice.HeldBy s)
    (hside : ∀ direction, store.side direction = s.side direction) : notice.HeldBy store := by
  cases notice with
  | report direction r =>
    rw [Notice.HeldBy, hside]
    exact h
  | extended direction x =>
    rw [Notice.HeldBy, hside]
    exact h

/-- What comes of an operation, where the listeners are those of the history so far: a report that
it stores is announced, and of anything else nobody is told. -/
theorem announcement_apply {s : ReportStore} {history : List (Roster.Change ListenerId)}
    (h : s.listeners = history.foldl Roster.change []) (reactions : Reactions) (now : Instant)
    (op : StoreOperation) :
    match op.notice? now with
    | some notice =>
      if notice.IsOld s then
        (s.apply reactions now op).IsSilent ∧ (s.apply reactions now op).store = s
      else
        Announcement reactions history s notice (s.apply reactions now op)
    | none =>
      (s.apply reactions now op).deliveries = [] ∧
        (s.apply reactions now op).store.listeners = s.listeners := by
  have hlists : ∀ changes,
      Roster.Lists (history ++ changes) (changes.foldl Roster.change s.listeners) := by
    intro changes
    rw [h, ← List.foldl_append]
    exact Roster.lists_foldl_change _
  cases hop : op.notice? now with
  | some notice =>
    show if notice.IsOld s then _ else _
    rcases record_notice hop s with ⟨hold, hrecord⟩ | ⟨hold, store, hheld, hrecord⟩
    · rw [if_pos hold]
      refine ⟨isSilent_apply reactions hrecord, ?_⟩
      unfold apply
      rw [hrecord]
    · rw [if_neg hold]
      have hlisteners : store.listeners = s.listeners := by
        have hkept := s.listeners_record now op
        rwa [hrecord] at hkept
      have happly : s.apply reactions now op =
          ⟨(tell reactions notice store.listeners store).1, true,
            (tell reactions notice store.listeners store).2⟩ := by
        unfold apply
        rw [hrecord]
      refine ⟨announces_apply reactions hrecord, fun earlier d later hd => ?_, ?_⟩
      · rw [happly] at hd ⊢
        obtain ⟨hseen, hside⟩ := seen_tell reactions notice hd
        refine ⟨Notice.HeldBy.of_side_eq hheld hside, fun direction => ?_, ?_⟩
        · rw [hside, side_tell]
        · rw [hseen, hlisteners]
          exact hlists _
      · rw [listeners_apply]
        exact hlists _
  | none =>
    have hnobody := deliveries_apply_of_notice?_eq_none reactions hop s
    refine ⟨hnobody, ?_⟩
    rw [listeners_apply, hnobody]
    rfl

-- A listener that removes the one after it and adds another: this round still goes to the first
-- two.
example :
    let o :=
      apply (fun _ _ _ => [.remove 2, .add 3]) 5 { listeners := [1, 2] }
        (.report .sent ⟨⟨7⟩, none, []⟩)
    o.deliveries.map Delivery.listener = [1, 2] ∧ o.store.listeners = [1, 3] := by decide

/-- After any calls, whatever listeners did in them, the listeners are distinct and in the order in
which they were added; and the next report is announced to exactly these, or it is an old one and
nobody is told. -/
theorem announcement_runLive (calls : List LiveCall) :
    (runLive calls).store.listeners.Nodup ∧
      Roster.Lists (runLive calls).history (runLive calls).store.listeners ∧
      ∀ (reactions : Reactions) (now : Instant) (op : StoreOperation),
        match op.notice? now with
        | some notice =>
          if notice.IsOld (runLive calls).store then
            ((runLive calls).store.apply reactions now op).IsSilent ∧
              ((runLive calls).store.apply reactions now op).store = (runLive calls).store
          else
            Announcement reactions (runLive calls).history (runLive calls).store notice
              ((runLive calls).store.apply reactions now op)
        | none =>
          ((runLive calls).store.apply reactions now op).deliveries = [] ∧
            ((runLive calls).store.apply reactions now op).store.listeners =
              (runLive calls).store.listeners := by
  have hlists : Roster.Lists (runLive calls).history (runLive calls).store.listeners := by
    rw [listeners_runLive]
    exact Roster.lists_foldl_change _
  exact ⟨hlists.nodup, hlists, announcement_apply (listeners_runLive calls)⟩

end ReportStore

end MediaTransport
