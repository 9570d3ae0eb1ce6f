import MediaTransport.Proofs.Receiver.Threads

/-!
# The lifetime of a receiver

Whatever order the threads of a receiver take their steps in, it is started once at most, its state
only goes on, and what has failed or is closed stays so (`lifecycle_run`). The lock carries this: a
call to start that has it keeps the receiver not started for everyone else, and the loop that it
makes cannot mark its failure before callers see that it runs (`Sound`).
-/

namespace MediaTransport

/-- The changes of state that a receiver goes through. -/
inductive ReceiverState.Onward : ReceiverState → ReceiverState → Prop
  | start : Onward notStarted running
  | fail : Onward running failed
  | close (state : ReceiverState) : Onward state closed

namespace SharedReceiver

variable {s t : SharedReceiver}

/-- What the calls that have changed the state say of it. -/
structure Past (state : ReceiverState) (calls : List LifeCall) : Prop where
  started : ∀ i : Nat, calls[i]? = some .started → state ≠ .notStarted
  once : ∀ i j : Nat, calls[i]? = some .started → calls[j]? = some .started → i = j
  marked : ∀ i : Nat, calls[i]? = some .marked → state = .closed

namespace Past

variable {state : ReceiverState} {calls : List LifeCall}

theorem of_old (h : Past state calls) {later : List LifeCall}
    (hold : ∀ (i : Nat) (call : LifeCall), call = .started ∨ call = .marked →
      later[i]? = some call → calls[i]? = some call) : Past state later where
  started i hi := h.started i (hold i _ (.inl rfl) hi)
  once i j hi hj := h.once i j (hold i _ (.inl rfl) hi) (hold j _ (.inl rfl) hj)
  marked i hi := h.marked i (hold i _ (.inr rfl) hi)

/-- A call that gets on without a change of the state is no matter. -/
theorem set (h : Past state calls) (i : Nat) {call : LifeCall} (hstarted : call ≠ .started)
    (hmarked : call ≠ .marked) : Past state (calls.set i call) := by
  refine h.of_old fun j other hkind hj => old_of_set hj ?_
  rcases hkind with rfl | rfl
  · exact hstarted.symm
  · exact hmarked.symm

/-- Neither is one that begins. -/
theorem append (h : Past state calls) {call : LifeCall} (hstarted : call ≠ .started)
    (hmarked : call ≠ .marked) : Past state (calls ++ [call]) := by
  refine h.of_old fun j other hkind hj => old_of_append hj ?_
  rcases hkind with rfl | rfl
  · exact hstarted.symm
  · exact hmarked.symm

end Past

/-- What holds of a receiver and its threads at every moment. -/
structure Sound (s : SharedReceiver) : Prop where
  /-- The lock is with the call that is between its steps under it. -/
  holder : ∀ (i : Nat) (call : LifeCall), s.calls[i]? = some call → call.holdsLock = true →
    s.holder = some i
  /-- Whoever has the lock between steps keeps the receiver not started. -/
  held : s.holder ≠ none → s.life.state = .notStarted
  spawned : ∀ i : Nat, s.calls[i]? = some .spawned → s.life.loop = .reading
  admitted : ∀ i : Nat, s.calls[i]? = some .admitted → s.life.loop = .notStarted
  free : s.holder = none → s.life.state = .notStarted → s.life.loop = .notStarted
  past : Past s.life.state s.calls
  /-- The flag on which the loop ends is set after the state. -/
  closed : s.life.closed = true → s.life.state = .closed
  /-- So is the one that the loop leaves. -/
  failed : s.life.loop = .failing ∨ s.life.failed = true →
    s.life.state = .failed ∨ s.life.state = .closed

theorem sound_init : Sound {} where
  holder := nofun
  held := nofun
  spawned := nofun
  admitted := nofun
  free := fun _ _ => rfl
  past := ⟨nofun, nofun, nofun⟩
  closed := nofun
  failed := nofun

namespace Sound

/-- Calls that begin, or end without a change of the receiver, are no matter. -/
theorem of_calls (h : s.Sound) {calls : List LifeCall}
    (hcalls : ∀ (i : Nat) (call : LifeCall), calls[i]? = some call → call.holdsLock = true →
      s.calls[i]? = some call) (hpast : Past s.life.state calls) : Sound { s with calls } where
  holder i call hi hlock := h.holder i call (hcalls i call hi hlock) hlock
  held := h.held
  spawned i hi := h.spawned i (hcalls i _ hi rfl)
  admitted i hi := h.admitted i (hcalls i _ hi rfl)
  free := h.free
  past := hpast
  closed := h.closed
  failed := h.failed

theorem not_holdsLock (h : s.Sound) {j : Nat} {other : LifeCall} (hholder : s.holder ≠ some j)
    (hother : s.calls[j]? = some other) : other.holdsLock = false :=
  Bool.eq_false_iff.2 fun hlock => hholder (h.holder j other hother hlock)

/-- While the lock is free, no call is between its steps under it. -/
theorem not_holdsLock_of_free (h : s.Sound) (hfree : s.holder = none) {j : Nat} {other : LifeCall}
    (hother : s.calls[j]? = some other) : other.holdsLock = false := by
  refine h.not_holdsLock ?_ hother
  rw [hfree]
  exact nofun

/-- While a call has the lock, no other call is between its steps under it. -/
theorem not_holdsLock_of_ne (h : s.Sound) {i j : Nat} {call other : LifeCall}
    (hcall : s.calls[i]? = some call) (hlock : call.holdsLock = true) (hne : i ≠ j)
    (hother : s.calls[j]? = some other) : other.holdsLock = false := by
  refine h.not_holdsLock ?_ hother
  rw [h.holder i call hcall hlock]
  exact fun heq => hne (Option.some.inj heq)

theorem notStarted (h : s.Sound) {i : Nat} {call : LifeCall} (hcall : s.calls[i]? = some call)
    (hlock : call.holdsLock = true) : s.life.state = .notStarted := by
  refine h.held ?_
  rw [h.holder i call hcall hlock]
  exact Option.some_ne_none i

/-- Before a receiver is started nothing has failed and nobody has closed it. -/
theorem fresh (h : s.Sound) (hstate : s.life.state = .notStarted) :
    s.life.closed = false ∧ s.life.failed = false ∧ s.life.loop ≠ .failing ∧
      (∀ i : Nat, s.calls[i]? ≠ some .started) ∧ ∀ i : Nat, s.calls[i]? ≠ some .marked := by
  have hopen : s.life.state ≠ .closed := by
    rw [hstate]
    exact nofun
  have hwell : s.life.state ≠ .failed := by
    rw [hstate]
    exact nofun
  have hfailed : ¬(s.life.loop = .failing ∨ s.life.failed = true) := by
    intro hfailed
    exact (h.failed hfailed).elim hwell hopen
  refine ⟨?_, ?_, fun hloop => hfailed (.inl hloop), fun i hi => h.past.started i hi hstate,
    fun i hi => hopen (h.past.marked i hi)⟩
  · exact Bool.eq_false_iff.2 fun hclosed => hopen (h.closed hclosed)
  · exact Bool.eq_false_iff.2 fun hflag => hfailed (.inr hflag)

/-! ### One step -/

theorem enter (h : s.Sound) {i : Nat} (hfree : s.holder = none)
    (hstate : s.life.state = .notStarted) :
    Sound { s with calls := s.calls.set i .admitted, holder := some i } where
  holder j call hj hlock := by
    rcases eq_of_set hj with ⟨rfl, -⟩ | ⟨-, hold⟩
    · rfl
    · cases (h.not_holdsLock_of_free hfree hold).symm.trans hlock
  held _ := hstate
  spawned j hj := h.spawned j (old_of_set hj nofun)
  admitted _ _ := h.free hfree hstate
  free := nofun
  past := h.past.set i nofun nofun
  closed := h.closed
  failed := h.failed

theorem deny (h : s.Sound) {i : Nat} (hcall : s.calls[i]? = some .admitted) :
    Sound { s with calls := s.calls.set i .threadless, holder := none } where
  holder j call hj hlock := by
    rcases eq_of_set hj with ⟨-, rfl⟩ | ⟨hij, hold⟩
    · cases hlock
    · cases (h.not_holdsLock_of_ne hcall rfl hij hold).symm.trans hlock
  held hheld := absurd rfl hheld
  spawned j hj := h.spawned j (old_of_set hj nofun)
  admitted j hj := h.admitted j (old_of_set hj nofun)
  free _ _ := h.admitted i hcall
  past := h.past.set i nofun nofun
  closed := h.closed
  failed := h.failed

theorem spawn (h : s.Sound) {i : Nat} (hcall : s.calls[i]? = some .admitted) :
    Sound { s with calls := s.calls.set i .spawned, life := s.life.spawn } where
  holder j call hj hlock := by
    rcases eq_of_set hj with ⟨rfl, -⟩ | ⟨-, hold⟩
    · exact h.holder i _ hcall rfl
    · exact h.holder j call hold hlock
  held := h.held
  spawned _ _ := rfl
  admitted j hj := by
    rcases eq_of_set hj with ⟨-, heq⟩ | ⟨hij, hold⟩
    · cases heq
    · cases h.not_holdsLock_of_ne hcall rfl hij hold
  free hfree _ := by
    have hheld := h.holder i _ hcall rfl
    cases hfree.symm.trans hheld
  past := h.past.set i nofun nofun
  closed := h.closed
  failed hfailed := by
    obtain ⟨-, hflag, -⟩ := h.fresh (h.notStarted hcall rfl)
    rcases hfailed with hloop | hraised
    · cases hloop
    · cases hflag.symm.trans hraised

theorem publish (h : s.Sound) {i : Nat} (hcall : s.calls[i]? = some .spawned) :
    Sound
      { s with calls := s.calls.set i .started, life := s.life.markRunning, holder := none } := by
  obtain ⟨hclosed, hflag, hloop, hstarted, hmarked⟩ := h.fresh (h.notStarted hcall rfl)
  -- Nobody has started the receiver before.
  have hfirst : ∀ j : Nat, (s.calls.set i .started)[j]? = some .started → i = j := by
    intro j hj
    rcases eq_of_set hj with ⟨hij, -⟩ | ⟨-, hold⟩
    · exact hij
    · exact absurd hold (hstarted j)
  exact {
    holder := fun j call hj hlock => by
      rcases eq_of_set hj with ⟨-, rfl⟩ | ⟨hij, hold⟩
      · cases hlock
      · cases (h.not_holdsLock_of_ne hcall rfl hij hold).symm.trans hlock
    held := fun hheld => absurd rfl hheld
    spawned := fun _ _ => h.spawned i hcall
    admitted := fun j hj => by
      rcases eq_of_set hj with ⟨-, heq⟩ | ⟨hij, hold⟩
      · cases heq
      · cases h.not_holdsLock_of_ne hcall rfl hij hold
    free := nofun
    past := {
      started := nofun
      once := fun j k hj hk => (hfirst j hj).symm.trans (hfirst k hk)
      marked := fun j hj => absurd (old_of_set hj nofun) (hmarked j) }
    closed := fun hraised => nomatch hclosed.symm.trans hraised
    failed := fun hfailed => by
      rcases hfailed with hfailing | hraised
      · exact absurd hfailing hloop
      · cases hflag.symm.trans hraised }

theorem markClosed (h : s.Sound) {i : Nat} (hfree : s.holder = none) :
    Sound { s with calls := s.calls.set i .marked, life := s.life.markClosed } where
  holder j call hj hlock := by
    rcases eq_of_set hj with ⟨-, rfl⟩ | ⟨-, hold⟩
    · cases hlock
    · cases (h.not_holdsLock_of_free hfree hold).symm.trans hlock
  held hheld := absurd hfree hheld
  spawned j hj := h.spawned j (old_of_set hj nofun)
  admitted j hj := h.admitted j (old_of_set hj nofun)
  free := nofun
  past := {
    started := nofun
    once := fun j k hj hk => h.past.once j k (old_of_set hj nofun) (old_of_set hk nofun)
    marked := fun _ _ => rfl }
  closed _ := rfl
  failed _ := .inr rfl

theorem raiseClosed (h : s.Sound) {i : Nat} (hcall : s.calls[i]? = some .marked) :
    Sound { s with calls := s.calls.set i .closed, life := s.life.raiseClosed } where
  holder j call hj hlock := by
    rcases eq_of_set hj with ⟨-, rfl⟩ | ⟨-, hold⟩
    · cases hlock
    · exact h.holder j call hold hlock
  held := h.held
  spawned j hj := h.spawned j (old_of_set hj nofun)
  admitted j hj := h.admitted j (old_of_set hj nofun)
  free := h.free
  past := h.past.set i nofun nofun
  closed _ := h.past.marked i hcall
  failed := h.failed

/-- A loop that gets on is one that has been started for callers. -/
theorem of_loop (h : s.Sound) {life : Lifecycle} (hpast : s.life.state ≠ .notStarted)
    (hstate : life.state = s.life.state ∨ s.life.state = .running ∧ life.state = .failed)
    (hclosed : life.closed = s.life.closed)
    (hfailed : life.loop = .failing ∨ life.failed = true →
      life.state = .failed ∨ life.state = .closed) :
    Sound { s with life } := by
  have hstill : life.state ≠ .notStarted := by
    rcases hstate with hsame | ⟨-, hnow⟩
    · rw [hsame]
      exact hpast
    · rw [hnow]
      exact nofun
  have hkept : s.life.state = .closed → life.state = .closed := by
    intro hs
    rcases hstate with hsame | ⟨hrunning, -⟩
    · rw [hsame, hs]
    · cases hrunning.symm.trans hs
  have hfree : s.holder = none := Decidable.byContradiction fun hheld => hpast (h.held hheld)
  exact {
    holder := h.holder
    held := fun hheld => absurd hfree hheld
    spawned := fun i hi => nomatch h.not_holdsLock_of_free hfree hi
    admitted := fun i hi => nomatch h.not_holdsLock_of_free hfree hi
    free := fun _ hnow => absurd hnow hstill
    past := ⟨fun _ _ => hstill, h.past.once, fun i hi => hkept (h.past.marked i hi)⟩
    closed := fun hraised => hkept (h.closed (hclosed.symm.trans hraised))
    failed := hfailed }

theorem change (h : s.Sound) (hchange : s.Change t) : t.Sound := by
  cases hchange with
  | stay => exact h
  | call hnew =>
    refine h.of_calls (fun j other hj hlock => old_of_append hj ?_) ?_
    · rintro rfl
      rcases hnew with rfl | rfl
      · cases hlock
      · cases hlock
    · rcases hnew with rfl | rfl
      · exact h.past.append nofun nofun
      · exact h.past.append nofun nofun
  | refuse =>
    refine h.of_calls (fun j other hj hlock => old_of_set hj ?_) (h.past.set _ nofun nofun)
    rintro rfl
    cases hlock
  | enter hcall hfree hstate => exact h.enter hfree hstate
  | deny hcall => exact h.deny hcall
  | spawn hcall => exact h.spawn hcall
  | publish hcall => exact h.publish hcall
  | closeAgain =>
    refine h.of_calls (fun j other hj hlock => old_of_set hj ?_) (h.past.set _ nofun nofun)
    rintro rfl
    cases hlock
  | markClosed hcall hfree => exact h.markClosed hfree
  | raiseClosed hcall => exact h.raiseClosed hcall
  | leave hreading hclosed =>
    have hstate := h.closed hclosed
    refine h.of_loop (fun hs => nomatch hstate.symm.trans hs) (.inl rfl) rfl fun _ => .inr hstate
  | markFailed hfree hreading =>
    have hpast : s.life.state ≠ .notStarted := by
      intro hs
      cases hreading.symm.trans (h.free hfree hs)
    by_cases hrunning : s.life.state = .running
    · rw [if_pos hrunning]
      exact h.of_loop hpast (.inr ⟨hrunning, rfl⟩) rfl fun _ => .inl rfl
    · rw [if_neg hrunning]
      refine h.of_loop hpast (.inl rfl) rfl fun _ => ?_
      show s.life.state = .failed ∨ s.life.state = .closed
      cases hs : s.life.state with
      | notStarted => exact absurd hs hpast
      | running => exact absurd hs hrunning
      | failed => exact .inl rfl
      | closed => exact .inr rfl
  | raiseFailed hfailing =>
    have hstate := h.failed (.inl hfailing)
    refine h.of_loop (fun hs => ?_) (.inl rfl) rfl fun _ => hstate
    rw [hs] at hstate
    simp at hstate

end Sound

theorem sound_run (events : List LifeEvent) : (run events).Sound :=
  List.foldlRecOn events step sound_init fun s hs e _ => hs.change (s.change_step e)

/-! ## What stays as it is -/

/-- What every step keeps, a run keeps. -/
theorem holds_run_append {P : SharedReceiver → Prop}
    (hstep : ∀ s t : SharedReceiver, s.Sound → s.Change t → P s → P t) {before : List LifeEvent}
    (h : P (run before)) (later : List LifeEvent) : P (run (before ++ later)) := by
  have hboth : (run (before ++ later)).Sound ∧ P (run (before ++ later)) := by
    rw [run_append]
    refine List.foldlRecOn (motive := fun s => s.Sound ∧ P s) later step ⟨sound_run before, h⟩ ?_
    intro s hs e _
    exact ⟨hs.1.change (s.change_step e), hstep s _ hs.1 (s.change_step e) hs.2⟩
  exact hboth.2

namespace Change

/-- A step leaves the state, or takes it on. -/
theorem onward (hs : s.Sound) (h : s.Change t) :
    t.life.state = s.life.state ∨ s.life.state.Onward t.life.state := by
  cases h with
  | publish hcall =>
    rw [hs.notStarted hcall rfl]
    exact .inr .start
  | markClosed => exact .inr (.close _)
  | markFailed hfree hreading =>
    by_cases hrunning : s.life.state = .running
    · rw [if_pos hrunning, hrunning]
      exact .inr .fail
    · rw [if_neg hrunning]
      exact .inl rfl
  | stay | call | refuse | enter | deny | spawn | closeAgain | raiseClosed | leave | raiseFailed =>
    exact .inl rfl

theorem state_closed (hs : s.Sound) (h : s.Change t) (hclosed : s.life.state = .closed) :
    t.life.state = .closed := by
  rcases h.onward hs with hsame | honward
  · rw [hsame, hclosed]
  · generalize t.life.state = after at honward ⊢
    rw [hclosed] at honward
    cases honward
    rfl

theorem failed (h : s.Change t) (hfailed : s.life.failed = true) : t.life.failed = true := by
  cases h with
  | raiseFailed => rfl
  | stay | call | refuse | enter | deny | spawn | publish | closeAgain | markClosed | raiseClosed
  | leave | markFailed => exact hfailed

/-- A loop that has failed raises its flag, and does nothing else any more. -/
theorem failing (hs : s.Sound) (h : s.Change t)
    (hfailing : s.life.loop = .failing ∨ s.life.failed = true) :
    t.life.loop = .failing ∨ t.life.failed = true := by
  cases h with
  | spawn hcall =>
    obtain ⟨-, hflag, hloop, -⟩ := hs.fresh (hs.notStarted hcall rfl)
    rcases hfailing with hnow | hraised
    · exact absurd hnow hloop
    · cases hflag.symm.trans hraised
  | leave hreading =>
    rcases hfailing with hnow | hraised
    · cases hreading.symm.trans hnow
    · exact .inr hraised
  | markFailed => exact .inl rfl
  | raiseFailed => exact .inr rfl
  | stay | call | refuse | enter | deny | publish | closeAgain | markClosed | raiseClosed =>
    exact hfailing

/-- A call that is over stays where it is. -/
theorem kept (h : s.Change t) {i : Nat} {call : LifeCall} (hcall : s.calls[i]? = some call)
    (hover : call.isOver = true) : t.calls[i]? = some call := by
  have hne : ∀ before : LifeCall, before.isOver = false → call ≠ before := by
    rintro before hopen rfl
    cases hopen.symm.trans hover
  cases h with
  | call =>
    have hinside : i < s.calls.length := (List.getElem?_eq_some_iff.1 hcall).1
    rwa [List.getElem?_append_left hinside]
  | refuse hturn | enter hturn | deny hturn | spawn hturn | publish hturn | closeAgain hturn
  | markClosed hturn | raiseClosed hturn => exact kept_of_set hturn hcall (hne _ rfl)
  | stay | leave | markFailed | raiseFailed => exact hcall

/-- A start succeeds in a step that takes the receiver out of the state in which it is not
started. -/
theorem started (hs : s.Sound) (h : s.Change t) {i : Nat} (hbefore : s.calls[i]? ≠ some .started)
    (hafter : t.calls[i]? = some .started) :
    s.life.state = .notStarted ∧ t.life.state = .running := by
  cases h with
  | publish hcall => exact ⟨hs.notStarted hcall rfl, rfl⟩
  | call hnew =>
    refine absurd (old_of_append hafter ?_) hbefore
    rintro rfl
    rcases hnew with heq | heq
    · cases heq
    · cases heq
  | refuse | enter | deny | spawn | closeAgain | markClosed | raiseClosed =>
    exact absurd (old_of_set hafter nofun) hbefore
  | stay | leave | markFailed | raiseFailed => exact absurd hafter hbefore

end Change

/-! ## The life of a receiver -/

/-- A call to start that looks at the state when it is too late is refused there and then, and
starts nothing. -/
theorem proceed_of_refusal (hs : s.Sound) {i : Nat} {error : TransportError}
    (hcall : s.calls[i]? = some .starting) (hstate : s.life.state.refusal? = some error) :
    s.proceed i = { s with calls := s.calls.set i (.refused error) } := by
  have hfree : s.holder = none := by
    refine Decidable.byContradiction fun hheld => ?_
    rw [hs.held hheld] at hstate
    cases hstate
  have hlock : ¬s.holder.isSome := Option.not_isSome_iff_eq_none.2 hfree
  unfold proceed
  rw [hcall]
  show (if s.holder.isSome then s else s.beginStart i) = _
  rw [if_neg hlock, beginStart, s.life.start_eq, hstate]

/-- The life of a receiver, whatever steps its threads take and in whatever order. One start
succeeds at most, and it takes the receiver from not started to running; the state changes in no
other ways than onward; a closed receiver stays closed; the flag of a failed loop stays set, and
callers have seen the end before it is; no receiver runs whose loop has failed; and a start that
comes too late is refused for the state that it finds, and changes nothing. -/
theorem lifecycle_run (before later : List LifeEvent) (e : LifeEvent) :
    (∀ i j : Nat, (run before).calls[i]? = some .started →
      (run (before ++ later)).calls[j]? = some .started → i = j) ∧
    (∀ i : Nat, (run before).calls[i]? ≠ some .started →
      (run (before ++ [e])).calls[i]? = some .started →
        (run before).life.state = .notStarted ∧ (run (before ++ [e])).life.state = .running) ∧
    ((run (before ++ [e])).life.state = (run before).life.state ∨
      (run before).life.state.Onward (run (before ++ [e])).life.state) ∧
    ((run before).life.state = .closed → (run (before ++ later)).life.state = .closed) ∧
    ((run before).life.failed = true → (run (before ++ later)).life.failed = true ∧
      ((run before).life.state = .failed ∨ (run before).life.state = .closed)) ∧
    ((run before).life.loop = .failing → (run (before ++ later)).life.state ≠ .running) ∧
    ∀ (i : Nat) (error : TransportError), (run before).calls[i]? = some .starting →
      (run before).life.state.refusal? = some error →
        run (before ++ [.proceed i]) =
            { run before with calls := (run before).calls.set i (.refused error) } ∧
          (run (before ++ .proceed i :: later)).calls[i]? = some (.refused error) := by
  have hs := sound_run before
  have hstep : (run before).Change (run (before ++ [e])) := by
    rw [run_append]
    exact (run before).change_step e
  refine ⟨?_, fun i => hstep.started hs, hstep.onward hs, ?_, ?_, ?_, ?_⟩
  · intro i j hi hj
    have hkept := @holds_run_append (fun s => s.calls[i]? = some .started)
      (fun _ _ _ hchange hbefore => hchange.kept hbefore rfl) before hi later
    exact (sound_run (before ++ later)).past.once i j hkept hj
  · intro hclosed
    exact holds_run_append (fun _ _ hsound hchange => hchange.state_closed hsound) hclosed later
  · intro hfailed
    refine ⟨?_, hs.failed (.inr hfailed)⟩
    exact holds_run_append (fun _ _ _ hchange => hchange.failed) hfailed later
  · intro hfailing hrunning
    have hlater := holds_run_append (fun _ _ hsound hchange => hchange.failing hsound)
      (.inl hfailing) later
    have hstate := (sound_run (before ++ later)).failed hlater
    rw [hrunning] at hstate
    simp at hstate
  · intro i error hcall hstate
    have hrefused : run (before ++ [.proceed i]) =
        { run before with calls := (run before).calls.set i (.refused error) } := by
      rw [run_append]
      exact proceed_of_refusal hs hcall hstate
    refine ⟨hrefused, ?_⟩
    have hinside : i < (run before).calls.length := (List.getElem?_eq_some_iff.1 hcall).1
    have hnow : (run (before ++ [.proceed i])).calls[i]? = some (.refused error) := by
      rw [hrefused]
      exact List.getElem?_set_self hinside
    have hkept := @holds_run_append (fun s => s.calls[i]? = some (.refused error))
      (fun _ _ _ hchange hbefore => hchange.kept hbefore rfl) _ hnow later
    rwa [List.append_assoc] at hkept

/-- Two calls to start. The loop of the first fails before callers see that it runs, so that it has
to wait for them, and a call to close comes between its two steps. -/
def raced : List LifeEvent :=
  [.start, .start, .proceed 0, .proceed 0, .markFailed, .proceed 1, .proceed 0, .markFailed, .close,
    .proceed 2]

theorem lifecycle_run_raced :
    (run (raced.take 6)).life.state = .notStarted ∧
      (run raced).calls = [.started, .starting, .marked] ∧ (run raced).life.loop = .failing ∧
      (run (raced ++ [.raiseFailed, .proceed 2])).life.state ≠ .running ∧
      (run (raced ++ [.raiseFailed, .proceed 2])).life.state = .closed ∧
      (run (raced ++ [.raiseFailed, .proceed 2])).life.failed = true ∧
      (run (raced ++ [.proceed 1, .raiseFailed, .proceed 2])).calls[1]? =
        some (.refused .closed) := by
  obtain ⟨-, hstarted, -⟩ := lifecycle_run (raced.take 6) [] (.proceed 0)
  obtain ⟨-, -, -, hclosed, -, hfailing, hrefused⟩ :=
    lifecycle_run raced [.raiseFailed, .proceed 2] .leave
  obtain ⟨-, -, -, -, hfailed, -⟩ := lifecycle_run (raced ++ [.raiseFailed]) [.proceed 2] .leave
  refine ⟨(hstarted 0 (by decide) (by decide)).1, by decide, by decide, hfailing (by decide),
    hclosed (by decide), ?_, (hrefused 1 .closed (by decide) (by decide)).2⟩
  have hflag := (hfailed (by decide)).1
  rwa [List.append_assoc] at hflag

end SharedReceiver

end MediaTransport
