import Mathlib.Data.List.Nodup
import MediaTransport.Proofs.Sender.FanOut
import MediaTransport.Proofs.Sender.Threads

/-!
# Packets stay in order

A sender that starts to pace, changes its limit or lifts it again sends what is written to it in the
order in which it was written (`received_prefix_written`). From the first limit on everything goes
through the queue of the pacer, also what is written when there is no limit any more, so that
nothing overtakes what waits there; and what is written before that has been sent when the first
limit is set, since the caller sets it. Nothing is lost or sent twice on the way: what a target has
received and what is outstanding for it is what was written (`Orderly`).
-/

namespace MediaTransport

/-! ## A pacer that nobody closes -/

/-- A pacer that is not closed, whose worker has no reason to end. -/
structure Pacer.Open {α : Type} (s : Pacer α) : Prop where
  notClosed : s.closed = false
  unsigned : .stop ∉ s.queue
  goesOn : s.phase.isOver = false

namespace Pacer.Open

variable {α : Type} {s s' : Pacer α}

theorem worked {packet : Option α} (h : s.Open) (hworked : s.Worked s' packet) : s'.Open := by
  have hnotOver := h.goesOn
  cases hworked with
  | stay => exact ⟨h.notClosed, h.unsigned, h.goesOn⟩
  | take hphase hqueue =>
    have hrest := h.unsigned
    rw [hqueue] at hrest
    exact ⟨h.notClosed, fun hstop => hrest (List.mem_cons_of_mem _ hstop), rfl⟩
  | obey hphase hqueue =>
    refine absurd ?_ h.unsigned
    rw [hqueue]
    exact List.mem_cons_self
  | giveUp hphase hclosed => cases h.notClosed.symm.trans hclosed
  | grant | deliver | finish => exact ⟨h.notClosed, h.unsigned, rfl⟩
  | leave hphase =>
    rw [hphase] at hnotOver
    cases hnotOver

/-- A packet for the queue of an open pacer is taken behind all others, or has to wait. -/
theorem push (h : s.Open) (p : α) :
    s.push p = .full ∨
      ∃ t : Pacer α, s.push p = .queued t ∧ t.Open ∧ t.pending = s.pending ++ [p] := by
  have hhere : ¬s.isExited = true := by
    rw [isExited_eq_true]
    intro hexited
    have hgoesOn := h.goesOn
    rw [hexited] at hgoesOn
    cases hgoesOn
  unfold Pacer.push
  rw [if_neg hhere]
  split
  next =>
    refine .inr ⟨_, rfl, ⟨h.notClosed, ?_, h.goesOn⟩, ?_⟩
    · simpa using h.unsigned
    · simp [pending, Queued.packet?]
  next => exact .inl rfl

end Pacer.Open

namespace RateLimit

theorem isEnabled_eq_true {limit : RateLimit} : limit.isEnabled = true ↔ limit.maxPackets ≠ 0 := by
  unfold isEnabled
  rw [decide_eq_true_iff]
  exact UInt64.pos_iff_ne_zero

theorem make_eq (maxPackets perMillis : UInt64) :
    make maxPackets perMillis =
      if maxPackets ≠ 0 ∧ perMillis = 0 then .error (.ratePeriod perMillis)
      else .ok ⟨maxPackets, perMillis⟩ := by
  unfold make validate
  simp only [isEnabled_eq_true]
  split <;> rfl

end RateLimit

/-! ## What a target receives -/

namespace Attempt

@[simp] theorem receivedBy_nil (target : Address) : receivedBy target [] = [] := rfl

theorem receivedBy_append (target : Address) (attempts others : List Attempt) :
    receivedBy target (attempts ++ others) =
      receivedBy target attempts ++ receivedBy target others := by
  unfold receivedBy
  rw [List.filter_append, List.map_append]

theorem receivedBy_cons (target : Address) (attempt : Attempt) (attempts : List Attempt) :
    receivedBy target (attempt :: attempts) =
      receivedBy target [attempt] ++ receivedBy target attempts :=
  receivedBy_append target [attempt] attempts

end Attempt

/-! ## What a sender does -/

namespace Sender

variable {σ : Type} {targets : List Address} {s s' : Sender σ}

/-- An open sender with fixed targets, which passes on what is written to it. -/
structure Steady (targets : List Address) (s : Sender σ) : Prop where
  stage_eq : s.stage = .passThrough σ
  targets_eq : s.targets = targets
  notClosed : s.closed = false
  pacer_open : ∀ pacer, s.pacer = some pacer → pacer.Open

theorem pending_of_none (h : s.pacer = none) : s.pending = [] := by
  unfold pending
  rw [h]

theorem pending_of_some {pacer : Pacer Packet} (h : s.pacer = some pacer) :
    s.pending = pacer.pending.map Packet.bytes := by
  unfold pending
  rw [h]

/-- Each target receives a packet once. -/
theorem receivedBy_attempts (s : Sender σ) (hnodup : targets.Nodup) {target : Address}
    (htarget : target ∈ targets) (now : Instant) (p : Packet) :
    Attempt.receivedBy target (targets.map (s.attempt .reliable now p)) = [p.bytes] := by
  have hfilter : targets.filter (fun t => decide (t = target)) = [target] := by
    rw [List.filter_eq, List.count_eq_one_of_mem hnodup htarget]
    rfl
  unfold Attempt.receivedBy
  rw [List.filter_map, List.map_map]
  show (targets.filter fun t => true && decide (t = target)).map (fun _ => p.bytes) = _
  simp only [Bool.true_and, hfilter]
  rfl

theorem deliver_steady (hnodup : targets.Nodup) (h : s.Steady targets) (now : Instant)
    (p : Packet) :
    ∃ after attempts, s.deliver .reliable now p = (after, attempts) ∧ after.Steady targets ∧
      after.pacer = s.pacer ∧
      ∀ target ∈ targets, Attempt.receivedBy target attempts = [p.bytes] := by
  refine ⟨_, _, rfl, ⟨h.stage_eq, h.targets_eq, h.notClosed, h.pacer_open⟩, rfl, ?_⟩
  intro target htarget
  rw [h.targets_eq]
  exact s.receivedBy_attempts hnodup htarget now p

/-- A packet for the queue goes behind what is pending, or waits behind it. -/
theorem queue_steady (h : s.Steady targets) (hpaced : s.pacer ≠ none) (p : Packet) (length : Nat) :
    ∃ after status, s.queue p length = (after, status) ∧ after.Steady targets ∧ after.pacer ≠ none ∧
      after.pending ++ status.waiting?.toList.map (fun w => w.1.bytes) =
        s.pending ++ [p.bytes] := by
  obtain ⟨pacer, hpacer⟩ := Option.ne_none_iff_exists'.1 hpaced
  rcases (h.pacer_open pacer hpacer).push p with hfull | ⟨next, hpush, hopen, hpending⟩
  · refine ⟨s, .waiting p length, ?_, h, hpaced, rfl⟩
    simp only [queue, hpacer, hfull]
  · refine ⟨{ s with pacer := some next }, .finished (.ok length), ?_,
      ⟨h.stage_eq, h.targets_eq, h.notClosed, ?_⟩, Option.some_ne_none next, ?_⟩
    · simp only [queue, hpacer, hpush]
    · intro other hother
      rwa [← Option.some.inj hother]
    · have hafter : ({ s with pacer := some next } : Sender σ).pending =
          next.pending.map Packet.bytes := pending_of_some rfl
      have hbefore : s.pending = pacer.pending.map Packet.bytes := pending_of_some hpacer
      rw [hafter, hbefore, hpending, List.map_append]
      exact List.append_nil _

/-- A write without a pacer sends the packet to all targets; with one it leaves it to the queue. -/
theorem write_steady (hnodup : targets.Nodup) (h : s.Steady targets) (now : Instant)
    (bytes : Bytes) :
    ∃ after attempts status, s.write .reliable now bytes = (after, attempts, status) ∧
      after.Steady targets ∧
      (s.pacer = none ∧ after.pacer = none ∧ status.waiting? = none ∧
          (∀ target ∈ targets, Attempt.receivedBy target attempts = [bytes]) ∨
        attempts = [] ∧ after.pacer ≠ none ∧
          after.pending ++ status.waiting?.toList.map (fun w => w.1.bytes) =
            s.pending ++ [bytes]) := by
  obtain ⟨p, pool, hacquire⟩ : ∃ p pool, s.pool.acquire bytes = (p, pool) := ⟨_, _, rfl⟩
  have hbytes : p.bytes = bytes := by simpa [hacquire] using s.pool.bytes_acquire bytes
  have hpooled : ({ s with pool } : Sender σ).Steady targets :=
    ⟨h.stage_eq, h.targets_eq, h.notClosed, h.pacer_open⟩
  cases hpacer : s.pacer with
  | none =>
    obtain ⟨after, attempts, hdeliver, hsteady, hsame, hreceived⟩ :=
      deliver_steady hnodup hpooled now p
    refine ⟨after, attempts, .finished (result bytes.length attempts), ?_, hsteady,
      .inl ⟨rfl, hsame.trans hpacer, rfl, ?_⟩⟩
    · simp only [write, h.notClosed, hacquire, h.stage_eq, hpacer, Stage.passThrough] at hdeliver ⊢
      rw [hdeliver]
      rfl
    · rw [← hbytes]
      exact hreceived
  | some pacer =>
    have hopen : pacer.closed = false := (h.pacer_open pacer hpacer).notClosed
    have hpaced : ({ s with pool } : Sender σ).pacer ≠ none := by
      show s.pacer ≠ none
      rw [hpacer]
      exact Option.some_ne_none pacer
    obtain ⟨after, status, hqueue, hsteady, hkept, hpending⟩ :=
      queue_steady hpooled hpaced p bytes.length
    refine ⟨after, [], status, ?_, hsteady, .inr ⟨rfl, hkept, ?_⟩⟩
    · simp only [write, h.notClosed, hacquire, h.stage_eq, hpacer, hopen,
        Stage.passThrough] at hqueue ⊢
      rw [hqueue]
      rfl
    · rw [hpending, hbytes]
      rfl

/-- The worker takes what it sends off the front of what is pending. -/
theorem work_steady (hnodup : targets.Nodup) (h : s.Steady targets) (now : Instant) :
    ∃ after attempts, s.work .reliable now = (after, attempts) ∧ after.Steady targets ∧
      (after.pacer = none ↔ s.pacer = none) ∧ (s.pacer = none → attempts = []) ∧
      ∀ target ∈ targets, s.pending = Attempt.receivedBy target attempts ++ after.pending := by
  cases hpacer : s.pacer with
  | none =>
    refine ⟨s, [], ?_, h, iff_of_true hpacer rfl, fun _ => rfl, fun _ _ => rfl⟩
    simp only [work, hpacer]
  | some pacer =>
    obtain ⟨next, packet, hwork⟩ : ∃ next packet, pacer.work s.rateLimit now = (next, packet) :=
      ⟨_, _, rfl⟩
    have hworked := pacer.worked_work s.rateLimit now
    rw [hwork] at hworked
    have hopen : next.Open := (h.pacer_open pacer hpacer).worked hworked
    have hpending := (hworked.pending_eq hopen.goesOn).2
    have hsteady : ({ s with pacer := some next } : Sender σ).Steady targets := by
      refine ⟨h.stage_eq, h.targets_eq, h.notClosed, fun other hother => ?_⟩
      rwa [← Option.some.inj hother]
    have hafter : ({ s with pacer := some next } : Sender σ).pending =
        next.pending.map Packet.bytes :=
      pending_of_some rfl
    cases packet with
    | none =>
      refine ⟨{ s with pacer := some next }, [], ?_, hsteady, by simp,
        fun hnone => absurd hnone (Option.some_ne_none pacer), fun target _ => ?_⟩
      · simp only [work, hpacer, hwork]
      · rw [pending_of_some hpacer, hpending, hafter]
        rfl
    | some p =>
      obtain ⟨after, attempts, hdeliver, hdelivered, hsame, hreceived⟩ :=
        deliver_steady hnodup hsteady now p
      refine ⟨after, attempts, ?_, hdelivered, by rw [hsame]; simp,
        fun hnone => absurd hnone (Option.some_ne_none pacer), fun target htarget => ?_⟩
      · simp only [work, hpacer, hwork]
        exact hdeliver
      · rw [pending_of_some hpacer, hpending, hreceived target htarget, pending_of_some hsame]
        rfl

theorem open_newPacer (config : TransportConfig) : (newPacer config).Open := ⟨rfl, nofun, rfl⟩

/-- No packets lift the limit, a limit of some packets in no time is refused, and any other starts
the pacer unless there is one. -/
theorem setRateLimit_eq (hopen : s.closed = false) (maxPackets perMillis : UInt64) :
    s.setRateLimit maxPackets perMillis =
      if maxPackets = 0 then .ok { s with rateLimit := none }
      else if perMillis = 0 then .error (.config (.ratePeriod perMillis))
      else .ok { s with
        rateLimit := some ⟨maxPackets, perMillis⟩
        pacer := some (s.pacer.getD (newPacer s.config)) } := by
  have hclosed : ¬s.closed = true := by
    rw [hopen]
    exact Bool.false_ne_true
  unfold setRateLimit
  rw [if_neg hclosed]
  rw [RateLimit.make_eq]
  by_cases hnone : maxPackets = 0
  · have hlimit : ¬(maxPackets ≠ 0 ∧ perMillis = 0) := fun h => h.1 hnone
    rw [if_pos hnone, if_neg hlimit, hnone]
    rfl
  · have henabled : RateLimit.isEnabled ⟨maxPackets, perMillis⟩ = true :=
      RateLimit.isEnabled_eq_true.2 hnone
    rw [if_neg hnone]
    by_cases hperiod : perMillis = 0
    · rw [if_pos ⟨hnone, hperiod⟩, if_pos hperiod]
    · have hlimit : ¬(maxPackets ≠ 0 ∧ perMillis = 0) := fun h => hperiod h.2
      rw [if_neg hlimit, if_neg hperiod]
      simp only [RateLimit.enabled?, henabled, if_true]

/-- A change of the limit leaves what is pending, and keeps the pacer. -/
theorem setRateLimit_steady (h : s.Steady targets) {maxPackets perMillis : UInt64}
    (hset : s.setRateLimit maxPackets perMillis = .ok s') :
    s'.Steady targets ∧ s'.pending = s.pending ∧ (s'.pacer = none → s.pacer = none) := by
  rw [setRateLimit_eq h.notClosed] at hset
  split at hset
  next =>
    cases hset
    exact ⟨⟨h.stage_eq, h.targets_eq, h.notClosed, h.pacer_open⟩, rfl, id⟩
  next =>
    split at hset
    next => cases hset
    next =>
      cases hset
      cases hpacer : s.pacer with
      | none =>
        refine ⟨⟨h.stage_eq, h.targets_eq, h.notClosed, fun other hother => ?_⟩, ?_,
          fun hnone => absurd hnone (Option.some_ne_none _)⟩
        · rw [← Option.some.inj hother]
          exact open_newPacer s.config
        · rw [pending_of_none hpacer]
          rfl
      | some pacer =>
        refine ⟨⟨h.stage_eq, h.targets_eq, h.notClosed, fun other hother => ?_⟩, ?_,
          fun hnone => absurd hnone (Option.some_ne_none _)⟩
        · exact h.pacer_open other (hpacer.trans hother)
        · rw [pending_of_some hpacer]
          rfl

theorem create_steady {config : TransportConfig} {link : Link} {state : σ} {new : Sender σ}
    (hnew : create config link (.passThrough σ) state = .ok new) :
    new.Steady [] ∧ new.pending = [] := by
  unfold create at hnew
  cases hvalid : config.validate with
  | error e =>
    rw [hvalid] at hnew
    cases hnew
  | ok =>
    rw [hvalid] at hnew
    cases hnew
    cases hlimit : config.rateLimit with
    | none => exact ⟨⟨rfl, rfl, rfl, nofun⟩, rfl⟩
    | some limit =>
      refine ⟨⟨rfl, rfl, rfl, fun pacer hpacer => ?_⟩, rfl⟩
      rw [← Option.some.inj hpacer]
      exact open_newPacer config

/-- Targets that are added are there once. -/
theorem addTargets_steady (h : s.Steady targets) (hnodup : targets.Nodup) (added : List Address) :
    ∃ all, (added.foldl addTarget s).Steady all ∧ all.Nodup ∧
      (∀ target ∈ targets ++ added, target ∈ all) ∧
      (added.foldl addTarget s).pending = s.pending := by
  induction added generalizing s targets with
  | nil =>
    refine ⟨targets, h, hnodup, fun target htarget => ?_, rfl⟩
    rwa [List.append_nil] at htarget
  | cons new added ih =>
    rw [List.foldl_cons]
    by_cases hthere : new ∈ targets
    · have hsame : s.addTarget new = s := by
        unfold addTarget
        rw [h.targets_eq, if_pos hthere]
      obtain ⟨all, hsteady, hall, hmem, hpending⟩ := ih h hnodup
      rw [hsame]
      refine ⟨all, hsteady, hall, fun target htarget => hmem target ?_, hpending⟩
      simp only [List.mem_append, List.mem_cons] at htarget ⊢
      rcases htarget with hold | rfl | hlater
      · exact .inl hold
      · exact .inl hthere
      · exact .inr hlater
    · have hgrown : s.addTarget new = { s with targets := targets ++ [new] } := by
        unfold addTarget
        rw [h.targets_eq, if_neg hthere]
      have hadded : (s.addTarget new).Steady (targets ++ [new]) := by
        rw [hgrown]
        exact ⟨h.stage_eq, rfl, h.notClosed, h.pacer_open⟩
      have hdistinct : (targets ++ [new]).Nodup := by
        rw [← List.concat_eq_append]
        exact hnodup.concat hthere
      obtain ⟨all, hsteady, hall, hmem, hpending⟩ := ih hadded hdistinct
      refine ⟨all, hsteady, hall, fun target htarget => hmem target ?_, ?_⟩
      · rwa [List.append_assoc]
      · rw [hpending, hgrown]
        rfl

end Sender

/-! ## The order of a run -/

namespace SharedSender

variable {σ : Type} {targets : List Address} {s : SharedSender σ}

/-- What holds of an open sender with fixed targets and its threads at every moment. -/
structure Orderly (targets : List Address) (s : SharedSender σ) : Prop where
  steady : s.sender.Steady targets
  /-- Without a pacer nothing is left to its worker. -/
  unpaced : s.sender.pacer = none → s.workerOutbox = [] ∧ s.waiting = none
  /-- With a pacer the caller sends nothing. -/
  paced : s.sender.pacer ≠ none → s.callerOutbox = []
  conserved : ∀ target ∈ targets,
    Attempt.receivedBy target s.log ++ s.outstanding target = s.written

theorem orderly_init {sender : Sender σ} (h : sender.Steady targets)
    (hpending : sender.pending = []) : Orderly targets { sender } where
  steady := h
  unpaced _ := ⟨rfl, rfl⟩
  paced _ := rfl
  conserved target _ := by
    simp [outstanding, hpending]

namespace Orderly

theorem write (hnodup : targets.Nodup) (h : s.Orderly targets) (hidle : s.IsIdle) (now : Instant)
    (bytes : Bytes) : (s.write now bytes).Orderly targets := by
  obtain ⟨houtbox, hwaiting⟩ := hidle
  obtain ⟨after, attempts, status, hwrite, hsteady, hways⟩ :=
    Sender.write_steady hnodup h.steady now bytes
  have hold : ∀ target ∈ targets, Attempt.receivedBy target s.log ++
      (Attempt.receivedBy target s.workerOutbox ++ s.sender.pending) = s.written := by
    intro target htarget
    have hconserved := h.conserved target htarget
    simpa [outstanding, houtbox, hwaiting] using hconserved
  simp only [SharedSender.write, hwrite]
  rcases hways with ⟨hbefore, hnone, hstatus, hreceived⟩ | ⟨rfl, hpaced, hpending⟩
  · refine ⟨hsteady, fun _ => ⟨(h.unpaced hbefore).1, hstatus⟩, fun hpaced => absurd hnone hpaced,
      ?_⟩
    intro target htarget
    rw [← hold target htarget]
    simp [outstanding, hstatus, hreceived target htarget, Sender.pending_of_none hbefore,
      Sender.pending_of_none hnone]
  · refine ⟨hsteady, fun hnone => absurd hnone hpaced, fun _ => rfl, ?_⟩
    intro target htarget
    rw [← hold target htarget]
    simp only [outstanding, Attempt.receivedBy_nil, List.append_nil, List.append_assoc, hpending]

theorem setRateLimit (h : s.Orderly targets) (hidle : s.IsIdle) (maxPackets perMillis : UInt64) :
    (s.setRateLimit maxPackets perMillis).Orderly targets := by
  unfold SharedSender.setRateLimit
  cases hset : s.sender.setRateLimit maxPackets perMillis with
  | error e => exact h
  | ok after =>
    obtain ⟨hsteady, hpending, hpacer⟩ := Sender.setRateLimit_steady h.steady hset
    refine ⟨hsteady, fun hnone => h.unpaced (hpacer hnone), fun _ => hidle.1, ?_⟩
    intro target htarget
    rw [← h.conserved target htarget]
    simp only [outstanding, hpending]

theorem proceed (h : s.Orderly targets) : s.proceed.Orderly targets := by
  unfold SharedSender.proceed
  cases houtbox : s.callerOutbox with
  | cons attempt rest =>
    have hnone : s.sender.pacer = none := by
      refine Decidable.byContradiction fun hpaced => ?_
      cases houtbox.symm.trans (h.paced hpaced)
    obtain ⟨hworker, hwaiting⟩ := h.unpaced hnone
    refine ⟨h.steady, fun _ => ⟨hworker, hwaiting⟩, fun hpaced => absurd hnone hpaced, ?_⟩
    intro target htarget
    rw [← h.conserved target htarget, Attempt.receivedBy_append]
    simp [outstanding, houtbox, hworker, hwaiting, Sender.pending_of_none hnone,
      Attempt.receivedBy_cons target attempt rest]
  | nil =>
    cases hwaiting : s.waiting with
    | none => exact h
    | some waiting =>
      obtain ⟨p, length⟩ := waiting
      have hpaced : s.sender.pacer ≠ none := by
        intro hnone
        cases hwaiting.symm.trans (h.unpaced hnone).2
      obtain ⟨after, status, hqueue, hsteady, hkept, hpending⟩ :=
        Sender.queue_steady h.steady hpaced p length
      simp only [hqueue]
      refine ⟨hsteady, fun hnone => absurd hnone hkept, fun _ => rfl, ?_⟩
      intro target htarget
      rw [← h.conserved target htarget]
      simp [outstanding, houtbox, hwaiting, hpending]

theorem work (hnodup : targets.Nodup) (h : s.Orderly targets) (now : Instant) :
    (s.work now).Orderly targets := by
  unfold SharedSender.work
  cases houtbox : s.workerOutbox with
  | cons attempt rest =>
    have hpaced : s.sender.pacer ≠ none := by
      intro hnone
      cases houtbox.symm.trans (h.unpaced hnone).1
    refine ⟨h.steady, fun hnone => absurd hnone hpaced, h.paced, ?_⟩
    intro target htarget
    rw [← h.conserved target htarget, Attempt.receivedBy_append]
    simp [outstanding, houtbox, Attempt.receivedBy_cons target attempt rest]
  | nil =>
    obtain ⟨after, attempts, hwork, hsteady, hpacer, hnothing, hpending⟩ :=
      Sender.work_steady hnodup h.steady now
    simp only [hwork]
    refine ⟨hsteady, fun hnone => ⟨hnothing (hpacer.1 hnone), (h.unpaced (hpacer.1 hnone)).2⟩,
      fun hpaced => h.paced fun hnone => hpaced (hpacer.2 hnone), ?_⟩
    intro target htarget
    rw [← h.conserved target htarget]
    simp [outstanding, houtbox, hpending target htarget]

theorem step (hnodup : targets.Nodup) (h : s.Orderly targets) (e : SenderEvent) :
    (s.step e).Orderly targets := by
  cases e with
  | write now bytes =>
    simp only [SharedSender.step]
    split
    next hidle => exact h.write hnodup hidle now bytes
    next => exact h
  | setRateLimit maxPackets perMillis =>
    simp only [SharedSender.step]
    split
    next hidle => exact h.setRateLimit hidle maxPackets perMillis
    next => exact h
  | proceed => exact h.proceed
  | work now => exact h.work hnodup now

end Orderly

theorem orderly_run {config : TransportConfig} {link : Link} {state : σ} {new : Sender σ}
    (hnew : Sender.create config link (.passThrough σ) state = .ok new) (added : List Address)
    (events : List SenderEvent) :
    ∃ all, (run new added events).Orderly all ∧ ∀ target ∈ added, target ∈ all := by
  obtain ⟨hsteady, hpending⟩ := Sender.create_steady hnew
  obtain ⟨all, hadded, hnodup, hmem, hkept⟩ := Sender.addTargets_steady hsteady List.nodup_nil added
  have hinit := orderly_init hadded (hkept.trans hpending)
  exact ⟨all, List.foldlRecOn events SharedSender.step hinit fun _ hs e _ => hs.step hnodup e, hmem⟩

/-- One caller writes to a new sender and changes its rate limit as it likes, while the pacing
worker takes its steps at any moments. At every moment each target has received the first of the
packets written so far, in order and none of them twice; the others are outstanding for it. A change
of the limit takes effect at once, unless it is a limit of some packets in no time: that is refused,
and the limit stays. -/
theorem received_prefix_written {config : TransportConfig} {link : Link} {state : σ}
    {new : Sender σ} (hnew : Sender.create config link (.passThrough σ) state = .ok new)
    (added : List Address) (events : List SenderEvent) :
    (∀ target ∈ added,
      Attempt.receivedBy target (run new added events).log <+: (run new added events).written ∧
        Attempt.receivedBy target (run new added events).log ++
            (run new added events).outstanding target = (run new added events).written) ∧
      ∀ maxPackets perMillis, (run new added events).IsIdle →
        ((∃ error, (run new added events).sender.setRateLimit maxPackets perMillis = .error error) ↔
            maxPackets ≠ 0 ∧ perMillis = 0) ∧
          (run new added (events ++ [.setRateLimit maxPackets perMillis])).sender.rateLimit =
            if maxPackets = 0 then none
            else if perMillis = 0 then (run new added events).sender.rateLimit
            else some ⟨maxPackets, perMillis⟩ := by
  obtain ⟨all, hrun, hmem⟩ := orderly_run hnew added events
  refine ⟨fun target htarget => ?_, fun maxPackets perMillis hidle => ?_⟩
  · have hconserved := hrun.conserved target (hmem target htarget)
    exact ⟨⟨_, hconserved⟩, hconserved⟩
  · have hset := Sender.setRateLimit_eq hrun.steady.notClosed maxPackets perMillis
    have hlast : run new added (events ++ [.setRateLimit maxPackets perMillis]) =
        (run new added events).setRateLimit maxPackets perMillis := by
      unfold run
      rw [List.foldl_append]
      exact if_pos hidle
    rw [hlast, SharedSender.setRateLimit, hset]
    by_cases hnone : maxPackets = 0
    · simp [hnone]
    · by_cases hperiod : perMillis = 0
      · simp [hnone, hperiod]
      · simp [hnone, hperiod]

/-- A packet sent at once, one that is paced and is on its way, and one that is written when the
limit has been lifted again, after which a limit is refused. -/
def eased : List SenderEvent :=
  [.write 0 [1], .proceed, .proceed, .setRateLimit 1 10, .write 1 [2], .work 2, .work 3, .work 4,
    .work 5, .setRateLimit 0 0, .write 6 [3], .setRateLimit 5 0]

theorem received_prefix_written_eased :
    Attempt.receivedBy Sender.studio
        (run Sender.newSender [Sender.studio, Sender.relay] eased).log = [[1], [2]] ∧
      Attempt.receivedBy Sender.relay
        (run Sender.newSender [Sender.studio, Sender.relay] eased).log = [[1]] ∧
      [[1]] ++ [[2], [3]] = (run Sender.newSender [Sender.studio, Sender.relay] eased).written ∧
      (run Sender.newSender [Sender.studio, Sender.relay]
        (eased ++ [.setRateLimit 7 0])).sender.rateLimit = none := by
  have hnew : Sender.create {} {} (.passThrough Unit) () = .ok Sender.newSender := rfl
  obtain ⟨hreceived, hlimit⟩ := received_prefix_written hnew [Sender.studio, Sender.relay] eased
  have hrelay := (hreceived Sender.relay (by decide)).2
  have hlog : Attempt.receivedBy Sender.relay
      (run Sender.newSender [Sender.studio, Sender.relay] eased).log = [[1]] := by decide
  have houtstanding : outstanding (run Sender.newSender [Sender.studio, Sender.relay] eased)
      Sender.relay = [[2], [3]] := by decide
  rw [hlog, houtstanding] at hrelay
  refine ⟨by decide, hlog, hrelay, ?_⟩
  rw [(hlimit 7 0 (by decide)).2]
  decide

end SharedSender

end MediaTransport
