import Aviso.Proofs.CheckpointLaw

namespace Aviso.Watch

open Lib (Machine)
open State (Checkpoint)

namespace System

/-- What the run shares with the store and the consumer. -/
def shared (s : System) : Option Checkpoint × List (Except ClientError Notification) := (s.store, s.channel.buffer)

variable {c : Setup} {s s' : System}

@[simp] theorem shared_emit (e : Effect) : (s.emit e).shared = s.shared := rfl

@[simp] theorem shared_goto (stage : Stage) : (s.goto stage).shared = s.shared := rfl

@[simp] theorem shared_setVars (v : Supervisor) : (s.setVars v).shared = s.shared := rfl

@[simp] theorem shared_apply (event : WatchEvent) : (s.apply event).shared = s.shared := rfl

@[simp] theorem shared_close (outcome : ConnectionOutcome) : (s.close outcome).shared = s.shared := rfl

@[simp] theorem shared_fail (e : ClientError) : (s.fail e).shared = s.shared := rfl

@[simp] theorem shared_leave : (s.leave c).shared = s.shared := by
  unfold leave
  split <;> rfl

@[simp] theorem shared_after (next : After) : (s.after c next).shared = s.shared := by
  cases next <;> simp [after]

@[simp] theorem shared_connect : (s.connect c).shared = s.shared := by
  unfold connect
  repeat' split
  all_goals simp

@[simp] theorem shared_afterBackoff : (s.afterBackoff c).shared = s.shared := by
  unfold afterBackoff
  repeat' split
  all_goals simp

@[simp] theorem shared_stepTop (jitter : Nat) : (s.stepTop c jitter).shared = s.shared := by
  unfold stepTop
  dsimp only
  repeat' split
  all_goals simp

@[simp] theorem shared_resolved (cursor : Option ResumeStart) :
    (s.resolved c cursor).shared = s.shared := by
  unfold resolved
  split <;> simp

theorem shared_stepResolving (h : s.stepResolving c input = some s') : s'.shared = s.shared := by
  unfold stepResolving at h
  repeat' split at h
  all_goals cases h
  all_goals simp

theorem shared_stepSleeping (h : s.stepSleeping c input = some s') : s'.shared = s.shared := by
  unfold stepSleeping at h
  split at h
  all_goals cases h
  all_goals simp

theorem shared_stepRefreshing (h : s.stepRefreshing c input = some s') : s'.shared = s.shared := by
  unfold stepRefreshing at h
  split at h
  all_goals cases h
  all_goals simp

theorem shared_stepAuthorizing (h : s.stepAuthorizing a input = some s') : s'.shared = s.shared := by
  unfold stepAuthorizing at h
  split at h
  all_goals cases h
  all_goals simp

theorem shared_stepOpening (h : s.stepOpening c a input = some s') : s'.shared = s.shared := by
  unfold stepOpening at h
  repeat' split at h
  all_goals cases h
  all_goals simp

theorem shared_stepReadingBody (h : s.stepReadingBody status requestId retryAfter input = some s') :
    s'.shared = s.shared := by
  unfold stepReadingBody at h
  split at h
  all_goals cases h
  all_goals simp

@[simp] theorem shared_receive (conn : Connection) (chunk : Chunk) :
    (s.receive c conn chunk).shared = s.shared := by
  unfold receive confirm
  dsimp only
  repeat' split
  all_goals simp

theorem shared_stepReading (h : s.stepReading c conn input = some s') : s'.shared = s.shared := by
  unfold stepReading at h
  repeat' split at h
  all_goals cases h
  all_goals simp

@[simp] theorem shared_finishChunk (conn : Connection) (chunk : Chunk) (serverClosed : Bool) :
    (s.finishChunk conn chunk serverClosed).shared = s.shared := by
  unfold finishChunk
  repeat' split
  all_goals simp

@[simp] theorem shared_nextTrigger (conn : Connection) (chunk : Chunk) (n : Notification) (i : Nat) :
    (s.nextTrigger c conn chunk n i).shared = s.shared := by
  unfold nextTrigger
  split <;> simp

@[simp] theorem shared_beginDispatch (conn : Connection) (chunk : Chunk) (n : Notification) :
    (s.beginDispatch c conn chunk n).shared = s.shared := by
  simp [beginDispatch]

@[simp] theorem shared_receiveNotification (conn : Connection) (chunk : Chunk) (n : Notification) :
    (s.receiveNotification c conn chunk n).shared = s.shared := by
  unfold receiveNotification
  dsimp only
  repeat' split
  all_goals simp

@[simp] theorem shared_receiveMessage (conn : Connection) (chunk : Chunk) (m : Finesse.Message) :
    (s.receiveMessage c conn chunk m).shared = s.shared := by
  unfold receiveMessage
  dsimp only
  split <;> simp

@[simp] theorem shared_stepDraining (conn : Connection) (chunk : Chunk) :
    (s.stepDraining c conn chunk).shared = s.shared := by
  unfold stepDraining
  split <;> simp

theorem shared_stepDispatching (h : s.stepDispatching conn chunk n i input = some s') :
    s'.shared = s.shared := by
  unfold stepDispatching at h
  split at h
  all_goals cases h
  all_goals simp

theorem shared_stepAttempting (h : s.stepAttempting c conn chunk n i attempt result = some s') :
    s'.shared = s.shared := by
  unfold stepAttempting at h
  obtain ⟨trigger, -, rfl⟩ := Option.map_eq_some_iff.mp h
  dsimp only
  repeat' split
  all_goals simp

theorem shared_stepBackingOff (h : s.stepBackingOff conn chunk n i attempt input = some s') :
    s'.shared = s.shared := by
  unfold stepBackingOff at h
  split at h
  all_goals cases h
  all_goals simp

@[simp] theorem shared_classify (outcome : ConnectionOutcome) :
    (s.classify c outcome).shared = s.shared := by
  unfold classify classifyStatus
  dsimp only
  repeat' split
  all_goals simp

@[simp] theorem shared_stepEnded (outcome : ConnectionOutcome) (short : Bool) :
    (s.stepEnded c outcome short).shared = s.shared := by
  simp [stepEnded]

theorem shared_accept (h : s.accept c item = some s') :
    s.channel.buffer.length < c.capacity ∧ s'.shared = (s.store, s.channel.buffer ++ [item]) := by
  unfold accept at h
  split at h
  · rename_i hroom
    cases h
    exact ⟨of_decide_eq_true (Bool.and_eq_true_iff.mp hroom).2, rfl⟩
  · cases h

/-- What happens at the channel's slot and in the store behind it, by the sequences. -/
inductive SlotEvent where
  /-- The channel accepts a notification. -/
  | sent (sequence : Nat)
  /-- The consumer pulls. -/
  | pulled
  /-- A put takes effect. -/
  | landed (sequence : Nat)
  deriving DecidableEq, Repr

def slotEvent (s : System) (input : Input) : Option SlotEvent :=
  match input, s.stage with
  | .pull, _ => some .pulled
  | .accepted, .sending _ _ n => some (.sent n.sequence)
  | .lands, .putting _ _ _ _ => s.vars.pendingCommit.map fun p => .landed p.sequence
  | _, _ => none

/-- What a step before the exit flush does to the slot and to the store. -/
inductive SlotMove (c : Setup) (s : System) : Option SlotEvent → System → Prop where
  | quiet {next : System} : next.shared = s.shared → SlotMove c s none next
  | reported {next : System} (e : ClientError) : s.channel.buffer.length < c.capacity →
      next.shared = (s.store, s.channel.buffer ++ [.error e]) → SlotMove c s none next
  | sent {next : System} (n : Notification) : s.channel.buffer.length < c.capacity →
      next.shared = (s.store, s.channel.buffer ++ [.ok n]) → SlotMove c s (some (.sent n.sequence)) next
  | pulled {next : System} : s.channel.buffer = item :: buffer → next.shared = (s.store, buffer) →
      SlotMove c s (some .pulled) next
  | landed {next : System} (p : PendingCommit) :
      next.shared = (putMonotonic s.store p.checkpoint, s.channel.buffer) →
      SlotMove c s (some (.landed p.sequence)) next

theorem slotEvent_quiet (hput : ∀ conn chunk n landed, s.stage ≠ .putting conn chunk n landed)
    (hsend : ∀ conn chunk n, s.stage ≠ .sending conn chunk n) (hpull : input ≠ .pull) : s.slotEvent input = none := by
  unfold slotEvent
  split
  · exact absurd rfl hpull
  · exact absurd ‹_› (hsend _ _ _)
  · exact absurd ‹_› (hput _ _ _ _)
  · rfl

theorem stepPutting_move (hstage : s.stage = .putting conn chunk n landed)
    (hp : s.vars.pendingCommit = some prev) (h : s.stepPutting c conn chunk n landed prev input = some s') :
    SlotMove c s (s.slotEvent input) s' := by
  unfold stepPutting at h
  split at h
  · split at h
    · cases h
    · cases h
      have hevent : s.slotEvent .lands = some (.landed prev.sequence) := by simp [slotEvent, hstage, hp]
      rw [hevent]
      exact .landed prev rfl
  · split at h
    · cases h
      exact .quiet (by simp)
    · cases h
  · cases h
    exact .quiet (by simp)
  · cases h

theorem stepSending_move (hstage : s.stage = .sending conn chunk n)
    (h : s.stepSending c conn chunk n input = some s') : SlotMove c s (s.slotEvent input) s' := by
  unfold stepSending at h
  split at h
  · cases h
    exact .quiet (by simp)
  · split at h
    · cases h
      exact .quiet (by simp)
    · cases h
  · obtain ⟨mid, hmid, rfl⟩ := Option.map_eq_some_iff.mp h
    obtain ⟨hroom, hshared⟩ := shared_accept hmid
    have hevent : s.slotEvent .accepted = some (.sent n.sequence) := by simp [slotEvent, hstage]
    rw [hevent]
    exact .sent n hroom (by simpa using hshared)
  · cases h

theorem stepReporting_move (h : s.stepReporting c e next input = some s') : SlotMove c s none s' := by
  unfold stepReporting at h
  split at h
  · cases h
    exact .quiet (by simp)
  · split at h
    · cases h
      exact .quiet (by simp)
    · cases h
  · obtain ⟨mid, hmid, rfl⟩ := Option.map_eq_some_iff.mp h
    obtain ⟨hroom, hshared⟩ := shared_accept hmid
    exact .reported e hroom (by simpa using hshared)
  · cases h

theorem stepStartupExpired_move (h : s.stepStartupExpired c input = some s') : SlotMove c s none s' := by
  unfold stepStartupExpired at h
  split at h
  · obtain ⟨mid, hmid, rfl⟩ := Option.map_eq_some_iff.mp h
    obtain ⟨hroom, hshared⟩ := shared_accept hmid
    exact .reported startupTimedOut hroom (by simpa using hshared)
  · split at h
    · cases h
      exact .quiet (by simp)
    · cases h
  · cases h

theorem stepStage_move (hflush : s.stage.flushes = false) (hpull : input ≠ .pull)
    (h : s.stepStage c input = some s') : SlotMove c s (s.slotEvent input) s' := by
  have hother (hput : ∀ conn chunk n landed, s.stage ≠ .putting conn chunk n landed)
      (hsend : ∀ conn chunk n, s.stage ≠ .sending conn chunk n) (hmove : SlotMove c s none s') :
      SlotMove c s (s.slotEvent input) s' := by
    rw [slotEvent_quiet hput hsend hpull]
    exact hmove
  unfold stepStage at h
  split at h
  all_goals rename_i hstage
  · exact hother (by simp [hstage]) (by simp [hstage]) (.quiet (shared_stepResolving h))
  · split at h
    · cases h
      exact hother (by simp [hstage]) (by simp [hstage]) (.quiet (by simp))
    · cases h
  · exact hother (by simp [hstage]) (by simp [hstage]) (.quiet (shared_stepSleeping h))
  · exact hother (by simp [hstage]) (by simp [hstage]) (.quiet (shared_stepRefreshing h))
  · exact hother (by simp [hstage]) (by simp [hstage]) (.quiet (shared_stepAuthorizing h))
  · exact hother (by simp [hstage]) (by simp [hstage]) (.quiet (shared_stepOpening h))
  · exact hother (by simp [hstage]) (by simp [hstage]) (.quiet (shared_stepReadingBody h))
  · exact hother (by simp [hstage]) (by simp [hstage]) (.quiet (shared_stepReading h))
  · split at h
    · cases h
      exact hother (by simp [hstage]) (by simp [hstage]) (.quiet (by simp))
    · cases h
  · obtain ⟨prev, hprev, h⟩ := Option.bind_eq_some_iff.mp h
    exact stepPutting_move hstage hprev h
  · exact hother (by simp [hstage]) (by simp [hstage]) (.quiet (shared_stepDispatching h))
  · split at h
    · exact hother (by simp [hstage]) (by simp [hstage]) (.quiet (shared_stepAttempting h))
    · cases h
  · exact hother (by simp [hstage]) (by simp [hstage]) (.quiet (shared_stepBackingOff h))
  · exact stepSending_move hstage h
  · split at h
    · cases h
      exact hother (by simp [hstage]) (by simp [hstage]) (.quiet (by simp))
    · cases h
  · exact hother (by simp [hstage]) (by simp [hstage]) (stepReporting_move h)
  · simp [hstage, Stage.flushes] at hflush
  · exact hother (by simp [hstage]) (by simp [hstage]) (stepStartupExpired_move h)
  · cases h

/-- All a step before the exit flush can do to the slot and to the store. -/
theorem step_move (hflush : s.stage.flushes = false) (h : step c s input = some s') :
    SlotMove c s (s.slotEvent input) s' := by
  unfold step at h
  split at h
  · split at h
    · cases h
      exact .quiet rfl
    · cases h
  · split at h
    · cases h
    · rename_i item buffer hbuffer
      cases h
      exact .pulled hbuffer rfl
  · cases h
    exact .quiet rfl
  · exact stepStage_move hflush ‹_› h

/-- The consumer has pulled every notification at the sequence the store holds. -/
def Pulled (s : System) : Prop :=
  ∀ cp n, s.store = some cp → Except.ok n ∈ s.channel.buffer → cp.lastCommittedSequence ≠ n.sequence

/-! ### The schedule of the slot -/

/-- A pull comes after the last send at the sequence. -/
def Collected (sequence : Nat) (before : List SlotEvent) : Prop :=
  ∀ early late, before = early ++ .sent sequence :: late → .pulled ∈ late

def landings (es : List SlotEvent) : List Nat :=
  es.filterMap fun e =>
    match e with
    | .landed sequence => some sequence
    | _ => none

/-- The highest sequence committed before, by the run or in what the store held at its start. -/
def committed (held : Option Nat) (before : List SlotEvent) : Option Nat := (held.toList ++ landings before).max?

/-- Nothing is sent at the highest sequence committed before, and a put above it takes effect only
after a pull that follows the send of what it commits. -/
def InTurn (held : Option Nat) (before : List SlotEvent) : SlotEvent → Prop
  | .sent sequence => committed held before ≠ some sequence
  | .pulled => True
  | .landed sequence => (∀ top ∈ committed held before, top < sequence) → Collected sequence before

/-- The sends, pulls and landings of a run, in order. -/
def schedule (c : Setup) (held : Option Checkpoint) (inputs : List Input) : List SlotEvent :=
  Machine.observe (step c) slotEvent (start held) inputs

theorem collected_snoc (sequence : Nat) (before : List SlotEvent) (e : SlotEvent) :
    Collected sequence (before ++ [e]) ↔ e = .pulled ∨ e ≠ .sent sequence ∧ Collected sequence before := by
  constructor
  · intro h
    by_cases hpulled : e = .pulled
    · exact .inl hpulled
    · refine .inr ⟨?_, ?_⟩
      · intro hsent
        have hnone := h before [] (by rw [hsent])
        cases hnone
      · intro early late heq
        have hmem := h early (late ++ [e]) (by simp [heq])
        rcases List.mem_append.mp hmem with hmem | hmem
        · exact hmem
        · exact absurd (List.mem_singleton.mp hmem).symm hpulled
  · intro h early late heq
    rcases List.eq_nil_or_concat late with rfl | ⟨late, last, rfl⟩
    · obtain ⟨-, hlast⟩ := List.append_inj' heq rfl
      cases hlast
      rcases h with hpulled | ⟨hne, -⟩
      · cases hpulled
      · exact absurd rfl hne
    · rw [List.concat_eq_append, ← List.cons_append, ← List.append_assoc] at heq
      obtain ⟨rfl, hlast⟩ := List.append_inj' heq rfl
      cases hlast
      rcases h with rfl | ⟨-, hcollected⟩
      · simp
      · simpa using Or.inl (hcollected early late rfl)

theorem committed_other {held : Option Nat} {before : List SlotEvent} {e : SlotEvent} (h : landings [e] = []) :
    committed held (before ++ [e]) = committed held before := by
  have hsame : landings (before ++ [e]) = landings before ++ landings [e] := List.filterMap_append
  rw [committed, hsame, h, List.append_nil, committed]

theorem committed_landed (held : Option Nat) (before : List SlotEvent) (sequence : Nat) :
    committed held (before ++ [.landed sequence]) =
      some ((committed held before).elim sequence fun top => max top sequence) := by
  have hsame : landings (before ++ [.landed sequence]) = landings before ++ [sequence] := List.filterMap_append
  rw [committed, hsame, ← List.append_assoc, committed]
  cases held.toList ++ landings before with
  | nil => rfl
  | cons top rest =>
    rw [List.cons_append, List.max?_cons', List.max?_cons', List.foldl_append]
    rfl

theorem putMonotonic_sequence (store : Option Checkpoint) (cp : Checkpoint) :
    (putMonotonic store cp).map (·.lastCommittedSequence) =
      some ((store.map (·.lastCommittedSequence)).elim cp.lastCommittedSequence
        fun top => max top cp.lastCommittedSequence) := by
  cases store with
  | none => rfl
  | some existing =>
    by_cases hle : cp.lastCommittedSequence ≤ existing.lastCommittedSequence
    · simp [putMonotonic, hle]
    · simp [putMonotonic, hle, Nat.max_eq_right (Nat.le_of_not_le hle)]

/-- The slot and the store are as the schedule so far has left them. -/
structure Tracked (held : Option Nat) (s : System) (before : List SlotEvent) : Prop where
  store : s.store.map (·.lastCommittedSequence) = committed held before
  room : s.channel.buffer.length ≤ 1
  slot : ∀ sequence, (∃ n, Except.ok n ∈ s.channel.buffer ∧ n.sequence = sequence) ↔ ¬Collected sequence before

theorem Tracked.start (held : Option Checkpoint) :
    Tracked (held.map (·.lastCommittedSequence)) (start held) [] where
  store := by cases held <;> rfl
  room := Nat.zero_le 1
  slot := by
    intro sequence
    have hcollected : Collected sequence [] := by
      intro early late heq
      simp at heq
    simp [System.start, hcollected]

/-- The store in the schedule's terms. -/
theorem Tracked.pulled_iff {held : Option Nat} {before : List SlotEvent} (h : Tracked held s before) :
    s.Pulled ↔ ∀ top ∈ committed held before, Collected top before := by
  rw [← h.store]
  constructor
  · intro hpulled top htop
    obtain ⟨cp, hcp, rfl⟩ := Option.map_eq_some_iff.mp htop
    by_contra hnot
    obtain ⟨n, hn, heq⟩ := (h.slot cp.lastCommittedSequence).mpr hnot
    exact hpulled cp n hcp hn heq.symm
  · intro hall cp n hcp hn heq
    have htop := hall cp.lastCommittedSequence (by simp [hcp])
    exact (h.slot cp.lastCommittedSequence).mp ⟨n, hn, heq.symm⟩ htop

/-- A channel of one slot has nothing in it when it accepts an item. -/
theorem Tracked.empty {held : Option Nat} {before : List SlotEvent} (h : Tracked held s before)
    (hroom : s.channel.buffer.length < 1) (sequence : Nat) : s.channel.buffer = [] ∧ Collected sequence before := by
  have hnil : s.channel.buffer = [] := List.length_eq_zero_iff.mp (Nat.lt_one_iff.mp hroom)
  refine ⟨hnil, ?_⟩
  by_contra hnot
  obtain ⟨n, hn, -⟩ := (h.slot sequence).mpr hnot
  rw [hnil] at hn
  cases hn

theorem Tracked.step {held : Option Nat} {before : List SlotEvent} {e : Option SlotEvent}
    (h : Tracked held s before) (hone : c.capacity = 1) (hmove : SlotMove c s e s') :
    Tracked held s' (before ++ e.toList) := by
  have hparts {store : Option Checkpoint} {buffer : List (Except ClientError Notification)}
      (hshared : s'.shared = (store, buffer)) : s'.store = store ∧ s'.channel.buffer = buffer :=
    ⟨congrArg Prod.fst hshared, congrArg Prod.snd hshared⟩
  cases hmove with
  | quiet hshared =>
    obtain ⟨hstore, hbuffer⟩ := hparts hshared
    rw [Option.toList_none, List.append_nil]
    exact ⟨hstore ▸ h.store, hbuffer ▸ h.room, hbuffer ▸ h.slot⟩
  | reported error hroom hshared =>
    obtain ⟨hstore, hbuffer⟩ := hparts hshared
    rw [hone] at hroom
    rw [Option.toList_none, List.append_nil]
    refine ⟨hstore ▸ h.store, ?_, ?_⟩
    · rw [hbuffer, (h.empty hroom 0).1]
      exact Nat.le_refl 1
    · intro sequence
      obtain ⟨hnil, hcollected⟩ := h.empty hroom sequence
      simp [hbuffer, hnil, hcollected]
  | sent n hroom hshared =>
    obtain ⟨hstore, hbuffer⟩ := hparts hshared
    rw [hone] at hroom
    refine ⟨?_, ?_, ?_⟩
    · rw [hstore, h.store, Option.toList_some, committed_other rfl]
    · rw [hbuffer, (h.empty hroom 0).1]
      exact Nat.le_refl 1
    · intro sequence
      obtain ⟨hnil, hcollected⟩ := h.empty hroom sequence
      rw [Option.toList_some, collected_snoc]
      simp [hbuffer, hnil, hcollected]
  | pulled hitem hshared =>
    obtain ⟨hstore, hbuffer⟩ := hparts hshared
    have hroom := h.room
    rw [hitem, List.length_cons] at hroom
    have hnil := List.length_eq_zero_iff.mp (Nat.le_zero.mp (Nat.le_of_succ_le_succ hroom))
    refine ⟨?_, ?_, ?_⟩
    · rw [hstore, h.store, Option.toList_some, committed_other rfl]
    · rw [hbuffer, hnil]
      exact Nat.zero_le 1
    · intro sequence
      rw [Option.toList_some, collected_snoc]
      simp [hbuffer, hnil]
  | landed p hshared =>
    obtain ⟨hstore, hbuffer⟩ := hparts hshared
    refine ⟨?_, hbuffer ▸ h.room, ?_⟩
    · rw [hstore, Option.toList_some, committed_landed, putMonotonic_sequence, h.store]
      rfl
    · intro sequence
      rw [hbuffer, Option.toList_some, collected_snoc, h.slot sequence]
      simp

/-- A step keeps the store off the slot exactly when what it does there is in turn. -/
theorem Tracked.pulled_step {held : Option Nat} {before : List SlotEvent} {e : Option SlotEvent}
    (h : Tracked held s before) (hone : c.capacity = 1) (hmove : SlotMove c s e s') (hpulled : s.Pulled) :
    s'.Pulled ↔ ∀ event ∈ e, InTurn held before event := by
  have hbefore := h.pulled_iff.mp hpulled
  rw [(h.step hone hmove).pulled_iff]
  cases hmove with
  | quiet | reported => simpa using hbefore
  | sent n hroom =>
    rw [hone] at hroom
    have hcollected (sequence : Nat) := (h.empty hroom sequence).2
    rw [Option.toList_some, committed_other rfl]
    simp only [collected_snoc, Option.mem_def, Option.some.injEq, forall_eq', InTurn]
    constructor
    · intro hall htop
      simpa using hall n.sequence htop
    · intro hne top htop
      refine .inr ⟨?_, hcollected top⟩
      intro heq
      cases heq
      exact hne htop
  | pulled => simp [collected_snoc, InTurn]
  | landed p =>
    rw [Option.toList_some, committed_landed]
    simp only [collected_snoc, Option.mem_def, Option.some.injEq, forall_eq', InTurn]
    cases hcommitted : committed held before with
    | none => simp
    | some top =>
      have htop := hbefore top hcommitted
      rcases Nat.lt_or_ge top p.sequence with hlt | hge
      · simp [Nat.max_eq_right (Nat.le_of_lt hlt), hlt]
      · simp [Nat.max_eq_left hge, htop, Nat.not_lt.mpr hge]

/-- With a store the channel has one slot. In every run up to the exit flush, the store stays off
the notifications in the channel exactly when the schedule puts every landing and every send in
turn. -/
theorem slot_law (c : Setup) (hstore : c.hasStore = true) (held : Option Checkpoint) (inputs : List Input)
    (s : System) (hrun : Machine.run (step c) (start held) inputs = some s)
    (hflush : Machine.Each (step c) (fun s _ => s.stage.flushes = false) (start held) inputs) :
    Machine.Throughout (step c) Pulled (start held) inputs ↔
      Lib.Always (InTurn (held.map (·.lastCommittedSequence))) (schedule c held inputs) := by
  have hone : c.capacity = 1 := if_pos hstore
  refine Machine.throughout_iff_always (I := Tracked (held.map (·.lastCommittedSequence))) ?_ hflush hrun
    (.start held) ?_ .nil
  · intro s input s' before htracked hflush h
    have hmove := step_move hflush h
    exact ⟨htracked.step hone hmove, htracked.pulled_step hone hmove⟩
  · intro cp n _ hn
    cases hn

theorem slot_law_two_sent : ∃ s,
    Machine.run (step sampleSetup) (start none) sampleInputs = some s ∧
      (Machine.Throughout (step sampleSetup) Pulled (start none) sampleInputs ↔
        Lib.Always (InTurn none) (schedule sampleSetup none sampleInputs)) := by
  obtain ⟨s, hs, -⟩ := sample_run
  exact ⟨s, hs, slot_law sampleSetup rfl none sampleInputs s hs (by decide +kernel)⟩

/-- The first of two notifications is put while it is still in the channel. -/
theorem slot_law_unpulled : ∃ s cp n,
    Machine.run (step sampleSetup) (start none) (sampleInputs.take 10) = some s ∧
      Machine.Each (step sampleSetup) (fun s _ => s.stage.flushes = false) (start none)
        (sampleInputs.take 10) ∧
      s.store = some cp ∧ Except.ok n ∈ s.channel.buffer ∧ cp.lastCommittedSequence = n.sequence := by
  have hrun : (Machine.run (step sampleSetup) (start none) (sampleInputs.take 10)).map
      (fun s => (s.store.map (·.lastCommittedSequence),
        s.channel.buffer.map fun item => item.toOption.map (·.sequence))) = some (some 1, [some 1]) := by
    decide +kernel
  obtain ⟨s, hs, heq⟩ := Option.map_eq_some_iff.mp hrun
  simp only [Prod.mk.injEq, Option.map_eq_some_iff, List.map_eq_singleton_iff] at heq
  obtain ⟨⟨cp, hcp, hone⟩, item, hbuffer, n, hitem, hn⟩ := heq
  refine ⟨s, cp, n, hs, by decide +kernel, hcp, ?_, hone.trans hn.symm⟩
  cases item with
  | error e => cases hitem
  | ok n' =>
    cases hitem
    rw [hbuffer]
    exact List.mem_cons_self

end System
end Aviso.Watch
