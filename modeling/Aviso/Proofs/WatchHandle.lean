import Aviso.Ffi.Watch
import Aviso.Lib.Cells
import Aviso.Lib.History
import Mathlib.Data.List.Induction
import Mathlib.Data.List.TakeWhile

namespace Aviso.Ffi

variable {σ ι κ φ ρ : Type}

/-- Where a watch is, as its marks tell it. -/
inductive Phase (κ : Type) where
  | idle
  | busy (call : κ)
  | ending
  | closed

def Phase.next (p : Phase κ) : Mark κ → Phase κ
  | .started call => .busy call
  | .returned _ _ => .idle
  | .endStarted _ => .ending
  | .endReturned => .closed
  | _ => p

def phaseOf (trace : List (Mark κ)) : Phase κ := trace.foldl Phase.next .idle

theorem phaseOf_snoc (trace : List (Mark κ)) (m : Mark κ) : phaseOf (trace ++ [m]) = (phaseOf trace).next m := by
  simp [phaseOf]

/-- When a mark may come: callbacks run one at a time, `on_end` after all of them, and a wait
succeeds after `on_end`, or after another wait has told of a panic. -/
def Allowed (before : List (Mark κ)) : Mark κ → Prop
  | .started _ | .endStarted _ => phaseOf before = .idle
  | .returned call _ => phaseOf before = .busy call
  | .endReturned => phaseOf before = .ending
  | .stopRequested => True
  | .waited result => result = .success → phaseOf before = .closed ∨ .waited .panicked ∈ before

def Mark.isStart : Mark κ → Bool
  | .started _ => true
  | _ => false

def Mark.isEnd : Mark κ → Bool
  | .endStarted _ => true
  | _ => false

def Mark.isStop : Mark κ → Bool
  | .stopRequested => true
  | _ => false

/-- The callbacks that start after the first stop. -/
def lateCalls (trace : List (Mark κ)) : Nat := Lib.later Mark.isStop Mark.isStart trace

theorem isStop_of_not_mem {trace : List (Mark κ)} (h : .stopRequested ∉ trace) : ∀ m ∈ trace, m.isStop = false := by
  intro m hm
  cases m with
  | stopRequested => exact absurd hm h
  | _ => rfl

theorem lateCalls_none {trace : List (Mark κ)} (h : .stopRequested ∉ trace) : lateCalls trace = 0 := by
  have hnil := Lib.later_append_of_none (q := Mark.isStart) (t := []) (isStop_of_not_mem h)
  rwa [List.append_nil] at hnil

theorem lateCalls_snoc {trace : List (Mark κ)} (m : Mark κ) (h : .stopRequested ∈ trace) :
    lateCalls (trace ++ [m]) = lateCalls trace + if m.isStart then 1 else 0 := by
  rw [lateCalls, Lib.later_append_of_mem h rfl, List.countP_singleton, lateCalls]

namespace Phase

/-- How often `on_end` was called on the way to a phase. -/
def ends : Phase κ → Nat
  | .ending | .closed => 1
  | _ => 0

end Phase

section Allowed

variable {trace : List (Mark κ)}

theorem countP_isEnd (h : Lib.Always Allowed trace) : trace.countP Mark.isEnd = (phaseOf trace).ends := by
  induction trace using List.reverseRecOn with
  | nil => rfl
  | append_singleton trace m ih =>
    obtain ⟨hbefore, hm⟩ := Lib.Always.snoc_iff.mp h
    rw [List.countP_append, List.countP_singleton, ih hbefore, phaseOf_snoc]
    cases m with
    | started call => simp [Mark.isEnd, show phaseOf trace = _ from hm, Phase.ends, Phase.next]
    | returned call r => simp [Mark.isEnd, show phaseOf trace = _ from hm, Phase.ends, Phase.next]
    | stopRequested => simp [Mark.isEnd, Phase.next]
    | endStarted outcome => simp [Mark.isEnd, show phaseOf trace = _ from hm, Phase.ends, Phase.next]
    | endReturned => simp [Mark.isEnd, show phaseOf trace = _ from hm, Phase.ends, Phase.next]
    | waited result => simp [Mark.isEnd, Phase.next]

/-- No callback starts once `on_end` was called. -/
theorem quiet (h : Lib.Always Allowed trace) {outcome : AvisoOutcome}
    (hsplit : trace = before ++ .endStarted outcome :: after) : ∀ m ∈ after, m.isStart = false := by
  intro m hm
  obtain ⟨mid, rest, rfl⟩ := List.append_of_mem hm
  cases m with
  | started call =>
    have hidle : phaseOf (before ++ .endStarted outcome :: mid) = .idle :=
      h (before ++ .endStarted outcome :: mid) (.started call) rest (by simp [hsplit])
    have hpre : Lib.Always Allowed (before ++ .endStarted outcome :: mid) :=
      Lib.Always.of_append (t := .started call :: rest) (by rw [hsplit] at h; simpa using h)
    have hcount := countP_isEnd hpre
    rw [hidle] at hcount
    simp [Mark.isEnd, Phase.ends] at hcount
  | _ => rfl

end Allowed

namespace Stage

/-- The phase a stage of the task belongs to. -/
def phase : Stage σ κ φ ρ → Phase κ
  | .calling _ call => .busy call
  | .inEnd _ => .ending
  | .finished => .closed
  | _ => .idle

/-- The loop is behind. -/
def past : Stage σ κ φ ρ → Bool
  | .closing _ | .ending _ | .inEnd _ | .finished | .panicked => true
  | _ => false

/-- The task may start a callback before it looks at the flag again. -/
def armed : Stage σ κ φ ρ → Bool
  | .selecting _ | .receiving _ => true
  | _ => false

/-- The task has ended. -/
def ended : Stage σ κ φ ρ → Bool
  | .finished | .panicked => true
  | _ => false

/-- How many steps a task takes at most that sees a stop. -/
def rank : Stage σ κ φ ρ → Nat
  | .receiving _ => 6
  | .opening | .calling _ _ => 5
  | .checking _ | .selecting _ => 4
  | .closing _ => 3
  | .ending _ => 2
  | .inEnd _ => 1
  | .finished | .panicked => 0

/-- What takes the task on: its own step, the answer of C, or the core that opens or closes the
watch. The next item is not among it. -/
def answers : Stage σ κ φ ρ → WatchEvent σ → Bool
  | .opening, .opened _ | .calling _ _, .replied _ | .closing _, .closed | .inEnd _, .endReturned => true
  | .checking _, .advance | .selecting _, .advance | .receiving _, .advance | .ending _, .advance => true
  | _, _ => false

end Stage

namespace WatchEvent

/-- The event is a step of the task. -/
def isTask : WatchEvent σ → Bool
  | .opened _ | .advance | .replied _ | .closed | .endReturned | .fault => true
  | _ => false

end WatchEvent

namespace Waiter

/-- A wait that has not returned. -/
def pending : Waiter → Bool
  | .returned _ => false
  | _ => true

/-- How many steps a wait still takes. -/
def load : Waiter → Nat
  | .locking => 2
  | .joining => 1
  | .returned _ => 0

end Waiter

namespace AvisoWatch

variable {t : Task σ ι κ φ ρ} {w w' : AvisoWatch σ κ φ ρ}

/-- What a step of the task does, under the flag and the permit it finds: from where it goes to
where, and the mark it leaves. -/
inductive TaskMove (t : Task σ ι κ φ ρ) (flag permit : Bool) :
    Stage σ κ φ ρ → Stage σ κ φ ρ → Option (Mark κ) → Prop where
  | opened (stream : σ) : TaskMove t flag permit .opening (.checking ⟨stream, t.fresh⟩) none
  | refused (outcome : AvisoOutcome) : TaskMove t flag permit .opening (.ending outcome) none
  | stops (hflag : flag = true) : TaskMove t flag permit (.checking l) (.closing t.graceful) none
  | goesOn (hflag : flag = false) : TaskMove t flag permit (.checking l) (.selecting l) none
  | wakes (hpermit : permit = true) : TaskMove t flag permit (.selecting l) (.closing t.graceful) none
  | listens (hpermit : permit = false) : TaskMove t flag permit (.selecting l) (.receiving l) none
  | parks (hpoll : t.poll l.stream = (.pending, stream)) :
      TaskMove t flag permit (.receiving l) (.selecting { l with stream := stream }) none
  | calls (hpoll : t.poll l.stream = (.ready item, stream)) (hitem : t.onItem l.kept item = .ok call) :
      TaskMove t flag permit (.receiving l) (.calling { l with stream := stream } call) (some (.started call))
  | leaves (hpoll : t.poll l.stream = (.ready item, stream)) (hitem : t.onItem l.kept item = .error reason) :
      TaskMove t flag permit (.receiving l) (.closing reason) none
  | replied (r : Reply) (hreply : t.onReply l.kept call r = .ok kept) :
      TaskMove t flag permit (.calling l call) (.checking { l with kept := kept }) (some (.returned call r))
  | declined (r : Reply) (hreply : t.onReply l.kept call r = .error reason) :
      TaskMove t flag permit (.calling l call) (.closing reason) (some (.returned call r))
  | closed : TaskMove t flag permit (.closing reason) (.ending (t.outcome reason)) none
  | ends : TaskMove t flag permit (.ending outcome) (.inEnd outcome) (some (.endStarted outcome))
  | finishes : TaskMove t flag permit (.inEnd outcome) .finished (some .endReturned)
  | openingFaults : TaskMove t flag permit .opening .panicked none
  | receivingFaults : TaskMove t flag permit (.receiving l) .panicked none
  | closingFaults : TaskMove t flag permit (.closing reason) .panicked none

/-- What a step of a thread at the handle does; the task is not moved. -/
inductive HandleMove (w : AvisoWatch σ κ φ ρ) : AvisoWatch σ κ φ ρ → Prop where
  | raised : HandleMove w
      { w with flag := true, notifying := w.notifying + 1, trace := w.trace ++ [.stopRequested] }
  | notified (h : 0 < w.notifying) : HandleMove w { w with notifying := w.notifying - 1, permit := true }
  | refused : HandleMove w
      { w with waiters := w.waiters ++ [.returned .invalidUsage], trace := w.trace ++ [.waited .invalidUsage] }
  | waits : HandleMove w { w with waiters := w.waiters ++ [.locking] }
  | locks (h : w.waiters[i]? = some .locking) (hfree : .joining ∉ w.waiters) :
      HandleMove w { w with waiters := w.waiters.set i .joining }
  | poisoned (h : w.waiters[i]? = some .locking) : HandleMove w (w.release i .poisoned)
  | again (h : w.waiters[i]? = some .locking) (hjoined : w.joined = true) : HandleMove w (w.release i .success)
  | joins (h : w.waiters[i]? = some .joining) (hstage : w.stage = .finished) :
      HandleMove w { w.release i .success with joined := true }
  | fails (h : w.waiters[i]? = some .joining) (hstage : w.stage = .panicked) :
      HandleMove w { w.release i .panicked with joined := true }
  | unwinds (h : w.waiters[i]? = some .joining) : HandleMove w { w.release i .panicked with poisoned := true }
  | frees : HandleMove w
      { w with freed := true, flag := true, notifying := 1, trace := w.trace ++ [.stopRequested] }

/-- A step of the task, with the state it leads to. -/
def taskStep (w : AvisoWatch σ κ φ ρ) (stage : Stage σ κ φ ρ) (m : Option (Mark κ)) (permit : Bool) :
    AvisoWatch σ κ φ ρ :=
  { w with stage := stage, trace := w.trace ++ m.toList, permit := permit }

/-- The task took a step; a permit it used up ended the loop. -/
def Moved (t : Task σ ι κ φ ρ) (w w' : AvisoWatch σ κ φ ρ) : Prop :=
  ∃ stage m permit, TaskMove t w.flag w.permit w.stage stage m ∧ (permit = w.permit ∨ permit = false ∧ stage.past = true) ∧
    w' = w.taskStep stage m permit

theorem Moved.of {source stage : Stage σ κ φ ρ} {m : Option (Mark κ)} (hsource : w.stage = source)
    (h : TaskMove t w.flag w.permit source stage m) : Moved t w (w.taskStep stage m w.permit) :=
  ⟨stage, m, w.permit, hsource ▸ h, .inl rfl, rfl⟩

theorem taskStep_none (w : AvisoWatch σ κ φ ρ) (stage : Stage σ κ φ ρ) :
    w.taskStep stage none w.permit = w.goto stage := by
  simp [taskStep, goto]

theorem Moved.quiet {source stage : Stage σ κ φ ρ} (hsource : w.stage = source)
    (h : TaskMove t w.flag w.permit source stage none) : Moved t w (w.goto stage) :=
  taskStep_none w stage ▸ Moved.of hsource h

theorem Moved.marked {source stage : Stage σ κ φ ρ} {m : Mark κ} (hsource : w.stage = source)
    (h : TaskMove t w.flag w.permit source stage (some m)) : Moved t w ((w.mark m).goto stage) :=
  Moved.of hsource h

theorem receive_moved {l : Loop σ φ} (hstage : w.stage = .receiving l)
    (hpoll : t.poll l.stream = (.ready item, stream)) :
    Moved t w (w.receive t { l with stream := stream } item) := by
  unfold receive
  cases hitem : t.onItem l.kept item with
  | error reason => exact .quiet hstage (.leaves hpoll hitem)
  | ok call => exact .marked hstage (.calls hpoll hitem)

theorem advance_moved (h : w.advance t = some w') : Moved t w w' := by
  unfold advance at h
  cases hstage : w.stage with
  | checking l =>
    simp only [hstage, Option.some.injEq] at h
    subst h
    split
    · exact .quiet hstage (.stops ‹_›)
    · exact .quiet hstage (.goesOn (Bool.eq_false_iff.mpr ‹_›))
  | selecting l =>
    simp only [hstage, Option.some.injEq] at h
    subst h
    split
    · exact ⟨.closing t.graceful, none, false, hstage ▸ .wakes ‹_›, .inr ⟨rfl, rfl⟩, by simp [taskStep]⟩
    · exact .quiet hstage (.listens (Bool.eq_false_iff.mpr ‹_›))
  | receiving l =>
    simp only [hstage] at h
    split at h
    · cases h
      exact .quiet hstage (.parks ‹_›)
    · cases h
      exact receive_moved hstage ‹_›
  | ending outcome =>
    simp only [hstage, Option.some.injEq] at h
    subst h
    exact .marked hstage .ends
  | _ => simp [hstage] at h

theorem reply_moved {r : Reply} (h : w.reply t r = some w') : Moved t w w' := by
  unfold reply at h
  cases hstage : w.stage with
  | calling l call =>
    simp only [hstage] at h
    cases hreply : t.onReply l.kept call r with
    | error reason =>
      simp only [hreply, Option.some.injEq] at h
      subst h
      exact .marked hstage (.declined r hreply)
    | ok kept =>
      simp only [hreply, Option.some.injEq] at h
      subst h
      exact .marked hstage (.replied r hreply)
  | _ => simp [hstage] at h

theorem lock_cases (h : w.lock i = some w') : HandleMove w w' := by
  unfold lock at h
  split at h
  · rename_i hcan
    split at h
    · cases h
      exact .poisoned hcan.1
    · split at h
      · cases h
        exact .again hcan.1 ‹_›
      · cases h
        exact .locks hcan.1 hcan.2
  · cases h

theorem join_cases (h : w.join i = some w') : HandleMove w w' := by
  unfold join at h
  split at h
  · rename_i hjoining
    cases hstage : w.stage with
    | finished =>
      simp only [hstage, Option.some.injEq] at h
      subst h
      exact .joins hjoining hstage
    | panicked =>
      simp only [hstage, Option.some.injEq] at h
      subst h
      exact .fails hjoining hstage
    | _ => simp [hstage] at h
  · cases h

/-- All a step can do: one step of the task, or one of a thread at the handle. -/
theorem step_cases (h : step t w event = some w') :
    event.isTask = true ∧ Moved t w w' ∨ event.isTask = false ∧ HandleMove w w' := by
  cases event with
  | opened result =>
    simp only [step] at h
    split at h
    · cases h
      exact .inl ⟨rfl, .quiet ‹_› (.opened _)⟩
    · cases h
      exact .inl ⟨rfl, .quiet ‹_› (.refused _)⟩
    · cases h
  | advance => exact .inl ⟨rfl, advance_moved h⟩
  | replied r => exact .inl ⟨rfl, reply_moved h⟩
  | closed =>
    simp only [step] at h
    split at h
    · cases h
      exact .inl ⟨rfl, .quiet ‹_› .closed⟩
    · cases h
  | endReturned =>
    simp only [step] at h
    split at h
    · cases h
      exact .inl ⟨rfl, .marked ‹_› .finishes⟩
    · cases h
  | fault =>
    simp only [step] at h
    split at h
    · cases h
      exact .inl ⟨rfl, .quiet ‹_› .openingFaults⟩
    · cases h
      exact .inl ⟨rfl, .quiet ‹_› .receivingFaults⟩
    · cases h
      exact .inl ⟨rfl, .quiet ‹_› .closingFaults⟩
    · cases h
  | raise =>
    simp only [step] at h
    split at h
    · cases h
    · cases h
      exact .inr ⟨rfl, .raised⟩
  | notify =>
    simp only [step] at h
    split at h
    · cases h
    · cases h
      exact .inr ⟨rfl, .notified (by omega)⟩
  | wait onRuntime =>
    simp only [step] at h
    split at h
    · cases h
    · split at h
      · cases h
        exact .inr ⟨rfl, .refused⟩
      · cases h
        exact .inr ⟨rfl, .waits⟩
  | lock i => exact .inr ⟨rfl, lock_cases h⟩
  | join i => exact .inr ⟨rfl, join_cases h⟩
  | unwind i =>
    simp only [step] at h
    split at h
    · cases h
      exact .inr ⟨rfl, .unwinds ‹_›⟩
    · cases h
  | free =>
    simp only [step] at h
    split at h
    · cases h
      exact .inr ⟨rfl, .frees⟩
    · cases h

namespace TaskMove

variable {flag permit : Bool} {source stage : Stage σ κ φ ρ}

/-- The mark of a step takes the phase along. -/
theorem phase (h : TaskMove t flag permit source stage m) : m.elim source.phase source.phase.next = stage.phase := by
  cases h <;> rfl

theorem allowed {trace : List (Mark κ)} (h : TaskMove t flag permit source stage (some m))
    (hphase : phaseOf trace = source.phase) : Allowed trace m := by
  cases h <;> exact hphase

/-- A task that is over takes no step. -/
theorem not_over (h : TaskMove t flag permit source stage m) : source ≠ .finished ∧ source ≠ .panicked := by
  cases h <;> simp

/-- Under a stop that was heard every step brings the end nearer. -/
theorem rank (h : TaskMove t flag permit source stage m) (hflag : flag = true)
    (hheard : permit = true ∨ source.past = true) : stage.rank < source.rank := by
  cases h with
  | goesOn hdown => rw [hdown] at hflag; cases hflag
  | listens hnone =>
    rcases hheard with hpermit | hpast
    · rw [hnone] at hpermit; cases hpermit
    · cases hpast
  | _ => simp [Stage.rank]

theorem past (h : TaskMove t flag permit source stage m) (hpast : source.past = true) : stage.past = true := by
  cases h <;> first | rfl | cases hpast

/-- A step to where a callback may start comes from such a place, or found no stop. -/
theorem armed (h : TaskMove t flag permit source stage m) (harmed : stage.armed = true) :
    source.armed = true ∨ flag = false := by
  cases h with
  | goesOn hflag => exact .inr hflag
  | listens hpermit => exact .inl rfl
  | parks hpoll => exact .inl rfl
  | _ => cases harmed

theorem ne_stop (h : TaskMove t flag permit source stage (some m)) : .stopRequested ≠ m := by
  cases h <;> simp

/-- A callback starts only from where it may, and the task is then not there. -/
theorem starts (h : TaskMove t flag permit source stage (some m)) (hstart : m.isStart = true) :
    source.armed = true ∧ stage.armed = false := by
  cases h with
  | calls hpoll hitem => exact ⟨rfl, rfl⟩
  | _ => cases hstart

theorem calling (h : TaskMove t flag permit source stage (some m)) (hstart : m.isStart = true) :
    ∃ l call, stage = .calling l call := by
  cases h with
  | calls hpoll hitem => exact ⟨_, _, rfl⟩
  | _ => cases hstart

theorem inEnd {outcome : AvisoOutcome} (h : TaskMove t flag permit source stage (some (.endStarted outcome))) :
    stage = .inEnd outcome := by
  cases h
  rfl

end TaskMove

/-- What holds of a watch at any time: its marks are in order and tell where the task is, a stop
that was written is in the flag, and one whose notification went out will be seen. -/
structure Sound (w : AvisoWatch σ κ φ ρ) : Prop where
  allowed : Lib.Always Allowed w.trace
  phase : phaseOf w.trace = w.stage.phase
  stopped : .stopRequested ∈ w.trace ↔ w.flag = true
  sent : w.permit = true ∨ 0 < w.notifying → w.flag = true
  late : lateCalls w.trace = 0 ∨ lateCalls w.trace = 1 ∧ w.stage.armed = false
  heard : w.flag = true → w.notifying = 0 → w.permit = true ∨ w.stage.past = true
  joined : w.joined = true → w.stage = .finished ∨ w.stage = .panicked ∧ .waited .panicked ∈ w.trace
  single : w.waiters.count .joining ≤ 1

theorem Sound.spawn (built : Except AvisoOutcome Unit) : (spawn built : AvisoWatch σ κ φ ρ).Sound where
  allowed := .nil
  phase := by cases built <;> rfl
  stopped := by simp [AvisoWatch.spawn]
  sent := by simp [AvisoWatch.spawn]
  late := .inl rfl
  heard := by simp [AvisoWatch.spawn]
  joined := by simp [AvisoWatch.spawn]
  single := by simp [AvisoWatch.spawn]

/-- Where a callback may start `on_end` was not called. -/
theorem Sound.no_end (hs : w.Sound) (harmed : w.stage.armed = true) (outcome : AvisoOutcome) :
    .endStarted outcome ∉ w.trace := by
  intro hmem
  have hcount := countP_isEnd hs.allowed
  have hidle : w.stage.phase = .idle := by
    cases hstage : w.stage <;> rw [hstage] at harmed <;> first | rfl | cases harmed
  rw [hs.phase, hidle] at hcount
  have hpos := List.countP_pos_iff.mpr ⟨_, hmem, (rfl : Mark.isEnd (.endStarted outcome) = true)⟩
  rw [hcount] at hpos
  cases hpos

/-- Only a start from where one may be made adds to the callbacks after a stop. -/
theorem Sound.late_taskStep {stage : Stage σ κ φ ρ} {m : Option (Mark κ)} {permit : Bool} (hs : w.Sound)
    (h : TaskMove t w.flag w.permit w.stage stage m) :
    lateCalls (w.taskStep stage m permit).trace = 0 ∨
      lateCalls (w.taskStep stage m permit).trace = 1 ∧ stage.armed = false := by
  have hkeep : lateCalls w.trace = 0 ∨ lateCalls w.trace = 1 ∧ stage.armed = false := by
    rcases hs.late with hzero | ⟨hone, hsource⟩
    · exact .inl hzero
    · refine .inr ⟨hone, ?_⟩
      by_contra harmed
      rcases h.armed (Bool.not_eq_false _ ▸ harmed) with hsource' | hflag
      · rw [hsource] at hsource'
        cases hsource'
      · have hnone : .stopRequested ∉ w.trace := by rw [hs.stopped, hflag]; exact Bool.false_ne_true
        rw [lateCalls_none hnone] at hone
        cases hone
  cases m with
  | none => simpa [AvisoWatch.taskStep] using hkeep
  | some m =>
    have htrace : (w.taskStep stage (some m) permit).trace = w.trace ++ [m] := rfl
    rw [htrace]
    by_cases hstop : .stopRequested ∈ w.trace
    · rw [lateCalls_snoc m hstop]
      cases hstart : m.isStart with
      | false => simpa using hkeep
      | true =>
        obtain ⟨hsource, hstage⟩ := h.starts hstart
        rcases hs.late with hzero | ⟨-, hunarmed⟩
        · exact .inr ⟨by rw [hzero]; rfl, hstage⟩
        · rw [hsource] at hunarmed
          cases hunarmed
    · refine .inl (lateCalls_none ?_)
      simp only [List.mem_append, List.mem_singleton, not_or]
      exact ⟨hstop, h.ne_stop⟩

theorem Sound.taskStep {stage : Stage σ κ φ ρ} {m : Option (Mark κ)} {permit : Bool} (hs : w.Sound)
    (h : TaskMove t w.flag w.permit w.stage stage m) (hpermit : permit = w.permit ∨ permit = false ∧ stage.past = true) :
    (w.taskStep stage m permit).Sound where
  allowed := by
    cases m with
    | none => simpa [AvisoWatch.taskStep] using hs.allowed
    | some m => exact hs.allowed.snoc (h.allowed hs.phase)
  phase := by
    have hphase := h.phase
    cases m with
    | none => simpa [AvisoWatch.taskStep, hs.phase] using hphase
    | some m => simpa [AvisoWatch.taskStep, phaseOf_snoc, hs.phase] using hphase
  stopped := by
    cases m with
    | none => simpa [AvisoWatch.taskStep] using hs.stopped
    | some m => simp [AvisoWatch.taskStep, hs.stopped, h.ne_stop]
  sent := by
    rintro (hsent | hsent)
    · rcases hpermit with rfl | ⟨rfl, -⟩
      · exact hs.sent (.inl hsent)
      · cases hsent
    · exact hs.sent (.inr hsent)
  late := hs.late_taskStep h
  heard := by
    intro hflag hquiet
    rcases hpermit with hsame | ⟨-, hpast⟩
    · rcases hs.heard hflag hquiet with hheard | hpast
      · exact .inl (hsame.trans hheard)
      · exact .inr (h.past hpast)
    · exact .inr hpast
  joined := by
    intro hjoined
    rcases hs.joined hjoined with hover | ⟨hover, -⟩
    · exact absurd hover h.not_over.1
    · exact absurd hover h.not_over.2
  single := hs.single

theorem lateCalls_other {trace : List (Mark κ)} {m : Mark κ} (hm : m.isStart = false) :
    lateCalls (trace ++ [m]) = lateCalls trace := by
  by_cases hstop : .stopRequested ∈ trace
  · rw [lateCalls_snoc m hstop, hm]
    rfl
  · rw [lateCalls_none hstop, lateCalls, Lib.later_append_of_none (isStop_of_not_mem hstop), Lib.later]
    cases m with
    | started call => cases hm
    | _ => rfl

theorem Sound.joined_snoc (hs : w.Sound) (m : Mark κ) (hjoined : w.joined = true) :
    w.stage = .finished ∨ w.stage = .panicked ∧ .waited .panicked ∈ w.trace ++ [m] := by
  rcases hs.joined hjoined with hover | ⟨hover, hwaited⟩
  · exact .inl hover
  · exact .inr ⟨hover, List.mem_append_left _ hwaited⟩

/-- A stop is written, whatever else the step does. -/
theorem Sound.stop (hs : w.Sound) {n : Nat} {freed : Bool} (hn : n ≠ 0) :
    AvisoWatch.Sound { w with freed := freed, flag := true, notifying := n, trace := w.trace ++ [.stopRequested] } where
  allowed := hs.allowed.snoc trivial
  phase := (phaseOf_snoc w.trace .stopRequested).trans hs.phase
  stopped := by simp
  sent := fun _ => rfl
  late := by
    rw [lateCalls_other rfl]
    exact hs.late
  heard := fun _ hzero => absurd hzero hn
  joined := hs.joined_snoc _
  single := hs.single

/-- A wait returns, with what it may say now. -/
theorem Sound.waited (hs : w.Sound) {result : WaitResult} {waiters : List Waiter} {joined poisoned : Bool}
    (hresult : result = .success → phaseOf w.trace = .closed ∨ .waited .panicked ∈ w.trace)
    (hjoined : joined = true → w.stage = .finished ∨ w.stage = .panicked ∧
      .waited .panicked ∈ w.trace ++ [.waited result])
    (hwaiters : waiters.count .joining ≤ 1) :
    AvisoWatch.Sound { w with
      waiters := waiters, joined := joined, poisoned := poisoned, trace := w.trace ++ [.waited result] } where
  allowed := hs.allowed.snoc hresult
  phase := (phaseOf_snoc w.trace (.waited result)).trans hs.phase
  stopped := by simpa using hs.stopped
  sent := hs.sent
  late := by
    rw [lateCalls_other rfl]
    exact hs.late
  heard := hs.heard
  joined := hjoined
  single := hwaiters

theorem count_release (waiters : List Waiter) (i : Nat) (result : WaitResult) :
    (waiters.set i (.returned result)).count .joining ≤ waiters.count .joining := by
  by_cases hi : i < waiters.length
  · rw [List.count_set hi]
    have hother : (Waiter.returned result == Waiter.joining) = false := rfl
    rw [hother]
    simp
  · rw [List.set_eq_of_length_le (Nat.le_of_not_lt hi)]

theorem count_join {waiters : List Waiter} (h : waiters[i]? = some .locking) (hfree : .joining ∉ waiters) :
    (waiters.set i .joining).count .joining ≤ 1 := by
  obtain ⟨hi, -⟩ := List.getElem?_eq_some_iff.mp h
  rw [List.count_set hi, List.count_eq_zero.mpr hfree]
  split <;> simp

theorem count_arrives (waiters : List Waiter) {waiter : Waiter} (h : waiter ≠ .joining) :
    (waiters ++ [waiter]).count .joining = waiters.count .joining := by
  have hnone : [waiter].count .joining = 0 := List.count_eq_zero.mpr (by simpa using h.symm)
  rw [List.count_append, hnone, Nat.add_zero]

theorem Sound.handle (hs : w.Sound) (h : HandleMove w w') : w'.Sound := by
  cases h with
  | raised => exact hs.stop (Nat.succ_ne_zero _)
  | frees => exact hs.stop Nat.one_ne_zero
  | notified hpos => exact { hs with sent := fun _ => hs.sent (.inr hpos), heard := fun _ _ => .inl rfl }
  | waits => exact { hs with single := (count_arrives w.waiters (by simp)).trans_le hs.single }
  | locks h hfree => exact { hs with single := count_join h hfree }
  | refused =>
    exact hs.waited (by simp) (hs.joined_snoc _) ((count_arrives w.waiters (by simp)).trans_le hs.single)
  | poisoned h =>
    exact hs.waited (by simp) (hs.joined_snoc _) ((count_release w.waiters _ _).trans hs.single)
  | again h hjoined =>
    refine hs.waited ?_ (fun _ => hs.joined_snoc _ hjoined) ((count_release w.waiters _ _).trans hs.single)
    intro _
    rcases hs.joined hjoined with hover | ⟨-, hwaited⟩
    · exact .inl (hs.phase.trans (by rw [hover]; rfl))
    · exact .inr hwaited
  | joins h hstage =>
    refine hs.waited ?_ (fun _ => .inl hstage) ((count_release w.waiters _ _).trans hs.single)
    exact fun _ => .inl (hs.phase.trans (by rw [hstage]; rfl))
  | fails h hstage =>
    exact hs.waited (by simp) (fun _ => .inr ⟨hstage, by simp⟩) ((count_release w.waiters _ _).trans hs.single)
  | unwinds h =>
    exact hs.waited (by simp) (hs.joined_snoc _) ((count_release w.waiters _ _).trans hs.single)

theorem Sound.step (hs : w.Sound) (h : step t w event = some w') : w'.Sound := by
  rcases step_cases h with ⟨-, stage, m, permit, hmove, hpermit, rfl⟩ | ⟨-, hmove⟩
  · exact hs.taskStep hmove hpermit
  · exact hs.handle hmove

theorem sound_of_run {built : Except AvisoOutcome Unit} {events : List (WatchEvent σ)}
    (h : Lib.Machine.run (step t) (AvisoWatch.spawn built) events = some w) : w.Sound :=
  Lib.Machine.run_invariant (fun _ _ _ hs he => hs.step he) h (Sound.spawn built)

/-- A task that reads numbers, used in the examples of runs. -/
def numbersTask : Task Nat (Except Watch.ClientError Nat) Nat Unit EndReason :=
  runWatch (fun _ => []) fun k => .ready (some (.ok k))

/-- A watch stopped while its first callback runs, with a thread waiting for it. -/
def stoppedEvents : List (WatchEvent Nat) :=
  [.opened (.ok 0), .wait false, .advance, .advance, .advance, .lock 0, .raise, .replied (.answered true), .notify]

/-- What C may rely on at the boundary: the callbacks of a watch run one at a time, `on_end` is
called once and after all of them, and after a stop at most one more callback starts. -/
structure Orderly (w : AvisoWatch σ κ φ ρ) : Prop where
  allowed : Lib.Always Allowed w.trace
  phase : phaseOf w.trace = w.stage.phase
  endOnce : w.trace.countP Mark.isEnd = w.stage.phase.ends
  quiet : ∀ before outcome after, w.trace = before ++ .endStarted outcome :: after →
    ∀ m ∈ after, m.isStart = false
  late : lateCalls w.trace ≤ 1

/-- Whatever the threads do and in whatever order, the boundary is orderly. -/
theorem boundary_law (t : Task σ ι κ φ ρ) (built : Except AvisoOutcome Unit) (events : List (WatchEvent σ))
    (h : Lib.Machine.run (AvisoWatch.step t) (AvisoWatch.spawn built) events = some w) : w.Orderly :=
  have hs := sound_of_run h
  { allowed := hs.allowed
    phase := hs.phase
    endOnce := by rw [countP_isEnd hs.allowed, hs.phase]
    quiet := fun _ _ _ hsplit => Ffi.quiet hs.allowed hsplit
    late := by rcases hs.late with hzero | ⟨hone, -⟩ <;> omega }

theorem boundary_law_sample :
    ∃ w, Lib.Machine.run (AvisoWatch.step numbersTask) (AvisoWatch.spawn (.ok ())) stoppedEvents = some w ∧
      w.Orderly :=
  ⟨_, rfl, boundary_law numbersTask (.ok ()) stoppedEvents rfl⟩

/-- What holds when a stop was written and notified: the task will see it. -/
def Heard (w : AvisoWatch σ κ φ ρ) : Prop := w.flag = true ∧ (w.permit = true ∨ w.stage.past = true)

theorem Heard.step (hheard : w.Heard) (h : step t w event = some w') :
    w'.Heard ∧ (if event.isTask then 1 else 0) + w'.stage.rank ≤ w.stage.rank := by
  obtain ⟨hflag, hpermit⟩ := hheard
  rcases step_cases h with ⟨htask, stage, m, permit, hmove, hkeep, rfl⟩ | ⟨htask, hmove⟩
  · have hrank : stage.rank < w.stage.rank := hmove.rank hflag hpermit
    refine ⟨⟨hflag, ?_⟩, ?_⟩
    · rcases hkeep with rfl | ⟨-, hpast⟩
      · exact hpermit.imp_right hmove.past
      · exact .inr hpast
    · rw [htask, if_pos rfl]
      exact (Nat.add_comm 1 stage.rank).trans_le hrank
  · rw [htask]
    cases hmove with
    | notified hpos => exact ⟨⟨hflag, .inl rfl⟩, (Nat.zero_add _).le⟩
    | raised => exact ⟨⟨rfl, hpermit⟩, (Nat.zero_add _).le⟩
    | frees => exact ⟨⟨rfl, hpermit⟩, (Nat.zero_add _).le⟩
    | _ => exact ⟨⟨hflag, hpermit⟩, (Nat.zero_add _).le⟩

theorem Heard.run (hheard : w.Heard) (h : Lib.Machine.run (AvisoWatch.step t) w events = some w') :
    w'.Heard ∧ events.countP WatchEvent.isTask + w'.stage.rank ≤ w.stage.rank := by
  induction events generalizing w with
  | nil =>
    cases h
    exact ⟨hheard, by simp⟩
  | cons event events ih =>
    obtain ⟨mid, hmid, hrest⟩ := Lib.Machine.run_cons h
    obtain ⟨hheard', hrank⟩ := hheard.step hmid
    obtain ⟨hlast, hlater⟩ := ih hheard' hrest
    rw [List.countP_cons]
    exact ⟨hlast, by omega⟩

/-- A stop has done both of its writes once one of them has notified the task. -/
theorem heard_of_notify {built : Except AvisoOutcome Unit}
    (h : Lib.Machine.run (AvisoWatch.step t) (AvisoWatch.spawn built) events = some w)
    (hnotify : .notify ∈ events) : w.Heard := by
  obtain ⟨before, after, rfl⟩ := List.append_of_mem hnotify
  obtain ⟨mid, hbefore, hrest⟩ := Lib.Machine.run_append h
  obtain ⟨mid', hmid, hafter⟩ := Lib.Machine.run_cons hrest
  have hpermit : mid'.permit = true := by
    simp only [AvisoWatch.step] at hmid
    split at hmid
    · cases hmid
    · cases hmid
      rfl
  have hs := sound_of_run (Lib.Machine.run_snoc hbefore hmid)
  have hheard : mid'.Heard := ⟨hs.sent (.inl hpermit), .inl hpermit⟩
  exact (hheard.run hafter).1

theorem rank_le (stage : Stage σ κ φ ρ) : stage.rank ≤ 6 := by
  cases stage <;> simp [Stage.rank]

theorem step_answers (h : w.stage.answers event = true) : (step t w event).isSome := by
  cases hstage : w.stage <;> cases event <;> simp only [hstage, Stage.answers, Bool.false_eq_true] at h
  case opening.opened result => cases result <;> simp [AvisoWatch.step, hstage]
  all_goals simp only [AvisoWatch.step, advance, reply, hstage]
  all_goals repeat' split
  all_goals rfl

theorem answers_of_not_over (stage : Stage σ κ φ ρ) (h : stage.ended = false) : ∃ event, stage.answers event = true := by
  cases stage with
  | opening => exact ⟨.opened (.error .empty), rfl⟩
  | checking l => exact ⟨.advance, rfl⟩
  | selecting l => exact ⟨.advance, rfl⟩
  | receiving l => exact ⟨.advance, rfl⟩
  | calling l call => exact ⟨.replied .unwound, rfl⟩
  | closing reason => exact ⟨.closed, rfl⟩
  | ending outcome => exact ⟨.advance, rfl⟩
  | inEnd outcome => exact ⟨.endReturned, rfl⟩
  | finished => cases h
  | panicked => cases h

/-- A watch that is about to end: its task takes at most six more steps, and until it has ended
none of them waits for an item. -/
structure Stopping (t : Task σ ι κ φ ρ) (w : AvisoWatch σ κ φ ρ) : Prop where
  bounded : ∀ events w', Lib.Machine.run (AvisoWatch.step t) w events = some w' →
    events.countP WatchEvent.isTask ≤ 6
  unblocked : ∀ events w', Lib.Machine.run (AvisoWatch.step t) w events = some w' → w'.stage.ended = false →
    (∃ event, w'.stage.answers event = true) ∧
      ∀ event, w'.stage.answers event = true → (AvisoWatch.step t w' event).isSome

/-- A stop whose two writes are done is never lost, wherever the task was in between and
whatever other stops are under way. -/
theorem stop_heard (t : Task σ ι κ φ ρ) (built : Except AvisoOutcome Unit) (events : List (WatchEvent σ))
    (h : Lib.Machine.run (AvisoWatch.step t) (AvisoWatch.spawn built) events = some w) :
    (.notify ∈ events ∨ .stopRequested ∈ w.trace ∧ w.notifying = 0 → w.Heard) ∧ (w.Heard → Stopping t w) := by
  have hs := sound_of_run h
  constructor
  · rintro (hnotify | ⟨hstop, hquiet⟩)
    · exact heard_of_notify h hnotify
    · have hflag := hs.stopped.mp hstop
      exact ⟨hflag, hs.heard hflag hquiet⟩
  · intro hheard
    refine ⟨?_, ?_⟩
    · intro later w' hrun
      have hrank := (hheard.run hrun).2
      have hmax := rank_le w.stage
      omega
    · intro later w' hrun hover
      exact ⟨answers_of_not_over w'.stage hover, fun event hevent => step_answers hevent⟩

theorem stop_heard_sample :
    ∃ w, Lib.Machine.run (AvisoWatch.step numbersTask) (AvisoWatch.spawn (.ok ())) stoppedEvents = some w ∧
      Stopping numbersTask w := by
  obtain ⟨hnotified, hstopping⟩ := stop_heard numbersTask (.ok ()) stoppedEvents rfl
  exact ⟨_, rfl, hstopping (hnotified (.inl (by simp [stoppedEvents])))⟩

section Waiting

/-- The steps the waits still take. -/
def load (waiters : List Waiter) : Nat := (waiters.map Waiter.load).sum

end Waiting

end AvisoWatch

end Aviso.Ffi
