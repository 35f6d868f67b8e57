import Aviso.Cli.Listen
import Aviso.Lib.Cells
import Mathlib.Algebra.Order.Ring.Nat
import Mathlib.Data.List.Nodup

namespace Aviso.Cli.Listen

open Watch (ResumeStart)

variable {ε : Type} {timeout : Bool} {specs : List ListenerSpec}

section Moves

/-- What a poll does to the task of a listener, and when it can. -/
inductive Move (c : Cancel) (t : Task ε) : TaskEvent ε → Task ε → Prop where
  | late (h : t.phase = .spawned) (hflag : c.flag = true) : Move c t (.start opened) { t with phase := .finished .ok }
  | opened (h : t.phase = .spawned) (hflag : c.flag = false) :
    Move c t (.start (.ok ())) { t with phase := .selecting true, stream := .opened }
  | refused (h : t.phase = .spawned) (hflag : c.flag = false) :
    Move c t (.start (.error e)) { t with phase := .finished (.failed e) }
  | cancelled (h : t.phase = .selecting waiting) (hnew : c.version ≠ t.seen) :
    Move c t .cancelled { t with seen := c.version, phase := .closing (.ok ()) }
  | look (h : t.phase = .selecting waiting) (hsame : c.version = t.seen) : Move c t .look { t with phase := .polling waiting }
  | ready (h : t.phase = .polling true) : Move c t (.ready confirmed written) { t with phase := .selecting false }
  | unwritten (h : t.phase = .polling true) : Move c t (.ready true (.error e)) { t with phase := .closing (.error e) }
  | item (h : t.phase = .polling waiting) : Move c t (.item (some (.ok ()))) { t with phase := .selecting waiting }
  | itemError (h : t.phase = .polling waiting) : Move c t (.item (some (.error e))) { t with phase := .closing (.error e) }
  | itemEnd (h : t.phase = .polling waiting) : Move c t (.item none) { t with phase := .closing (.ok ()) }
  | pending (h : t.phase = .polling waiting) : Move c t .pending { t with phase := .selecting waiting }
  | closed (h : t.phase = .closing result) : Move c t .closed { t with phase := .finished (Task.ofResult result), stream := .closed }
  | panic (h : ∀ o, t.phase ≠ .finished o) :
    Move c t .panic { t with phase := .finished .panicked, stream := if t.stream = .opened then .dropped else t.stream }

variable {c : Cancel} {t t' : Task ε} {event : TaskEvent ε}

theorem step_move (h : t.step c event = some t') : Move c t event t' := by
  cases event with
  | start opened =>
    simp only [Task.step] at h
    split at h
    · rename_i hphase
      split at h
      · cases h
        exact .late hphase ‹_›
      · rename_i hflag
        have hclear : c.flag = false := by simpa using hflag
        split at h
        · cases h
          exact .opened hphase hclear
        · cases h
          exact .refused hphase hclear
    · cases h
  | cancelled =>
    simp only [Task.step] at h
    split at h
    · split at h
      · cases h
        exact .cancelled ‹_› ‹_›
      · cases h
    · cases h
  | look =>
    simp only [Task.step] at h
    split at h
    · split at h
      · cases h
        exact .look ‹_› ‹_›
      · cases h
    · cases h
  | ready confirmed written =>
    simp only [Task.step] at h
    split at h
    · split at h
      · cases h
        exact .unwritten ‹_›
      · cases h
        exact .ready ‹_›
    · cases h
  | item item =>
    simp only [Task.step] at h
    split at h
    · split at h
      · cases h
        exact .item ‹_›
      · cases h
        exact .itemError ‹_›
      · cases h
        exact .itemEnd ‹_›
    · cases h
  | pending =>
    simp only [Task.step] at h
    split at h
    · cases h
      exact .pending ‹_›
    · cases h
  | closed =>
    simp only [Task.step] at h
    split at h
    · cases h
      exact .closed ‹_›
    · cases h
  | panic =>
    simp only [Task.step] at h
    split at h
    · cases h
    · rename_i hnot
      cases h
      exact .panic hnot

/-- What a step of the command does, and when it can. -/
def Effect (timeout : Bool) (s s' : Drive ε) : DriveEvent ε → Prop
  | .signal now => s.cancel.parked = false ∧ s.cancel.lastSignal.all (· ≤ now) = true ∧
      (s.cancel.isHard now = true ∧ s' = { s with exit := some hardSigint } ∨
        s.cancel.isHard now = false ∧ s' = { s with cancel := s.cancel.send now })
  | .installFails => s.cancel.parked = false ∧ s' = { s with cancel := { s.cancel with parked := true } }
  | .spawn => ∃ spec rest, s.remaining = spec :: rest ∧
      ((∃ e, buildWatchRequest timeout spec = .error e) ∧ s' = { s with exit := some usageError } ∨
        (∃ request, buildWatchRequest timeout spec = .ok request) ∧
          s' = { s with remaining := rest, tasks := s.tasks ++ [.spawned] })
  | .task i event => ∃ t t', s.tasks[i]? = some t ∧ t.step s.cancel event = some t' ∧ s' = { s with tasks := s.tasks.set i t' }
  | .join i => ∃ t outcome, s.tasks[i]? = some t ∧ t.phase = .finished outcome ∧ s.remaining = [] ∧ i ∉ s.joined ∧
      s' = { s with joined := s.joined ++ [i], anyFailed := s.anyFailed || outcome.isFailure }
  | .finish => s.remaining = [] ∧ s.joined.length = s.tasks.length ∧
      s' = { s with exit := some (if s.anyFailed then runtimeError else success) }

variable {s s' : Drive ε} {e : DriveEvent ε} {es : List (DriveEvent ε)}

theorem step_effect (h : Drive.step timeout s e = some s') : s.exit = none ∧ Effect timeout s s' e := by
  unfold Drive.step at h
  split at h
  · cases h
  · rename_i hexit
    refine ⟨by simpa using hexit, ?_⟩
    cases e with
    | signal now =>
      dsimp only at h
      split at h
      · cases h
      · rename_i hguard
        simp only [Bool.or_eq_true, Bool.not_eq_true', not_or, Bool.not_eq_true, Bool.not_eq_false] at hguard
        split at h
        · cases h
          exact ⟨hguard.1, hguard.2, .inl ⟨‹_›, rfl⟩⟩
        · rename_i hsoft
          cases h
          exact ⟨hguard.1, hguard.2, .inr ⟨by simpa using hsoft, rfl⟩⟩
    | installFails =>
      dsimp only at h
      split at h
      · cases h
      · rename_i hparked
        cases h
        exact ⟨by simpa using hparked, rfl⟩
    | spawn =>
      dsimp only at h
      split at h
      · cases h
      · rename_i spec rest hremaining
        split at h
        · rename_i e hbuild
          cases h
          exact ⟨spec, rest, hremaining, .inl ⟨⟨e, hbuild⟩, rfl⟩⟩
        · rename_i request hbuild
          cases h
          exact ⟨spec, rest, hremaining, .inr ⟨⟨request, hbuild⟩, rfl⟩⟩
    | task i event =>
      obtain ⟨t', ht', rfl⟩ := Option.map_eq_some_iff.mp h
      obtain ⟨t, ht, hstep⟩ := Option.bind_eq_some_iff.mp ht'
      exact ⟨t, t', ht, hstep, rfl⟩
    | join i =>
      dsimp only at h
      split at h
      · rename_i outcome hphase
        obtain ⟨t, ht, hover⟩ := Option.map_eq_some_iff.mp hphase
        split at h
        · rename_i hguard
          cases h
          simp only [Bool.and_eq_true, List.isEmpty_iff, Bool.not_eq_true', List.contains_eq_mem, decide_eq_false_iff_not] at hguard
          exact ⟨t, outcome, ht, hover, hguard.1, hguard.2, rfl⟩
        · cases h
      · cases h
    | finish =>
      dsimp only at h
      split at h
      · rename_i hguard
        cases h
        simp only [Bool.and_eq_true, List.isEmpty_iff, decide_eq_true_eq] at hguard
        exact ⟨hguard.1, hguard.2, rfl⟩
      · cases h

/-- A task that is over stays as it is. -/
theorem Move.not_over (h : Move c t event t') (outcome : Outcome ε) : t.phase ≠ .finished outcome := by
  intro hover
  cases h <;> simp_all

end Moves

section Accounts

variable {s s' : Drive ε} {e : DriveEvent ε} {es : List (DriveEvent ε)}

/-- A listener whose request cannot be built. -/
def Conflicts (timeout : Bool) (spec : ListenerSpec) : Prop := ∃ e, buildWatchRequest timeout spec = .error e

/-- How a command that has ended came to its exit code. -/
def Ends (timeout : Bool) (specs : List ListenerSpec) (s : Drive ε) (code : Nat) : Prop :=
  (code = success ∧ s.tasks.length = specs.length ∧ ∀ t ∈ s.tasks, t.phase = .finished .ok) ∨
  (code = runtimeError ∧ s.tasks.length = specs.length ∧ (∀ t ∈ s.tasks, ∃ outcome, t.phase = .finished outcome) ∧
    ∃ t ∈ s.tasks, t.phase ≠ .finished .ok) ∨
  (code = usageError ∧ ∃ spec, specs[s.tasks.length]? = some spec ∧ Conflicts timeout spec) ∨
  code = hardSigint

/-- What the join loop knows of the tasks, and the listeners that are started. -/
structure Sound (timeout : Bool) (specs : List ListenerSpec) (s : Drive ε) : Prop where
  split : ∃ started, specs = started ++ s.remaining ∧ started.length = s.tasks.length ∧
    ∀ spec ∈ started, ¬Conflicts timeout spec
  nodup : s.joined.Nodup
  ended : ∀ i ∈ s.joined, ∃ t outcome, s.tasks[i]? = some t ∧ t.phase = .finished outcome
  failed : s.anyFailed = true ↔ ∃ i ∈ s.joined, ∃ t, s.tasks[i]? = some t ∧ t.phase ≠ .finished .ok
  ends : ∀ code, s.exit = some code → Ends timeout specs s code

theorem Sound.joined_lt (h : Sound timeout specs s) {i : Nat} (hi : i ∈ s.joined) : i < s.tasks.length := by
  obtain ⟨t, -, ht, -⟩ := h.ended i hi
  exact (List.getElem?_eq_some_iff.mp ht).1

/-- Once as many are joined as there are tasks, every task is. -/
theorem Sound.joined_all (h : Sound timeout specs s) (hlength : s.joined.length = s.tasks.length) {i : Nat}
    (hi : i < s.tasks.length) : i ∈ s.joined := by
  have hsub : s.joined ⊆ List.range s.tasks.length := fun i hi => List.mem_range.mpr (h.joined_lt hi)
  have hperm := (List.subperm_of_subset h.nodup hsub).perm_of_length_le (by rw [List.length_range, hlength])
  exact hperm.symm.subset (List.mem_range.mpr hi)

theorem Sound.finish (h : Sound timeout specs s) (hremaining : s.remaining = [])
    (hlength : s.joined.length = s.tasks.length) :
    Ends timeout specs s (if s.anyFailed then runtimeError else success) := by
  obtain ⟨started, hsplit, hstarted, -⟩ := h.split
  have hall : s.tasks.length = specs.length := by
    rw [hsplit, hremaining, List.append_nil, hstarted]
  have hover : ∀ t ∈ s.tasks, ∃ i ∈ s.joined, s.tasks[i]? = some t := by
    intro t ht
    obtain ⟨i, hi, rfl⟩ := List.mem_iff_getElem.mp ht
    exact ⟨i, h.joined_all hlength hi, List.getElem?_eq_getElem hi⟩
  cases hfailed : s.anyFailed with
  | true =>
    refine .inr (.inl ⟨rfl, hall, ?_, ?_⟩)
    · intro t ht
      obtain ⟨i, hi, htask⟩ := hover t ht
      obtain ⟨_, outcome, htask', hphase⟩ := h.ended i hi
      cases htask.symm.trans htask'
      exact ⟨outcome, hphase⟩
    · obtain ⟨i, -, t, htask, hphase⟩ := h.failed.mp hfailed
      exact ⟨t, List.mem_of_getElem? htask, hphase⟩
  | false =>
    refine .inl ⟨rfl, hall, ?_⟩
    intro t ht
    obtain ⟨i, hi, htask⟩ := hover t ht
    by_contra hphase
    rw [h.failed.mpr ⟨i, hi, t, htask, hphase⟩] at hfailed
    cases hfailed

end Accounts

section Causes

variable {s s' : Drive ε} {e : DriveEvent ε} {es es' : List (DriveEvent ε)} {c c' : Cancel} {t t' : Task ε} {i : Nat}

/-- What ends a listener with an error. -/
def Breaks (i : Nat) (e : ε) (event : DriveEvent ε) : Prop :=
  event = .task i (.start (.error e)) ∨ event = .task i (.item (some (.error e))) ∨ event = .task i (.ready true (.error e))

/-- What stops a listener without an error: an interrupt, or the end of its stream. -/
def Stops (i : Nat) (es : List (DriveEvent ε)) (c : Cancel) : Prop := 0 < c.version ∨ .task i (.item none) ∈ es

/-- What a task owes its state to. Its receiver has seen no interrupt while it runs, its stream is open until
it is closed, and it ends as its stream, an interrupt, an error or a panic made it end. -/
def Explained (i : Nat) (es : List (DriveEvent ε)) (c : Cancel) (t : Task ε) : Prop :=
  match t.phase with
  | .spawned => t.seen = 0 ∧ t.stream = .unopened
  | .selecting _ | .polling _ => t.seen = 0 ∧ t.stream = .opened
  | .closing (.ok ()) => t.stream = .opened ∧ Stops i es c
  | .closing (.error e) => t.stream = .opened ∧ ∃ event ∈ es, Breaks i e event
  | .finished .ok => (t.stream = .unopened ∧ 0 < c.version) ∨ (t.stream = .closed ∧ Stops i es c)
  | .finished (.failed e) => (t.stream = .unopened ∨ t.stream = .closed) ∧ ∃ event ∈ es, Breaks i e event
  | .finished .panicked => t.stream ≠ .opened ∧ .task i .panic ∈ es

theorem Explained.mono (h : Explained i es c t) (hsub : es ⊆ es') (hversion : c.version ≤ c'.version) :
    Explained i es' c' t := by
  have hstops (hstops : Stops i es c) : Stops i es' c' :=
    hstops.imp (fun hpos => Nat.lt_of_lt_of_le hpos hversion) fun hmem => hsub hmem
  have hbreaks {e : ε} (hbreaks : ∃ event ∈ es, Breaks i e event) : ∃ event ∈ es', Breaks i e event := by
    obtain ⟨event, hmem, hevent⟩ := hbreaks
    exact ⟨event, hsub hmem, hevent⟩
  unfold Explained at h ⊢
  split at h
  · exact h
  · exact h
  · exact h
  · exact ⟨h.1, hstops h.2⟩
  · exact ⟨h.1, hbreaks h.2⟩
  · exact h.imp (fun ⟨hstream, hpos⟩ => ⟨hstream, Nat.lt_of_lt_of_le hpos hversion⟩) fun ⟨hstream, hs⟩ => ⟨hstream, hstops hs⟩
  · exact ⟨h.1, hbreaks h.2⟩
  · exact ⟨h.1, hsub h.2⟩

theorem Explained.move {event : TaskEvent ε} (h : Explained i es c t) (hflag : c.flag = true → 0 < c.version)
    (hmem : .task i event ∈ es) (hmove : Move c t event t') : Explained i es c t' := by
  unfold Explained at h ⊢
  cases hmove with
  | late hphase hset =>
    rw [hphase] at h
    exact .inl ⟨h.2, hflag hset⟩
  | opened hphase =>
    rw [hphase] at h
    exact ⟨h.1, rfl⟩
  | refused hphase =>
    rw [hphase] at h
    exact ⟨.inl h.2, _, hmem, .inl rfl⟩
  | cancelled hphase hnew =>
    rw [hphase] at h
    exact ⟨h.2, .inl (Nat.pos_of_ne_zero (h.1 ▸ hnew))⟩
  | look hphase => simpa only [hphase] using h
  | ready hphase => simpa only [hphase] using h
  | unwritten hphase =>
    rw [hphase] at h
    exact ⟨h.2, _, hmem, .inr (.inr rfl)⟩
  | item hphase => simpa only [hphase] using h
  | itemError hphase =>
    rw [hphase] at h
    exact ⟨h.2, _, hmem, .inr (.inl rfl)⟩
  | itemEnd hphase =>
    rw [hphase] at h
    exact ⟨h.2, .inr hmem⟩
  | pending hphase => simpa only [hphase] using h
  | @closed result hphase =>
    rw [hphase] at h
    cases result with
    | ok => exact .inr ⟨rfl, h.2⟩
    | error e => exact ⟨.inr rfl, h.2⟩
  | panic hnot =>
    refine ⟨?_, hmem⟩
    dsimp only
    split
    · exact nofun
    · assumption

/-- The flag is up once an interrupt was let through, and every task is explained. -/
structure Caused (es : List (DriveEvent ε)) (s : Drive ε) : Prop where
  flag : s.cancel.flag = true ↔ 0 < s.cancel.version
  signalled : 0 < s.cancel.version → ∃ now, .signal now ∈ es
  tasks : ∀ i t, s.tasks[i]? = some t → Explained i es s.cancel t

end Causes

section Alone

variable {s s' : Drive ε} {e : DriveEvent ε} {es : List (DriveEvent ε)} {t : Task ε} {i : Nat} {spec : ListenerSpec}

/-- The task of a listener, also before it is spawned. -/
def taskOf (tasks : List (Task ε)) (i : Nat) : Task ε := tasks[i]?.getD .spawned

theorem spawned_getD (tasks : List (Task ε)) (i : Nat) :
    (tasks ++ [Task.spawned])[i]?.getD .spawned = tasks[i]?.getD .spawned := by
  rw [List.getElem?_append]
  split
  · rfl
  · rename_i hge
    rw [List.getElem?_eq_none (Nat.le_of_not_lt hge), List.getElem?_singleton]
    split <;> rfl

end Alone

section Stopping

variable {s s' : Drive ε} {e : DriveEvent ε} {es seen : List (DriveEvent ε)} {t t' : Task ε} {i : Nat}

/-- A notification is taken. -/
def takesOne : TaskEvent ε → Bool
  | .item (some (.ok ())) => true
  | _ => false

/-- A notification is taken by a listener. -/
def takes (i : Nat) : DriveEvent ε → Bool
  | .task j event => j = i && takesOne event
  | _ => false

/-- The notifications a task may still take once there was an interrupt. -/
def armed (t : Task ε) : Nat :=
  match t.phase with
  | .polling _ => 1
  | _ => 0

/-- The steps that are not an interrupt. -/
def own : DriveEvent ε → Bool
  | .signal _ => false
  | _ => true

/-- The steps a task has before it once there was an interrupt. -/
def rank (t : Task ε) : Nat :=
  match t.phase with
  | .spawned | .closing _ => 1
  | .selecting _ => 2
  | .polling _ => 3
  | .finished _ => 0

/-- The steps the command has before it once there was an interrupt. -/
def measure (s : Drive ε) : Nat :=
  3 * s.remaining.length + (s.tasks.map rank).sum + (s.tasks.length - s.joined.length) +
    (if s.exit = none then 1 else 0) + (if s.cancel.parked then 0 else 1)

/-- After an interrupt a task only goes on to its end. -/
theorem Move.stops {c : Cancel} {event : TaskEvent ε} (hmove : Move c t event t') (h : Explained i es c t)
    (hflag : c.flag = true) (hpos : 0 < c.version) :
    rank t' < rank t ∧ (if takesOne event then 1 else 0) + armed t' ≤ armed t := by
  unfold Explained at h
  cases hmove with
  | look hphase hsame =>
    rw [hphase] at h
    have hzero : c.version = 0 := hsame.trans h.1
    omega
  | opened hphase hclear =>
    rw [hflag] at hclear
    cases hclear
  | refused hphase hclear =>
    rw [hflag] at hclear
    cases hclear
  | panic hnot =>
    cases hphase : t.phase with
    | finished outcome => exact absurd hphase (hnot outcome)
    | _ => simp [rank, armed, takesOne, hphase]
  | _ hphase => simp [rank, armed, takesOne, hphase]

theorem take_step (hcaused : Caused seen s) (hpos : 0 < s.cancel.version) (hstep : Drive.step timeout s e = some s')
    (i : Nat) : (if takes i e then 1 else 0) + armed (taskOf s'.tasks i) ≤ armed (taskOf s.tasks i) := by
  obtain ⟨-, heffect⟩ := step_effect hstep
  cases e with
  | signal now =>
    obtain ⟨-, -, ⟨-, rfl⟩ | ⟨-, rfl⟩⟩ := heffect
    · simp [takes]
    · simp [takes]
  | installFails =>
    obtain ⟨-, rfl⟩ := heffect
    simp [takes]
  | spawn =>
    obtain ⟨spec, rest, -, ⟨-, rfl⟩ | ⟨-, rfl⟩⟩ := heffect
    · simp [takes]
    · simp [takes, taskOf, spawned_getD]
  | task j event =>
    obtain ⟨t, t', ht, htask, rfl⟩ := heffect
    by_cases hj : j = i
    · subst hj
      have hstops := ((step_move htask).stops (hcaused.tasks j t ht) (hcaused.flag.mpr hpos) hpos).2
      have hbefore : taskOf s.tasks j = t := by simp [taskOf, ht]
      have hafter : taskOf (s.tasks.set j t') j = t' := by
        simp [taskOf, List.getElem?_set_self (List.getElem?_eq_some_iff.mp ht).1]
      simpa [takes, hbefore, hafter] using hstops
    · have hafter : taskOf (s.tasks.set j t') i = taskOf s.tasks i := by simp [taskOf, hj]
      simp [takes, hafter, hj]
  | join j =>
    obtain ⟨t, outcome, -, -, -, -, rfl⟩ := heffect
    simp [takes]
  | finish =>
    obtain ⟨-, -, rfl⟩ := heffect
    simp [takes]

end Stopping

section Progress

variable {s s' : Drive ε} {e : DriveEvent ε} {es seen : List (DriveEvent ε)} {t t' : Task ε} {i : Nat}

end Progress

section Interrupts

variable {s s' : Drive ε} {e : DriveEvent ε} {es seen : List (DriveEvent ε)}

end Interrupts

section Listeners

variable {inline : Option ListenerSpec} {configured : List ListenerSpec}
  {files : Option (Except UsageError (List ListenerSpec))} {start : Option (Except UsageError ResumeStart)}

end Listeners

end Aviso.Cli.Listen
