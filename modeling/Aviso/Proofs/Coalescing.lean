import Aviso.Client.Refresh
import Aviso.Lib.History
import Mathlib.Data.List.Nodup

namespace Aviso.Client

/-- Which request an effect is of. -/
def RequestEffect.of : RequestEffect ε → Nat
  | .unattached r _ | .sent r | .answered r _ | .refreshed r _ _ => r

/-- The epochs the successful refreshes were run for, in order. -/
def epochsOf (trace : List (RequestEffect ε)) : List Nat :=
  trace.filterMap fun
    | .refreshed _ observed (.ok ()) => some observed
    | _ => none

/-- What one request did. -/
def ownOf (r : Nat) (trace : List (RequestEffect ε)) : List (RequestEffect ε) :=
  trace.filter fun effect => effect.of = r

def isSent : RequestEffect ε → Bool
  | .sent _ => true
  | _ => false

/-- How often a request was sent. -/
def sendsOf (r : Nat) (trace : List (RequestEffect ε)) : Nat := (ownOf r trace).countP isSent

namespace Requests

variable {ε : Type} {c : Refreshing} {s s' : Requests ε}

/-- The steps of one request that leave the credential and the epoch as they are. -/
inductive Turn (c : Refreshing) (s : Requests ε) (r : Nat) :
    RequestStage ε → RequestStage ε → List (RequestEffect ε) → Prop where
  | attach : Turn c s r .building (.attached (s.authorizationHeader c)) []
  | attachAgain : Turn c s r (.renewed credential observed skipped)
      (.resending credential observed skipped (s.authorizationHeader c)) [.sent r]
  | unattached (e : ε) : Turn c s r .building (.done (.error e)) [.unattached r e]
  | unattachedAgain (e : ε) : Turn c s r (.renewed credential observed skipped) (.done (.error e))
      [.unattached r e]
  | send : Turn c s r (.attached credential) (.sending credential s.generation) [.sent r]
  | unauthorized : c.hasAuth = true → Turn c s r (.sending credential observed)
      (.waiting credential observed) [.answered r (.ok 401)]
  | answered (result : Except ε Nat) : Turn c s r (.sending credential observed) (.done result)
      [.answered r result]
  | answeredAgain (result : Except ε Nat) : Turn c s r (.resending credential observed skipped again)
      (.done result) [.answered r result]
  | acquire : s.free = true → Turn c s r (.waiting credential observed) (.locked credential observed) []
  | skip : s.generation ≠ observed →
      Turn c s r (.locked credential observed) (.renewed credential observed true) []
  | enter : s.generation = observed →
      Turn c s r (.locked credential observed) (.refreshing credential observed false) []
  | fail (e : ε) : Turn c s r (.refreshing credential observed published) (.done (.error e))
      [.refreshed r observed (.error e)]
  | drop : stage.isOver = false → Turn c s r stage .dropped []

/-- What a step of the machine does. -/
inductive Moves (c : Refreshing) (s : Requests ε) : Requests ε → Prop where
  | start : Moves c s { s with requests := s.requests ++ [.building] }
  | turn (r : Nat) : s.requests[r]? = some stage → Turn c s r stage stage' effects →
      Moves c s { s with requests := s.requests.set r stage', trace := s.trace ++ effects }
  | publish (r : Nat) : s.requests[r]? = some (.refreshing credential observed published) →
      Moves c s { s with
        version := s.version + 1, requests := s.requests.set r (.refreshing credential observed true) }
  | succeed (r : Nat) : s.requests[r]? = some (.refreshing credential observed published) →
      (c.rotates = true → published = true) →
      Moves c s { s with
        generation := wrappingSucc s.generation
        requests := s.requests.set r (.renewed credential observed false)
        trace := s.trace ++ [.refreshed r observed (.ok ())] }
  | rotate : Moves c s { s with version := s.version + 1 }

theorem turn_silent (r : Nat) (hr : s.requests[r]? = some stage) (h : Turn c s r stage stage' []) :
    Moves c s (s.goto r stage') := by
  have hmoves := Moves.turn (c := c) r hr h
  rw [List.append_nil] at hmoves
  exact hmoves

theorem stepAttach_moves (hr : s.requests[r]? = some stage) (hs : s.stepAttach c r stage result = some s') :
    Moves c s s' := by
  unfold stepAttach at hs
  split at hs
  · cases hs
    exact turn_silent r hr .attach
  · cases hs
    exact .turn r hr .attachAgain
  · split at hs
    · cases hs
      exact .turn r hr (.unattached _)
    · cases hs
  · split at hs
    · cases hs
      exact .turn r hr (.unattachedAgain _)
    · cases hs
  · cases hs

theorem stepAnswer_moves (hr : s.requests[r]? = some stage) (hs : s.stepAnswer c r result stage = some s') :
    Moves c s s' := by
  unfold stepAnswer at hs
  split at hs
  · split at hs
    · cases hs
      exact .turn r hr (.answered _)
    · split at hs
      · rename_i hstatus
        obtain ⟨rfl, hauth⟩ := hstatus
        cases hs
        exact .turn r hr (.unauthorized hauth)
      · cases hs
        exact .turn r hr (.answered _)
  · cases hs
    exact .turn r hr (.answeredAgain _)
  · cases hs

theorem stepRefreshed_moves (hr : s.requests[r]? = some stage) (hs : s.stepRefreshed c r result stage = some s') :
    Moves c s s' := by
  unfold stepRefreshed at hs
  split at hs
  · split at hs
    · cases hs
      exact .turn r hr (.fail _)
    · split at hs
      · cases hs
      · rename_i hpublished
        cases hs
        refine .succeed r hr ?_
        intro hrotates
        simpa [hrotates] using hpublished
  · cases hs

theorem step_moves (hs : step c s event = some s') : Moves c s s' := by
  unfold step at hs
  split at hs
  · cases hs
    exact .start
  · obtain ⟨stage, hr, hs⟩ := Option.bind_eq_some_iff.mp hs
    exact stepAttach_moves hr hs
  · obtain ⟨stage, hr, hs⟩ := Option.bind_eq_some_iff.mp hs
    split at hs
    · cases hs
      exact .turn _ hr .send
    · cases hs
  · obtain ⟨stage, hr, hs⟩ := Option.bind_eq_some_iff.mp hs
    exact stepAnswer_moves hr hs
  · obtain ⟨stage, hr, hs⟩ := Option.bind_eq_some_iff.mp hs
    split at hs
    · split at hs
      · rename_i hfree
        cases hs
        exact turn_silent _ hr (.acquire hfree)
      · cases hs
    · cases hs
  · obtain ⟨stage, hr, hs⟩ := Option.bind_eq_some_iff.mp hs
    split at hs
    · split at hs
      · rename_i hmoved
        cases hs
        exact turn_silent _ hr (.skip hmoved)
      · rename_i hsame
        cases hs
        exact turn_silent _ hr (.enter (not_not.mp hsame))
    · cases hs
  · obtain ⟨stage, hr, hs⟩ := Option.bind_eq_some_iff.mp hs
    split at hs
    · cases hs
      exact .publish _ hr
    · cases hs
  · obtain ⟨stage, hr, hs⟩ := Option.bind_eq_some_iff.mp hs
    exact stepRefreshed_moves hr hs
  · obtain ⟨stage, hr, hs⟩ := Option.bind_eq_some_iff.mp hs
    split at hs
    · cases hs
    · rename_i hgoes
      cases hs
      exact turn_silent _ hr (.drop (Bool.eq_false_iff.mpr hgoes))
  · cases hs
    exact .rotate

/-! ### The epochs -/

/-- The epoch a request stands for, when `n` refreshes have succeeded. -/
def Timely (n : Nat) : RequestStage ε → Prop
  | .sending _ observed | .waiting _ observed | .locked _ observed => ∃ k ≤ n, observed = k % 2 ^ 64
  | .refreshing _ observed _ => observed = n % 2 ^ 64
  | .renewed _ observed _ | .resending _ observed _ _ => ∃ k < n, observed = k % 2 ^ 64
  | .building | .attached _ | .done _ | .dropped => True

theorem timely_succ {stage : RequestStage ε} (h : Timely n stage) (hfree : stage.holdsLock = false) :
    Timely (n + 1) stage := by
  cases stage with
  | sending credential observed =>
    obtain ⟨k, hk, heq⟩ := h
    exact ⟨k, Nat.le_succ_of_le hk, heq⟩
  | waiting credential observed =>
    obtain ⟨k, hk, heq⟩ := h
    exact ⟨k, Nat.le_succ_of_le hk, heq⟩
  | renewed credential observed skipped =>
    obtain ⟨k, hk, heq⟩ := h
    exact ⟨k, Nat.lt_succ_of_lt hk, heq⟩
  | resending credential observed skipped again =>
    obtain ⟨k, hk, heq⟩ := h
    exact ⟨k, Nat.lt_succ_of_lt hk, heq⟩
  | locked credential observed => cases hfree
  | refreshing credential observed published => cases hfree
  | _ => trivial

theorem turn_timely (h : Turn c s r stage stage' effects) (hstage : Timely n stage)
    (hgeneration : s.generation = n % 2 ^ 64) : Timely n stage' := by
  cases h with
  | attachAgain => exact hstage
  | send => exact ⟨n, le_refl n, hgeneration⟩
  | unauthorized _ => exact hstage
  | acquire _ => exact hstage
  | skip hmoved =>
    obtain ⟨k, hk, rfl⟩ := hstage
    refine ⟨k, Nat.lt_of_le_of_ne hk ?_, rfl⟩
    rintro rfl
    exact hmoved hgeneration
  | enter hsame => exact hsame.symm.trans hgeneration
  | _ => trivial

theorem turn_epochs (h : Turn c s r stage stage' effects) : epochsOf effects = [] := by
  cases h <;> rfl

theorem turn_lock (h : Turn c s r stage stage' effects) (hholds : stage'.holdsLock = true) :
    stage.holdsLock = true ∨ s.free = true := by
  cases h with
  | acquire hfree => exact .inr hfree
  | enter _ => exact .inl rfl
  | _ => cases hholds

/-! ### What one request does -/

/-- A refresh of its own, or one it skipped. -/
def Renewal (r : Nat) (effects : List (RequestEffect ε)) : Prop :=
  effects = [] ∨ ∃ observed, effects = [.refreshed r observed (.ok ())]

/-- The first attempt of a request that was rejected. -/
def rejected (r : Nat) : List (RequestEffect ε) := [.sent r, .answered r (.ok 401)]

/-- What a request has done, by the stage it is in. -/
inductive Script (r : Nat) : RequestStage ε → List (RequestEffect ε) → Prop where
  | building : Script r .building []
  | attached : Script r (.attached credential) []
  | sending : Script r (.sending credential observed) [.sent r]
  | waiting : Script r (.waiting credential observed) (rejected r)
  | locked : Script r (.locked credential observed) (rejected r)
  | refreshing : Script r (.refreshing credential observed published) (rejected r)
  | renewed : Renewal r renewal → Script r (.renewed credential observed skipped) (rejected r ++ renewal)
  | resending : Renewal r renewal →
      Script r (.resending credential observed skipped again) (rejected r ++ renewal ++ [.sent r])
  | unattached (e : ε) : Script r (.done (.error e)) [.unattached r e]
  | answered (result : Except ε Nat) : Script r (.done result) [.sent r, .answered r result]
  | failed (observed : Nat) (e : ε) :
      Script r (.done (.error e)) (rejected r ++ [.refreshed r observed (.error e)])
  | unattachedAgain (e : ε) : Renewal r renewal →
      Script r (.done (.error e)) (rejected r ++ renewal ++ [.unattached r e])
  | answeredAgain (result : Except ε Nat) : Renewal r renewal →
      Script r (.done result) (rejected r ++ renewal ++ [.sent r] ++ [.answered r result])
  | dropped : Script r stage own → stage.isOver = false → Script r .dropped own

theorem turn_script (h : Turn c s r stage stage' effects) (hscript : Script r stage own) :
    Script r stage' (own ++ effects) := by
  cases h with
  | attach =>
    cases hscript
    exact .attached
  | attachAgain =>
    cases hscript with
    | renewed hrenewal => exact .resending hrenewal
  | unattached e =>
    cases hscript
    exact .unattached e
  | unattachedAgain e =>
    cases hscript with
    | renewed hrenewal => exact .unattachedAgain e hrenewal
  | send =>
    cases hscript
    exact .sending
  | unauthorized _ =>
    cases hscript
    exact .waiting
  | answered result =>
    cases hscript
    exact .answered result
  | answeredAgain result =>
    cases hscript with
    | resending hrenewal => exact .answeredAgain result hrenewal
  | acquire _ =>
    cases hscript
    exact .locked
  | skip _ =>
    cases hscript
    exact .renewed (.inl rfl)
  | enter _ =>
    cases hscript
    exact .refreshing
  | fail e =>
    cases hscript
    exact .failed _ e
  | drop hgoes =>
    rw [List.append_nil]
    exact .dropped hscript hgoes

theorem Script.blamed {own : List (RequestEffect ε)} {e : ε} (h : Script r (.done (.error e)) own) :
    .unattached r e ∈ own ∨ .answered r (.error e) ∈ own ∨ ∃ observed, .refreshed r observed (.error e) ∈ own := by
  cases h with
  | unattached e => exact .inl (by simp)
  | answered result => exact .inr (.inl (by simp))
  | failed observed e => exact .inr (.inr ⟨observed, by simp⟩)
  | unattachedAgain e _ => exact .inl (by simp)
  | answeredAgain result _ => exact .inr (.inl (by simp))

theorem Renewal.no_error {effects : List (RequestEffect ε)} {e : ε} (h : Renewal r effects) : .refreshed r observed (.error e) ∉ effects := by
  rcases h with rfl | ⟨observed', rfl⟩
  · simp
  · simp

theorem Script.reported {own : List (RequestEffect ε)} {e : ε} (h : Script r stage own) (hfailed : .refreshed r observed (.error e) ∈ own) :
    stage = .done (.error e) := by
  induction h with
  | failed observed' e' =>
    simp only [rejected, List.mem_append, List.mem_cons, List.not_mem_nil, or_false] at hfailed
    rcases hfailed with (h | h) | h
    · cases h
    · cases h
    · cases h
      rfl
  | renewed hrenewal => simp [rejected, hrenewal.no_error] at hfailed
  | resending hrenewal => simp [rejected, hrenewal.no_error] at hfailed
  | unattachedAgain e' hrenewal => simp [rejected, hrenewal.no_error] at hfailed
  | answeredAgain result hrenewal => simp [rejected, hrenewal.no_error] at hfailed
  | dropped _ hgoes ih =>
    cases ih hfailed
    cases hgoes
  | _ => simp [rejected] at hfailed

/-- A send is the first, or the second after a 401. -/
def SentTwiceAtMost (before : List (RequestEffect ε)) (effect : RequestEffect ε) : Prop :=
  ∀ r, effect = .sent r →
    sendsOf r before = 0 ∨ (sendsOf r before = 1 ∧ .answered r (.ok 401) ∈ before)

theorem Renewal.unsent {effects : List (RequestEffect ε)} (h : Renewal r effects) : effects.countP isSent = 0 := by
  rcases h with rfl | ⟨observed, rfl⟩ <;> rfl

theorem turn_sends {trace : List (RequestEffect ε)} (h : Turn c s r stage stage' effects) (hscript : Script r stage (ownOf r trace))
    (htwice : Lib.Always SentTwiceAtMost trace) : Lib.Always SentTwiceAtMost (trace ++ effects) := by
  have hquiet : ∀ effect : RequestEffect ε, isSent effect = false → SentTwiceAtMost trace effect := by
    rintro effect hno r' rfl
    cases hno
  cases h with
  | send =>
    refine htwice.snoc ?_
    rintro r' heq
    cases heq
    generalize hown : ownOf r trace = own at hscript
    cases hscript
    exact .inl (by rw [sendsOf, hown]; rfl)
  | attachAgain =>
    refine htwice.snoc ?_
    rintro r' heq
    cases heq
    generalize hown : ownOf r trace = own at hscript
    cases hscript with
    | renewed hrenewal =>
      refine .inr ⟨?_, ?_⟩
      · rw [sendsOf, hown, List.countP_append, hrenewal.unsent]
        rfl
      · have hmem : .answered r (.ok 401) ∈ ownOf r trace := by simp [hown, rejected]
        exact (List.mem_filter.mp hmem).1
  | attach => rwa [List.append_nil]
  | acquire _ => rwa [List.append_nil]
  | skip _ => rwa [List.append_nil]
  | enter _ => rwa [List.append_nil]
  | drop _ => rwa [List.append_nil]
  | _ => exact htwice.snoc (hquiet _ rfl)

theorem turn_own (h : Turn c s r stage stage' effects) : ∀ effect ∈ effects, effect.of = r := by
  cases h <;> simp [RequestEffect.of]

theorem ownOf_append (r : Nat) (trace effects : List (RequestEffect ε)) :
    ownOf r (trace ++ effects) = ownOf r trace ++ ownOf r effects :=
  List.filter_append ..

theorem ownOf_all {effects : List (RequestEffect ε)} (h : ∀ effect ∈ effects, effect.of = r) :
    ownOf r effects = effects :=
  List.filter_eq_self.mpr fun effect he => decide_eq_true (h effect he)

theorem ownOf_none {effects : List (RequestEffect ε)} (h : ∀ effect ∈ effects, effect.of = r) (hne : r' ≠ r) :
    ownOf r' effects = [] :=
  List.filter_eq_nil_iff.mpr fun effect he => by simpa [h effect he] using hne.symm

/-! ### The coordinator -/

variable {r : Nat} {stage stage' : RequestStage ε}

/-- Epochs in the order of the refreshes, one lock holder, and every request in its place. -/
structure Coordinated (s : Requests ε) : Prop where
  epochs : epochsOf s.trace = (List.range (epochsOf s.trace).length).map (· % 2 ^ 64)
  generation : s.generation = (epochsOf s.trace).length % 2 ^ 64
  timely : ∀ (r : Nat) stage, s.requests[r]? = some stage → Timely (epochsOf s.trace).length stage
  single : ∀ (i j : Nat) a b, s.requests[i]? = some a → s.requests[j]? = some b → a.holdsLock = true →
    b.holdsLock = true → i = j
  script : ∀ (r : Nat) stage, s.requests[r]? = some stage → Script r stage (ownOf r s.trace)
  fresh : ∀ r, s.requests.length ≤ r → ownOf r s.trace = []
  twice : Lib.Always SentTwiceAtMost s.trace

theorem coordinated_init (version : Nat) : Coordinated (init version : Requests ε) where
  epochs := rfl
  generation := rfl
  timely := by
    intro r stage hr
    cases hr
  single := by
    intro i j a b hi
    cases hi
  script := by
    intro r stage hr
    cases hr
  fresh := fun _ _ => rfl
  twice := .nil

/-- A request is where it was put, and the others where they were. -/
theorem lookup_set {requests : List (RequestStage ε)} {stage : RequestStage ε} {i r : Nat}
    (h : (requests.set r stage')[i]? = some stage) :
    (i = r ∧ stage = stage') ∨ (i ≠ r ∧ requests[i]? = some stage) := by
  by_cases hi : i = r
  · subst hi
    obtain ⟨hlength, heq⟩ := List.getElem?_eq_some_iff.mp h
    rw [List.getElem_set_self] at heq
    exact .inl ⟨rfl, heq.symm⟩
  · rw [List.getElem?_set_ne (Ne.symm hi)] at h
    exact .inr ⟨hi, h⟩

theorem lookup_start {requests : List (RequestStage ε)} {stage : RequestStage ε} {i : Nat}
    (h : (requests ++ [.building])[i]? = some stage) :
    (i = requests.length ∧ stage = .building) ∨ requests[i]? = some stage := by
  rcases Nat.lt_or_ge i requests.length with hi | hi
  · rw [List.getElem?_append_left hi] at h
    exact .inr h
  · rw [List.getElem?_append_right hi] at h
    obtain ⟨hlength, heq⟩ := List.getElem?_eq_some_iff.mp h
    have hzero : i = requests.length := by
      simp only [List.length_singleton] at hlength
      omega
    subst hzero
    exact .inl ⟨rfl, by simpa using heq.symm⟩

theorem free_lookup (h : s.free = true) (hr : s.requests[r]? = some stage) : stage.holdsLock = false := by
  have hall := List.all_eq_true.mp h stage (List.mem_of_getElem? hr)
  simpa using hall

theorem single_turn (h : Coordinated s) (hr : s.requests[r]? = some stage)
    (hlock : stage'.holdsLock = true → stage.holdsLock = true ∨ s.free = true) :
    ∀ (i j : Nat) a b, (s.requests.set r stage')[i]? = some a → (s.requests.set r stage')[j]? = some b →
      a.holdsLock = true → b.holdsLock = true → i = j := by
  have hother : ∀ (i : Nat) a, s.requests[i]? = some a → a.holdsLock = true → stage'.holdsLock = true → i = r := by
    intro i a hi ha hnew
    rcases hlock hnew with hold | hfree
    · exact h.single i r a stage hi hr ha hold
    · rw [free_lookup hfree hi] at ha
      cases ha
  intro i j a b hi hj ha hb
  rcases lookup_set hi with ⟨hir, rfl⟩ | ⟨-, hi'⟩
  · rcases lookup_set hj with ⟨hjr, -⟩ | ⟨-, hj'⟩
    · exact hir.trans hjr.symm
    · exact hir.trans (hother j b hj' hb ha).symm
  · rcases lookup_set hj with ⟨hjr, rfl⟩ | ⟨-, hj'⟩
    · exact (hother i a hi' ha hb).trans hjr.symm
    · exact h.single i j a b hi' hj' ha hb

theorem script_turn {effects : List (RequestEffect ε)} (h : Coordinated s) (hr : s.requests[r]? = some stage)
    (hown : ∀ effect ∈ effects, effect.of = r) (hnew : Script r stage' (ownOf r s.trace ++ effects)) :
    ∀ (i : Nat) a, (s.requests.set r stage')[i]? = some a → Script i a (ownOf i (s.trace ++ effects)) := by
  intro i a hi
  rw [ownOf_append]
  rcases lookup_set hi with ⟨rfl, rfl⟩ | ⟨hir, hi⟩
  · rwa [ownOf_all hown]
  · rw [ownOf_none hown hir, List.append_nil]
    exact h.script i a hi

theorem fresh_turn {effects : List (RequestEffect ε)} (h : Coordinated s) (hr : s.requests[r]? = some stage)
    (hown : ∀ effect ∈ effects, effect.of = r) :
    ∀ i, (s.requests.set r stage').length ≤ i → ownOf i (s.trace ++ effects) = [] := by
  intro i hi
  rw [List.length_set] at hi
  have hne : i ≠ r := by
    rintro rfl
    rw [List.getElem?_eq_none hi] at hr
    cases hr
  rw [ownOf_append, h.fresh i hi, ownOf_none hown hne, List.append_nil]

theorem epochsOf_append (trace effects : List (RequestEffect ε)) :
    epochsOf (trace ++ effects) = epochsOf trace ++ epochsOf effects :=
  List.filterMap_append

theorem Coordinated.step (h : Coordinated s) (hs : Moves c s s') : Coordinated s' := by
  cases hs with
  | start =>
    refine ⟨h.epochs, h.generation, ?_, ?_, ?_, ?_, h.twice⟩
    · intro r stage hr
      rcases lookup_start hr with ⟨-, rfl⟩ | hr
      · trivial
      · exact h.timely r stage hr
    · intro i j a b hi hj ha hb
      rcases lookup_start hi with ⟨-, rfl⟩ | hi
      · cases ha
      · rcases lookup_start hj with ⟨-, rfl⟩ | hj
        · cases hb
        · exact h.single i j a b hi hj ha hb
    · intro r stage hr
      rcases lookup_start hr with ⟨rfl, rfl⟩ | hr
      · dsimp only
        rw [h.fresh s.requests.length (le_refl _)]
        exact .building
      · exact h.script r stage hr
    · intro r hr
      rw [List.length_append] at hr
      exact h.fresh r (Nat.le_trans (Nat.le_add_right _ _) hr)
  | turn r hr hturn =>
    rename_i effects
    have hepochs : epochsOf (s.trace ++ effects) = epochsOf s.trace := by
      rw [epochsOf_append, turn_epochs hturn, List.append_nil]
    have hscript := h.script r _ hr
    refine ⟨by rw [hepochs]; exact h.epochs, by rw [hepochs]; exact h.generation, ?_,
      single_turn h hr (turn_lock hturn), script_turn h hr (turn_own hturn) (turn_script hturn hscript),
      fresh_turn h hr (turn_own hturn), turn_sends hturn hscript h.twice⟩
    intro i a hi
    rw [hepochs]
    rcases lookup_set hi with ⟨rfl, rfl⟩ | ⟨-, hi⟩
    · exact turn_timely hturn (h.timely _ _ hr) h.generation
    · exact h.timely i a hi
  | publish r hr =>
    have hscript := h.script r _ hr
    have hnone : ∀ effect ∈ ([] : List (RequestEffect ε)), effect.of = r := by simp
    refine ⟨h.epochs, h.generation, ?_, single_turn h hr fun _ => .inl rfl, ?_, ?_, h.twice⟩
    · intro i a hi
      rcases lookup_set hi with ⟨-, rfl⟩ | ⟨-, hi⟩
      · have hold := h.timely r _ hr
        exact hold
      · exact h.timely i a hi
    · intro i a hi
      rcases lookup_set hi with ⟨rfl, rfl⟩ | ⟨-, hi⟩
      · generalize ownOf i s.trace = own at hscript ⊢
        cases hscript
        exact .refreshing
      · exact h.script i a hi
    · intro i hi
      rw [List.length_set] at hi
      exact h.fresh i hi
  | succeed r hr _ =>
    rename_i credential observed published _
    have hobserved : observed = (epochsOf s.trace).length % 2 ^ 64 := h.timely r _ hr
    have hepochs : epochsOf (s.trace ++ [.refreshed r observed (.ok ())]) = epochsOf s.trace ++ [observed] :=
      epochsOf_append _ _
    have hown : ∀ effect ∈ [RequestEffect.refreshed (ε := ε) r observed (.ok ())], effect.of = r := by
      simp [RequestEffect.of]
    have hscript := h.script r _ hr
    refine ⟨?_, ?_, ?_, single_turn h hr fun hlock => (by cases hlock), script_turn h hr hown ?_,
      fresh_turn h hr hown, ?_⟩
    · dsimp only
      rw [hepochs, List.length_append, List.length_singleton, List.range_succ, List.map_append, ← h.epochs,
        List.map_singleton, hobserved]
    · dsimp only
      rw [hepochs, List.length_append, List.length_singleton, h.generation, wrappingSucc, Nat.mod_add_mod]
    · intro i a hi
      dsimp only
      rw [hepochs, List.length_append, List.length_singleton]
      rcases lookup_set hi with ⟨rfl, rfl⟩ | ⟨hir, hi⟩
      · exact ⟨_, Nat.lt_succ_self _, hobserved⟩
      · refine timely_succ (h.timely i a hi) ?_
        by_contra hholds
        exact hir (h.single i r a _ hi hr (by simpa using hholds) rfl)
    · generalize ownOf r s.trace = own at hscript ⊢
      cases hscript
      exact .renewed (.inr ⟨observed, rfl⟩)
    · refine h.twice.snoc ?_
      intro r' heq
      cases heq
  | rotate => exact ⟨h.epochs, h.generation, h.timely, h.single, h.script, h.fresh, h.twice⟩

theorem run_coordinated {version : Nat} {events : List (RequestEvent ε)}
    (hrun : Lib.Machine.run (step c) (init version) events = some s) : Coordinated s :=
  Lib.Machine.run_invariant (fun _ _ _ h hs => h.step (step_moves hs)) hrun (coordinated_init version)

/-- What coalescing comes to, in any state requests reach. -/
structure Coalesced (c : Refreshing) (s : Requests ε) : Prop where
  once : (epochsOf s.trace).length < 2 ^ 64 → ∀ observed, (epochsOf s.trace).count observed ≤ 1
  counted : (epochsOf s.trace).length < 2 ^ 64 → s.generation = (epochsOf s.trace).length
  renewed : (epochsOf s.trace).length < 2 ^ 64 → ∀ (r : Nat) credential observed skipped,
    s.requests[r]? = some (.renewed credential observed skipped) → observed < s.generation
  resending : (epochsOf s.trace).length < 2 ^ 64 → ∀ (r : Nat) credential observed skipped again,
    s.requests[r]? = some (.resending credential observed skipped again) → observed < s.generation
  fails : ∀ r e s', step c s (.refreshed r (.error e)) = some s' →
    s'.generation = s.generation ∧ s'.requests = s.requests.set r (.done (.error e))
  reported : ∀ r observed e, .refreshed r observed (.error e) ∈ s.trace →
    s.requests[r]? = some (.done (.error e))
  blamed : ∀ (r : Nat) e, s.requests[r]? = some (.done (.error e)) →
    .unattached r e ∈ s.trace ∨ .answered r (.error e) ∈ s.trace ∨
      ∃ observed, .refreshed r observed (.error e) ∈ s.trace
  twice : Lib.Always SentTwiceAtMost s.trace

theorem Coordinated.plain (h : Coordinated s) (hfew : (epochsOf s.trace).length < 2 ^ 64) :
    epochsOf s.trace = List.range (epochsOf s.trace).length := by
  conv_lhs => rw [h.epochs]
  conv_rhs => rw [← List.map_id (List.range _)]
  refine List.map_congr_left ?_
  intro k hk
  exact Nat.mod_eq_of_lt (Nat.lt_trans (List.mem_range.mp hk) hfew)

theorem Coordinated.newer (h : Coordinated s) (hfew : (epochsOf s.trace).length < 2 ^ 64)
    (hpast : ∃ k < (epochsOf s.trace).length, observed = k % 2 ^ 64) : observed < s.generation := by
  obtain ⟨k, hk, rfl⟩ := hpast
  rw [h.generation, Nat.mod_eq_of_lt hfew, Nat.mod_eq_of_lt (Nat.lt_trans hk hfew)]
  exact hk

theorem refreshed_fails (hs : step c s (.refreshed r (.error e)) = some s') :
    s'.generation = s.generation ∧ s'.requests = s.requests.set r (.done (.error e)) := by
  obtain ⟨stage, -, hs⟩ := Option.bind_eq_some_iff.mp hs
  unfold stepRefreshed at hs
  split at hs
  · cases hs
    exact ⟨rfl, rfl⟩
  · cases hs

/-- However requests through the clones of a client interleave, their refreshes are coalesced. -/
theorem refresh_coalescing (c : Refreshing) (version : Nat) (events : List (RequestEvent ε)) (s : Requests ε)
    (hrun : Lib.Machine.run (step c) (init version) events = some s) : Coalesced c s := by
  have h := run_coordinated hrun
  have hown : ∀ (r : Nat) effect, effect ∈ s.trace → effect.of = r → effect ∈ ownOf r s.trace :=
    fun r effect hmem hof => List.mem_filter.mpr ⟨hmem, decide_eq_true hof⟩
  constructor
  · intro hfew observed
    rw [h.plain hfew]
    exact List.nodup_iff_count_le_one.mp List.nodup_range observed
  · intro hfew
    exact h.generation.trans (Nat.mod_eq_of_lt hfew)
  · intro hfew r credential observed skipped hr
    exact h.newer hfew (h.timely r _ hr)
  · intro hfew r credential observed skipped again hr
    exact h.newer hfew (h.timely r _ hr)
  · intro r e s' hs
    exact refreshed_fails hs
  · intro r observed e hfailed
    have hmem := hown r _ hfailed rfl
    cases hr : s.requests[r]? with
    | none =>
      rw [h.fresh r (List.getElem?_eq_none_iff.mp hr)] at hmem
      cases hmem
    | some stage => rw [(h.script r stage hr).reported hmem]
  · intro r e hr
    have hfrom : ∀ effect ∈ ownOf r s.trace, effect ∈ s.trace := fun effect he => (List.mem_filter.mp he).1
    rcases (h.script r _ hr).blamed with hmem | hmem | ⟨observed, hmem⟩
    · exact .inl (hfrom _ hmem)
    · exact .inr (.inl (hfrom _ hmem))
    · exact .inr (.inr ⟨observed, hfrom _ hmem⟩)
  · exact h.twice

/-- A request that is rejected once and refreshes. -/
def refreshCycle (r : Nat) : List (RequestEvent ε) :=
  [.start, .attach r (.ok ()), .send r, .answer r (.ok 401), .acquire r, .compare r, .publish r,
    .refreshed r (.ok ()), .drop r]

theorem run_refreshCycle (s : Requests ε) (hfree : s.free = true) :
    Lib.Machine.run (step ⟨true, true⟩) s (refreshCycle s.requests.length) =
      some ⟨s.version + 1, wrappingSucc s.generation, s.requests ++ [.dropped],
        s.trace ++ [.sent s.requests.length, .answered s.requests.length (.ok 401),
          .refreshed s.requests.length s.generation (.ok ())]⟩ := by
  have hlast : ∀ a b : RequestStage ε, (s.requests ++ [a]).set s.requests.length b = s.requests ++ [b] := by
    intro a b
    simp
  have hwaits : ∀ trace credential, free ⟨s.version, s.generation,
      s.requests ++ [.waiting credential s.generation], trace⟩ = true := by
    intro trace credential
    rw [free, List.all_append, Bool.and_eq_true]
    exact ⟨hfree, rfl⟩
  simp [refreshCycle, Lib.Machine.run, step, stepAttach, stepAnswer, stepRefreshed, goto, emit, authorizationHeader,
    hlast, hwaits, RequestStage.isOver]

theorem refresh_cycles (n : Nat) : ∃ (events : List (RequestEvent Unit)) (s : Requests Unit),
    Lib.Machine.run (step ⟨true, true⟩) (init 0) events = some s ∧ s.free = true ∧
      (epochsOf s.trace).length = n := by
  induction n with
  | zero => exact ⟨[], init 0, rfl, rfl, rfl⟩
  | succ n ih =>
    obtain ⟨events, s, hrun, hfree, hlength⟩ := ih
    have hall := Lib.Machine.run_append_bind (step ⟨true, true⟩) (init 0) events
      (refreshCycle s.requests.length)
    rw [hrun] at hall
    refine ⟨_, _, hall.trans (run_refreshCycle s hfree), ?_, ?_⟩
    · unfold free at hfree ⊢
      rw [List.all_append, hfree]
      rfl
    · rw [epochsOf_append, List.length_append, hlength]
      rfl

/-- After 2 ^ 64 refreshes the generation is 0 again. -/
theorem refresh_coalescing_wraps : ¬ ∀ (c : Refreshing) (version : Nat) (events : List (RequestEvent Unit))
    (s : Requests Unit), Lib.Machine.run (step c) (init version) events = some s →
      s.generation = (epochsOf s.trace).length := by
  intro hclaim
  obtain ⟨events, s, hrun, -, hlength⟩ := refresh_cycles (2 ^ 64)
  have hequal := hclaim _ _ events s hrun
  rw [(run_coordinated hrun).generation, hlength] at hequal
  exact absurd hequal (by decide)

theorem refresh_coalescing_one : ∃ s : Requests Unit,
    Lib.Machine.run (step ⟨true, true⟩) (init 0) (refreshCycle 0) = some s ∧ Coalesced ⟨true, true⟩ s ∧
      (epochsOf s.trace).length < 2 ^ 64 := by
  have hrun := run_refreshCycle (init 0 : Requests Unit) rfl
  exact ⟨_, hrun, refresh_coalescing _ 0 (refreshCycle 0) _ hrun, by decide⟩

end Requests
end Aviso.Client
