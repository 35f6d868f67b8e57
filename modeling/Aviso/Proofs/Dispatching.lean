import Aviso.Watch.Dispatch

namespace Aviso.Watch

/-- Whether the retry loop goes on after a result, if the budget allows. -/
def Trigger.retriesAfter (t : Trigger) : Except TriggerError Unit → Bool
  | .ok () => false
  | .error err => !t.isTerminalError err

/-- The results so far leave the trigger another attempt. -/
def Trigger.Pending (t : Trigger) (results : List (Except TriggerError Unit)) : Prop :=
  (∀ r ∈ results, t.retriesAfter r = true) ∧ results.length ≤ t.retries

/-- The last result is a success, a terminal error, or the end of the budget. -/
def Trigger.Settled (t : Trigger) (results : List (Except TriggerError Unit)) : Prop :=
  ∃ before last, results = before ++ [last] ∧ t.Pending before ∧
    (t.retriesAfter last = true → before.length = t.retries)

def Succeeded (results : List (Except TriggerError Unit)) : Prop := results.getLast? = some (.ok ())

namespace Dispatch

section Log

/-- The trigger an event is about. -/
def indexOf : DispatchEvent → Nat
  | .attempted i _ | .cancelled i => i

/-- The results of the attempts of one trigger, in order. -/
def attemptsOf (log : List DispatchEvent) (i : Nat) : List (Except TriggerError Unit) :=
  log.filterMap fun
    | .attempted j result => if j = i then some result else none
    | .cancelled _ => none

def Uncancelled (log : List DispatchEvent) : Prop := ∀ i, .cancelled i ∉ log

variable {log : List DispatchEvent} {e : DispatchEvent}

theorem attemptsOf_attempted (log : List DispatchEvent) (i : Nat) (r : Except TriggerError Unit) :
    attemptsOf (log ++ [.attempted i r]) i = attemptsOf log i ++ [r] := by
  simp [attemptsOf]

theorem attemptsOf_cancelled (log : List DispatchEvent) (i j : Nat) :
    attemptsOf (log ++ [.cancelled i]) j = attemptsOf log j := by
  simp [attemptsOf]

theorem attemptsOf_other (h : indexOf e ≠ j) : attemptsOf (log ++ [e]) j = attemptsOf log j := by
  cases e with
  | attempted i r => simpa [attemptsOf, indexOf] using h
  | cancelled i => exact attemptsOf_cancelled log i j

theorem mem_of_attemptsOf (h : attemptsOf log i ≠ []) : ∃ r, .attempted i r ∈ log := by
  obtain ⟨r, hr⟩ := List.exists_mem_of_ne_nil _ h
  obtain ⟨e, he, hsome⟩ := List.mem_filterMap.mp hr
  cases e with
  | attempted j r' =>
    obtain ⟨rfl, -⟩ := Option.ite_none_right_eq_some.mp hsome
    exact ⟨r', he⟩
  | cancelled j => cases hsome

theorem Uncancelled.attempted (h : Uncancelled log) (i : Nat) (r : Except TriggerError Unit) :
    Uncancelled (log ++ [.attempted i r]) := by
  intro j hj
  simp [h j] at hj

end Log

section Budget

/-- The steps a dispatch of these triggers may take. -/
def budget (triggers : List Trigger) : Nat := (triggers.map fun t => 2 * (t.retries + 1)).sum

/-- The steps that remain. -/
def remaining (triggers : List Trigger) : DispatchStage → Nat
  | .probing i => budget (triggers.drop i)
  | .attempting i attempt => budget (triggers.drop i) - (2 * attempt + 1)
  | .backingOff i attempt => budget (triggers.drop i) - (2 * attempt + 2)
  | .done _ => 0

theorem budget_drop {triggers : List Trigger} (h : triggers[i]? = some t) :
    budget (triggers.drop i) = 2 * (t.retries + 1) + budget (triggers.drop (i + 1)) := by
  obtain ⟨hi, rfl⟩ := List.getElem?_eq_some_iff.mp h
  rw [List.drop_eq_getElem_cons hi, budget, budget, List.map_cons, List.sum_cons]

theorem remaining_enter (triggers : List Trigger) (i : Nat) :
    remaining triggers (enter triggers i) ≤ budget (triggers.drop i) := by
  unfold enter
  split
  · exact le_refl _
  · exact Nat.zero_le _

end Budget

/-- What a dispatch did, whatever the attempts returned and whenever it was cancelled. -/
structure Lawful (triggers : List Trigger) (d : Dispatch) : Prop where
  inOrder : (d.log.map indexOf).Pairwise (· ≤ ·)
  bounded : ∀ i t, triggers[i]? = some t → (attemptsOf d.log i).length ≤ t.retries + 1
  retried : ∀ i t, triggers[i]? = some t → ∀ r ∈ (attemptsOf d.log i).dropLast, t.retriesAfter r = true
  spent : ∀ i t, triggers[i]? = some t → attemptsOf d.log i ≠ [] →
    t.Settled (attemptsOf d.log i) ∨ .cancelled i ∈ d.log ∨
      ∃ attempt, d.stage = .attempting i attempt ∨ d.stage = .backingOff i attempt
  halted : ∀ i t, triggers[i]? = some t → t.required = true → ∀ j, i < j →
    attemptsOf d.log j ≠ [] → Succeeded (attemptsOf d.log i)
  attempted : ∀ result, d.stage = .done result → ∀ i < triggers.length, attemptsOf d.log i = [] →
    (∃ j t, j < i ∧ triggers[j]? = some t ∧ t.required = true ∧ t.Settled (attemptsOf d.log j) ∧
      ¬ Succeeded (attemptsOf d.log j)) ∨
    ∃ j ≤ i, .cancelled j ∈ d.log
  exact : ∀ result, d.stage = .done result → (result = .ok () ↔
    (∀ i t, triggers[i]? = some t → t.required = true → Succeeded (attemptsOf d.log i)) ∧
      Uncancelled d.log)

section Standing

/-- The triggers before the i-th are done with, and those after it untouched. -/
structure Upto (triggers : List Trigger) (log : List DispatchEvent) (i : Nat) : Prop where
  inOrder : (log.map indexOf).Pairwise (· ≤ ·)
  below : ∀ e ∈ log, indexOf e ≤ i
  before : ∀ j t, j < i → triggers[j]? = some t →
    t.Settled (attemptsOf log j) ∧ (t.required = true → Succeeded (attemptsOf log j))

/-- Where a dispatch stands with the i-th trigger. -/
inductive Standing (triggers : List Trigger) : DispatchStage → List DispatchEvent → Nat → Prop
  | probing {log : List DispatchEvent} (ht : triggers[i]? = some t) (hnone : attemptsOf log i = []) (hlog : Uncancelled log) :
    Standing triggers (.probing i) log i
  | attempting {log : List DispatchEvent} (ht : triggers[i]? = some t) (hpending : t.Pending (attemptsOf log i))
      (hattempt : (attemptsOf log i).length = attempt) (hlog : Uncancelled log) :
    Standing triggers (.attempting i attempt) log i
  | backingOff {log : List DispatchEvent} (ht : triggers[i]? = some t) (hpending : t.Pending (attemptsOf log i))
      (hattempt : (attemptsOf log i).length = attempt + 1) (hlog : Uncancelled log) :
    Standing triggers (.backingOff i attempt) log i
  | cancelled {log : List DispatchEvent} (ht : triggers[i]? = some t) (hpending : t.Pending (attemptsOf log i))
      (hlog : .cancelled i ∈ log) : Standing triggers (.done (.error .cancelled)) log i
  | failed {log : List DispatchEvent} (ht : triggers[i]? = some t) (hrequired : t.required = true)
      (hsettled : t.Settled (attemptsOf log i)) (hfailed : ¬ Succeeded (attemptsOf log i)) :
    Standing triggers (.done (.error (.requiredFailed t.label err))) log i
  | finished {log : List DispatchEvent} (hi : triggers.length ≤ i) (hlog : Uncancelled log) :
    Standing triggers (.done (.ok ())) log i

def Stands (triggers : List Trigger) (d : Dispatch) : Prop :=
  ∃ i, Upto triggers d.log i ∧ Standing triggers d.stage d.log i

variable {triggers : List Trigger} {log : List DispatchEvent} {t : Trigger}

theorem Upto.note (h : Upto triggers log i) (he : indexOf e = i) : Upto triggers (log ++ [e]) i where
  inOrder := by
    rw [List.map_append, List.pairwise_append]
    refine ⟨h.inOrder, List.pairwise_singleton _ _, ?_⟩
    simp only [List.mem_map, List.map_singleton, List.mem_singleton]
    rintro _ ⟨e', he', rfl⟩ _ rfl
    rw [he]
    exact h.below e' he'
  below := by
    intro e' he'
    rcases List.mem_append.mp he' with hmem | hmem
    · exact h.below e' hmem
    · rw [List.mem_singleton.mp hmem, he]
  before := by
    intro j t hj ht
    rw [attemptsOf_other (by omega)]
    exact h.before j t hj ht

theorem Upto.next (h : Upto triggers log i) (ht : triggers[i]? = some t)
    (hsettled : t.Settled (attemptsOf log i)) (hrequired : t.required = true → Succeeded (attemptsOf log i)) :
    Upto triggers log (i + 1) where
  inOrder := h.inOrder
  below := fun e he => Nat.le_succ_of_le (h.below e he)
  before := by
    intro j t' hj ht'
    rcases Nat.lt_succ_iff_lt_or_eq.mp hj with hlt | rfl
    · exact h.before j t' hlt ht'
    · cases ht.symm.trans ht'
      exact ⟨hsettled, hrequired⟩

theorem Upto.untouched (h : Upto triggers log i) (hj : i < j) : attemptsOf log j = [] := by
  by_contra hne
  obtain ⟨r, hr⟩ := mem_of_attemptsOf hne
  exact absurd (h.below _ hr) (Nat.not_le.mpr hj)

/-- The loop over the triggers goes on to the next one. -/
theorem Upto.enter (h : Upto triggers log i) (ht : triggers[i]? = some t)
    (hsettled : t.Settled (attemptsOf log i)) (hrequired : t.required = true → Succeeded (attemptsOf log i))
    (hlog : Uncancelled log) : Stands triggers ⟨Dispatch.enter triggers (i + 1), log⟩ := by
  refine ⟨i + 1, h.next ht hsettled hrequired, ?_⟩
  unfold Dispatch.enter
  split
  · rename_i hi
    exact .probing (List.getElem?_eq_getElem hi) (h.untouched (Nat.lt_succ_self i)) hlog
  · exact .finished (by omega) hlog

theorem stands_start (triggers : List Trigger) : Stands triggers (start triggers) := by
  refine ⟨0, ⟨List.Pairwise.nil, nofun, nofun⟩, ?_⟩
  unfold start enter
  split
  · rename_i hi
    exact .probing (List.getElem?_eq_getElem hi) rfl nofun
  · exact .finished (by omega) nofun

theorem settled_success (hpending : t.Pending results) : t.Settled (results ++ [.ok ()]) :=
  ⟨results, .ok (), rfl, hpending, nofun⟩

theorem settled_failure (hpending : t.Pending results)
    (hfinal : t.isTerminalError err = true ∨ t.retries ≤ results.length) : t.Settled (results ++ [.error err]) := by
  refine ⟨results, .error err, rfl, hpending, ?_⟩
  intro hretries
  rcases hfinal with hterminal | hspent
  · simp [Trigger.retriesAfter, hterminal] at hretries
  · exact le_antisymm hpending.2 hspent

theorem failed_last (results : List (Except TriggerError Unit)) (err : TriggerError) :
    ¬ Succeeded (results ++ [.error err]) := by
  simp [Succeeded]

/-- One attempt of the trigger at hand returns. -/
theorem stands_attempted (h : Upto triggers log i) (ht : triggers[i]? = some t)
    (hpending : t.Pending (attemptsOf log i)) (hlog : Uncancelled log) (r : Except TriggerError Unit) :
    Stands triggers ⟨afterAttempt triggers t i (attemptsOf log i).length r, log ++ [.attempted i r]⟩ := by
  have hupto : Upto triggers (log ++ [.attempted i r]) i := h.note rfl
  have hattempts := attemptsOf_attempted log i r
  have hlog' := hlog.attempted i r
  cases r with
  | ok u =>
    refine hupto.enter ht ?_ ?_ hlog'
    · rw [hattempts]
      exact settled_success hpending
    · intro _
      rw [hattempts, Succeeded, List.getLast?_concat]
  | error err =>
    simp only [afterAttempt]
    split
    · rename_i hfinal
      have hsettled : t.Settled (attemptsOf (log ++ [.attempted i (.error err)]) i) := by
        rw [hattempts]
        exact settled_failure hpending (by simpa using hfinal)
      split
      · rename_i hrequired
        refine ⟨i, hupto, .failed ht hrequired hsettled ?_⟩
        rw [hattempts]
        exact failed_last _ err
      · rename_i hoptional
        exact hupto.enter ht hsettled (fun hrequired => absurd hrequired hoptional) hlog'
    · rename_i hgoes
      obtain ⟨hterminal, hspent⟩ : t.isTerminalError err = false ∧ (attemptsOf log i).length < t.retries := by
        simpa using hgoes
      refine ⟨i, hupto, .backingOff ht ?_ (by rw [hattempts, List.length_append]; rfl) hlog'⟩
      rw [hattempts]
      constructor
      · intro r hr
        rcases List.mem_append.mp hr with hmem | hmem
        · exact hpending.1 r hmem
        · cases List.mem_singleton.mp hmem
          simp [Trigger.retriesAfter, hterminal]
      · rw [List.length_append]
        exact hspent

theorem stands_cancelled (h : Upto triggers log i) (ht : triggers[i]? = some t)
    (hpending : t.Pending (attemptsOf log i)) :
    Stands triggers ⟨.done (.error .cancelled), log ++ [.cancelled i]⟩ := by
  refine ⟨i, h.note rfl, .cancelled ht ?_ (by simp)⟩
  rw [attemptsOf_cancelled]
  exact hpending

theorem pending_nil (t : Trigger) : t.Pending [] := ⟨nofun, Nat.zero_le _⟩

end Standing

section Steps

variable {triggers : List Trigger} {t : Trigger}

theorem remaining_afterAttempt (ht : triggers[i]? = some t) (hattempt : attempt ≤ t.retries)
    (r : Except TriggerError Unit) :
    remaining triggers (afterAttempt triggers t i attempt r) < remaining triggers (.attempting i attempt) := by
  have hdrop := budget_drop ht
  have hnext := remaining_enter triggers (i + 1)
  have hhere : remaining triggers (.attempting i attempt) = budget (triggers.drop i) - (2 * attempt + 1) := rfl
  cases r with
  | ok u =>
    simp only [afterAttempt]
    omega
  | error err =>
    simp only [afterAttempt]
    split
    · split
      · simp only [remaining]
        omega
      · omega
    · rename_i hgoes
      have hspent : attempt < t.retries := by
        simp only [Bool.or_eq_true, decide_eq_true_eq, not_or] at hgoes
        omega
      simp only [remaining]
      omega

/-- A step leaves the dispatch in good standing, with less to do. -/
theorem stands_step (hretries : ∀ t ∈ triggers, t.retries ≤ 2 ^ 32 - 1) (d : Dispatch) (input : DispatchInput)
    (d' : Dispatch) (h : Stands triggers d) (hstep : step triggers d input = some d') :
    Stands triggers d' ∧ remaining triggers d'.stage < remaining triggers d.stage := by
  obtain ⟨stage, log⟩ := d
  obtain ⟨i, hupto, hstanding⟩ := h
  dsimp only at hupto hstanding
  cases hstanding with
  | @probing _ t _ ht hnone hlog =>
    have hdrop := budget_drop ht
    have hpending : t.Pending (attemptsOf log i) := hnone ▸ pending_nil t
    cases input with
    | probe cancelled =>
      cases cancelled with
      | true =>
        cases hstep
        refine ⟨stands_cancelled hupto ht hpending, ?_⟩
        simp only [cancel, goto, remaining]
        omega
      | false =>
        cases hstep
        have hfirst : (attemptsOf log i).length = 0 := by rw [hnone, List.length_nil]
        refine ⟨⟨i, hupto, .attempting ht hpending hfirst hlog⟩, ?_⟩
        simp only [goto, remaining]
        omega
    | _ => cases hstep
  | @attempting _ t attempt _ ht hpending hattempt hlog =>
    cases input with
    | attempt r =>
      simp only [step, ht, Option.map_some, Option.some.injEq] at hstep
      subst hstep hattempt
      exact ⟨stands_attempted hupto ht hpending hlog r, remaining_afterAttempt ht hpending.2 r⟩
    | _ => cases hstep
  | @backingOff _ t attempt _ ht hpending hattempt hlog =>
    have hdrop := budget_drop ht
    have hspent : attempt + 1 ≤ t.retries := hattempt ▸ hpending.2
    cases input with
    | cancelled =>
      cases hstep
      refine ⟨stands_cancelled hupto ht hpending, ?_⟩
      simp only [cancel, goto, remaining]
      omega
    | slept =>
      cases hstep
      have hsucc : saturatingSucc32 attempt = attempt + 1 := by
        have hmax := hretries t (List.mem_of_getElem? ht)
        exact min_eq_left (by omega)
      rw [hsucc]
      refine ⟨⟨i, hupto, .attempting ht hpending hattempt hlog⟩, ?_⟩
      simp only [goto, remaining]
      omega
    | _ => cases hstep
  | _ => cases hstep

theorem step_awaits (h : Stands triggers d) (input : DispatchInput) :
    (step triggers d input).isSome = d.stage.awaits input := by
  obtain ⟨stage, log⟩ := d
  obtain ⟨i, hupto, hstanding⟩ := h
  dsimp only at hstanding
  cases hstanding with
  | attempting ht => cases input <;> simp [step, DispatchStage.awaits, ht]
  | probing =>
    cases input with
    | probe cancelled => cases cancelled <;> rfl
    | _ => rfl
  | _ => cases input <;> rfl

theorem run_stands (hretries : ∀ t ∈ triggers, t.retries ≤ 2 ^ 32 - 1)
    (h : Lib.Machine.run (step triggers) (start triggers) inputs = some d) :
    Stands triggers d ∧ inputs.length ≤ budget triggers := by
  have hstands : Stands triggers d :=
    Lib.Machine.run_invariant (fun s e s' hs he => (stands_step hretries s e s' hs he).1) h (stands_start triggers)
  have hbound := Lib.Machine.run_bounded (fun d => remaining triggers d.stage) (stands_step hretries) h
    (stands_start triggers)
  have hstart : remaining triggers (start triggers).stage ≤ budget triggers := remaining_enter triggers 0
  exact ⟨hstands, by omega⟩

end Steps

section Laws

variable {triggers : List Trigger} {log : List DispatchEvent} {stage : DispatchStage} {t : Trigger}
  {results : List (Except TriggerError Unit)}

theorem settled_ne_nil (h : t.Settled results) : results ≠ [] := by
  obtain ⟨before, last, rfl, -⟩ := h
  simp

theorem standing_results (hupto : Upto triggers log i) (hstanding : Standing triggers stage log i)
    (ht : triggers[j]? = some t) : t.Settled (attemptsOf log j) ∨ t.Pending (attemptsOf log j) := by
  rcases Nat.lt_trichotomy j i with hlt | rfl | hgt
  · exact .inl (hupto.before j t hlt ht).1
  · cases hstanding with
    | probing _ hnone => exact .inr (hnone ▸ pending_nil t)
    | attempting ht' hpending | backingOff ht' hpending | cancelled ht' hpending =>
      cases ht.symm.trans ht'
      exact .inr hpending
    | failed ht' _ hsettled =>
      cases ht.symm.trans ht'
      exact .inl hsettled
    | finished hi =>
      rw [List.getElem?_eq_none hi] at ht
      cases ht
  · exact .inr (hupto.untouched hgt ▸ pending_nil t)

theorem length_le (h : t.Settled results ∨ t.Pending results) : results.length ≤ t.retries + 1 := by
  rcases h with ⟨before, last, rfl, hpending, -⟩ | hpending
  · rw [List.length_append]
    exact Nat.succ_le_succ hpending.2
  · exact Nat.le_succ_of_le hpending.2

theorem dropLast_retried (h : t.Settled results ∨ t.Pending results) :
    ∀ r ∈ results.dropLast, t.retriesAfter r = true := by
  rcases h with ⟨before, last, rfl, hpending, -⟩ | hpending
  · rw [List.dropLast_concat]
    exact hpending.1
  · exact fun r hr => hpending.1 r (List.mem_of_mem_dropLast hr)

theorem Stands.lawful (h : Stands triggers d) : Lawful triggers d := by
  obtain ⟨stage, log⟩ := d
  obtain ⟨i, hupto, hstanding⟩ := h
  dsimp only at hupto hstanding
  constructor <;> dsimp only
  case inOrder => exact hupto.inOrder
  case bounded => exact fun j t ht => length_le (standing_results hupto hstanding ht)
  case retried => exact fun j t ht => dropLast_retried (standing_results hupto hstanding ht)
  case spent =>
    intro j t ht hne
    rcases Nat.lt_trichotomy j i with hlt | rfl | hgt
    · exact .inl (hupto.before j t hlt ht).1
    · cases hstanding with
      | probing _ hnone => exact absurd hnone hne
      | attempting => exact .inr (.inr ⟨_, .inl rfl⟩)
      | backingOff => exact .inr (.inr ⟨_, .inr rfl⟩)
      | cancelled _ _ hlog => exact .inr (.inl hlog)
      | failed ht' _ hsettled =>
        cases ht.symm.trans ht'
        exact .inl hsettled
      | finished hi =>
        rw [List.getElem?_eq_none hi] at ht
        cases ht
    · exact absurd (hupto.untouched hgt) hne
  case halted =>
    intro j t ht hrequired k hjk hne
    obtain ⟨r, hr⟩ := mem_of_attemptsOf hne
    have hk : k ≤ i := hupto.below _ hr
    exact (hupto.before j t (by omega) ht).2 hrequired
  case attempted =>
    intro result hdone j hj hnone
    have hpast : ¬ j < i := by
      intro hlt
      exact settled_ne_nil (hupto.before j _ hlt (List.getElem?_eq_getElem hj)).1 hnone
    cases hstanding with
    | cancelled _ _ hlog => exact .inr ⟨i, by omega, hlog⟩
    | @failed _ t _ _ ht hrequired hsettled hfailed =>
      have hne : j ≠ i := by
        rintro rfl
        exact settled_ne_nil hsettled hnone
      exact .inl ⟨i, t, by omega, ht, hrequired, hsettled, hfailed⟩
    | finished hi => omega
    | _ => cases hdone
  case exact =>
    intro result hdone
    cases hstanding with
    | cancelled _ _ hlog =>
      cases hdone
      exact iff_of_false nofun fun h => h.2 i hlog
    | @failed _ t _ _ ht hrequired _ hfailed =>
      cases hdone
      exact iff_of_false nofun fun h => hfailed (h.1 i t ht hrequired)
    | finished hi hlog =>
      cases hdone
      refine iff_of_true rfl ⟨?_, hlog⟩
      intro j t ht hrequired
      obtain ⟨hj, -⟩ := List.getElem?_eq_some_iff.mp ht
      exact (hupto.before j t (by omega) ht).2 hrequired
    | _ => cases hdone

end Laws

section Later

variable {triggers : List Trigger} {log : List DispatchEvent} {t : Trigger}

/-- Where a dispatch is, and what it did after its first `n` events. -/
def since (n : Nat) (d : Dispatch) : DispatchStage × List DispatchEvent := (d.stage, d.log.drop n)

def prepend (log : List DispatchEvent) (d : Dispatch) : Dispatch := { d with log := log ++ d.log }

/-- A step does not depend on what was done before. -/
theorem step_prepend (triggers : List Trigger) (log : List DispatchEvent) (d : Dispatch) (input : DispatchInput) :
    step triggers (d.prepend log) input = (step triggers d input).map (prepend log) := by
  obtain ⟨stage, log'⟩ := d
  have hlog : ∀ e, log ++ log' ++ [e] = log ++ (log' ++ [e]) := fun e => List.append_assoc log log' [e]
  cases stage with
  | attempting i attempt =>
    cases input with
    | attempt r =>
      cases ht : triggers[i]? <;> simp [step, prepend, note, goto, ht]
    | _ => rfl
  | probing i =>
    cases input with
    | probe cancelled => cases cancelled <;> simp [step, prepend, note, goto, cancel]
    | _ => rfl
  | backingOff i attempt => cases input <;> simp [step, prepend, note, goto, cancel]
  | done result => rfl

theorem run_prepend (triggers : List Trigger) (log : List DispatchEvent) (d : Dispatch) (inputs : List DispatchInput) :
    Lib.Machine.run (step triggers) (d.prepend log) inputs =
      (Lib.Machine.run (step triggers) d inputs).map (prepend log) := by
  induction inputs generalizing d with
  | nil => rfl
  | cons input inputs ih =>
    simp only [Lib.Machine.run, step_prepend]
    cases step triggers d input with
    | none => rfl
    | some mid => exact ih mid

theorem run_since (triggers : List Trigger) (log : List DispatchEvent) (stage : DispatchStage)
    (inputs : List DispatchInput) :
    (Lib.Machine.run (step triggers) ⟨stage, log⟩ inputs).map (since log.length) =
      (Lib.Machine.run (step triggers) ⟨stage, []⟩ inputs).map fun d => (d.stage, d.log) := by
  have hprepend := run_prepend triggers log ⟨stage, []⟩ inputs
  rw [prepend, List.append_nil] at hprepend
  rw [hprepend, Option.map_map]
  congr 1
  funext d
  simp [since, prepend]

/-- Where an optional trigger's last attempt leads, and what is done from there on. -/
theorem run_optional (ht : triggers[i]? = some t)
    (hbefore : Lib.Machine.run (step triggers) (start triggers) before = some ⟨.attempting i attempt, log⟩)
    (r : Except TriggerError Unit) (hlast : afterAttempt triggers t i attempt r = enter triggers (i + 1))
    (after : List DispatchInput) :
    (Lib.Machine.run (step triggers) (start triggers) (before ++ .attempt r :: after)).map (since (log.length + 1)) =
      (Lib.Machine.run (step triggers) ⟨enter triggers (i + 1), []⟩ after).map fun d => (d.stage, d.log) := by
  have hstep : step triggers ⟨.attempting i attempt, log⟩ (.attempt r) =
      some ⟨enter triggers (i + 1), log ++ [.attempted i r]⟩ := by
    simp [step, ht, note, goto, hlast]
  have hlength : (log ++ [DispatchEvent.attempted i r]).length = log.length + 1 := by simp
  rw [Lib.Machine.run_append_bind, hbefore, Option.bind_some, Lib.Machine.run, hstep, Option.bind_some, ← hlength,
    run_since]

end Later

/-- A dispatch keeps its contract, ends within its budget, and goes on after an optional
trigger's failure as after its success. -/
theorem dispatch_law (triggers : List Trigger) (hretries : ∀ t ∈ triggers, t.retries ≤ 2 ^ 32 - 1) :
    (∀ inputs d, Lib.Machine.run (step triggers) (start triggers) inputs = some d →
      Lawful triggers d ∧ inputs.length ≤ budget triggers ∧
        ∀ input, (step triggers d input).isSome = d.stage.awaits input) ∧
    ∀ before i attempt log t err,
      Lib.Machine.run (step triggers) (start triggers) before = some ⟨.attempting i attempt, log⟩ →
      triggers[i]? = some t → t.required = false → t.isTerminalError err = true ∨ t.retries ≤ attempt →
      ∀ after,
        (Lib.Machine.run (step triggers) (start triggers) (before ++ .attempt (.error err) :: after)).map
            (since (log.length + 1)) =
          (Lib.Machine.run (step triggers) (start triggers) (before ++ .attempt (.ok ()) :: after)).map
            (since (log.length + 1)) := by
  constructor
  · intro inputs d hrun
    obtain ⟨hstands, hbound⟩ := run_stands hretries hrun
    exact ⟨hstands.lawful, hbound, step_awaits hstands⟩
  · intro before i attempt log t err hbefore ht hoptional hlast after
    have hfails : afterAttempt triggers t i attempt (.error err) = enter triggers (i + 1) := by
      simp only [afterAttempt, hoptional, Bool.false_eq_true, if_false]
      rw [if_pos (by simpa using hlast)]
    rw [run_optional ht hbefore _ hfails, run_optional ht hbefore (.ok ()) rfl]

/-- A terminal failure of an optional trigger, then a required one that is retried. -/
theorem dispatch_law_optional :
    let triggers : List Trigger := [⟨"command", 0, false, true⟩, ⟨"webhook", 1, true, true⟩]
    Lawful triggers ⟨.done (.ok ()),
      [.attempted 0 (.error .command), .attempted 1 (.error .timeout), .attempted 1 (.ok ())]⟩ := by
  let triggers : List Trigger := [⟨"command", 0, false, true⟩, ⟨"webhook", 1, true, true⟩]
  have hrun : Lib.Machine.run (step triggers) (start triggers)
      [.probe false, .attempt (.error .command), .probe false, .attempt (.error .timeout), .slept,
        .attempt (.ok ())] =
      some ⟨.done (.ok ()),
        [.attempted 0 (.error .command), .attempted 1 (.error .timeout), .attempted 1 (.ok ())]⟩ := by decide
  exact ((dispatch_law triggers (by decide)).1 _ _ hrun).1

section Supervisor

variable {conn : Connection} {chunk : Chunk} {n : Notification}

/-- The stage of the supervisor while a dispatch for `n` is at `stage`. -/
def within (conn : Connection) (chunk : Chunk) (n : Notification) : DispatchStage → Stage
  | .probing i => .dispatching conn chunk n i
  | .attempting i attempt => .attempting conn chunk n i attempt
  | .backingOff i attempt => .backingOff conn chunk n i attempt
  | .done (.ok ()) => .sending conn chunk n
  | .done (.error .cancelled) => .ended .cancelled
  | .done (.error (.requiredFailed kind source)) => .reporting (.triggerFailed kind source) .stopRequested

def inputOf : Input → Option DispatchInput
  | .probe cancelled => some (.probe cancelled)
  | .attempt result => some (.attempt result)
  | .slept => some .slept
  | .cancelled => some .cancelled
  | _ => none

def effectOf : DispatchEvent → Option Effect
  | .attempted i result => some (.attempted i result)
  | .cancelled _ => none

theorem enter_within (c : Setup) (s : System) (conn : Connection) (chunk : Chunk) (n : Notification) (i : Nat) :
    s.nextTrigger c conn chunk n i = s.goto (within conn chunk n (enter c.request.triggers i)) := by
  unfold System.nextTrigger enter
  split <;> rfl

theorem start_within (c : Setup) (s : System) (conn : Connection) (chunk : Chunk) (n : Notification) :
    s.beginDispatch c conn chunk n =
      (s.emit (.dispatched n)).goto (within conn chunk n (start c.request.triggers).stage) :=
  enter_within c _ conn chunk n 0

/-- The supervisor runs a dispatch step by step. -/
theorem step_within (c : Setup) (s : System) (d : DispatchStage) (hs : s.stage = within conn chunk n d)
    (hd : ∀ result, d ≠ .done result) (input : Input) :
    s.stepStage c input =
      (inputOf input).bind fun input =>
        (step c.request.triggers ⟨d, []⟩ input).map fun d' =>
          { s with stage := within conn chunk n d'.stage, trace := s.trace ++ d'.log.filterMap effectOf } := by
  cases d with
  | probing i =>
    simp only [System.stepStage, hs, within]
    cases input with
    | probe cancelled =>
      cases cancelled <;>
        simp [System.stepDispatching, inputOf, step, System.close, System.goto, cancel, note, goto, effectOf]
    | _ => rfl
  | attempting i attempt =>
    simp only [System.stepStage, hs, within]
    cases input with
    | attempt r =>
      cases ht : c.request.triggers[i]? with
      | none => simp [System.stepAttempting, inputOf, step, ht]
      | some t =>
        simp only [System.stepAttempting, inputOf, step, ht, Option.map_some, Option.bind_some, enter_within]
        cases r with
        | ok u => rfl
        | error err =>
          simp only [afterAttempt]
          split
          · split <;> rfl
          · rfl
    | _ => rfl
  | backingOff i attempt =>
    simp only [System.stepStage, hs, within]
    cases input with
    | cancelled =>
      simp [System.stepBackingOff, inputOf, step, System.close, System.goto, cancel, note, goto, effectOf]
    | slept => simp [System.stepBackingOff, inputOf, step, System.goto, goto]
    | _ => rfl
  | done result => exact absurd rfl (hd result)

end Supervisor

end Dispatch
end Aviso.Watch
