import Aviso.Lib.History
import Mathlib.Algebra.Order.Ring.Nat
import Mathlib.Logic.Relation

namespace Aviso.Lib

/-- A machine that refuses the events its state does not allow. -/
abbrev Machine (σ ε : Type) := σ → ε → Option σ

namespace Machine

/-- The state after a sequence of events, if each is allowed where it comes. -/
def run (step : Machine σ ε) : σ → List ε → Option σ
  | s, [] => some s
  | s, e :: es => (step s e).bind fun s' => run step s' es

variable {step : Machine σ ε}

theorem run_cons (h : run step s (e :: es) = some s') :
    ∃ mid, step s e = some mid ∧ run step mid es = some s' :=
  Option.bind_eq_some_iff.mp h

theorem run_append (h : run step s (es ++ es') = some s') :
    ∃ mid, run step s es = some mid ∧ run step mid es' = some s' := by
  induction es generalizing s with
  | nil => exact ⟨s, rfl, h⟩
  | cons e es ih =>
    obtain ⟨next, hstep, hrest⟩ := run_cons h
    obtain ⟨mid, hmid, hend⟩ := ih hrest
    exact ⟨mid, by simp [run, hstep, hmid], hend⟩

theorem run_append_bind (step : Machine σ ε) (s : σ) (es es' : List ε) :
    run step s (es ++ es') = (run step s es).bind fun s' => run step s' es' := by
  induction es generalizing s with
  | nil => rfl
  | cons e es ih =>
    simp only [List.cons_append, run]
    cases step s e with
    | none => rfl
    | some mid => exact ih mid

theorem run_snoc (h : run step s es = some mid) (he : step mid e = some s') :
    run step s (es ++ [e]) = some s' := by
  induction es generalizing s with
  | nil => cases h; simp [run, he]
  | cons e' es ih =>
    obtain ⟨next, hstep, hrest⟩ := run_cons h
    simp [run, hstep, ih hrest]

/-- What every step preserves holds after every run. -/
theorem run_invariant {P : σ → Prop} (hstep : ∀ s e s', P s → step s e = some s' → P s')
    (h : run step s es = some s') (hs : P s) : P s' := by
  induction es generalizing s with
  | nil => cases h; exact hs
  | cons e es ih =>
    obtain ⟨mid, hmid, hrest⟩ := run_cons h
    exact ih hrest (hstep s e mid hs hmid)

/-- What every step preserves, given the events so far, holds after every run. -/
theorem run_traced {I : List ε → σ → Prop} (hstep : ∀ seen s e s', I seen s → step s e = some s' → I (seen ++ [e]) s')
    (h : run step s es = some s') (hs : I seen s) : I (seen ++ es) s' := by
  induction es generalizing s seen with
  | nil =>
    cases h
    rwa [List.append_nil]
  | cons e es ih =>
    obtain ⟨mid, hmid, hrest⟩ := run_cons h
    have hend := ih hrest (hstep seen s e mid hs hmid)
    rwa [List.append_assoc, List.singleton_append] at hend

/-- A log to which every step adds what its event shows is what the events of the run show. -/
theorem run_collects {f : σ → List α} {g : ε → Option α}
    (hstep : ∀ s e s', step s e = some s' → f s' = f s ++ (g e).toList)
    (h : run step s es = some s') : f s' = f s ++ es.filterMap g := by
  induction es generalizing s with
  | nil =>
    cases h
    exact (List.append_nil _).symm
  | cons e es ih =>
    obtain ⟨mid, hmid, hrest⟩ := run_cons h
    rw [ih hrest, hstep s e mid hmid, List.append_assoc, List.filterMap_cons]
    cases g e <;> rfl

/-- A measure that every step lowers bounds the length of every run. -/
theorem run_bounded {P : σ → Prop} (measure : σ → Nat)
    (hstep : ∀ s e s', P s → step s e = some s' → P s' ∧ measure s' < measure s)
    (h : run step s es = some s') (hs : P s) : es.length + measure s' ≤ measure s := by
  induction es generalizing s with
  | nil =>
    cases h
    exact Nat.le_of_eq (Nat.zero_add _)
  | cons e es ih =>
    obtain ⟨mid, hmid, hrest⟩ := run_cons h
    obtain ⟨hP, hless⟩ := hstep s e mid hs hmid
    have hlength := ih hrest hP
    rw [List.length_cons]
    omega

/-- A machine whose steps are matched by steps of a relation is matched by it over runs. -/
theorem run_refines {R : τ → τ → Prop} (abs : σ → τ)
    (hstep : ∀ s e s', step s e = some s' → Relation.ReflTransGen R (abs s) (abs s'))
    (h : run step s es = some s') : Relation.ReflTransGen R (abs s) (abs s') := by
  induction es generalizing s with
  | nil => cases h; exact .refl
  | cons e es ih =>
    obtain ⟨mid, hmid, hrest⟩ := run_cons h
    exact (hstep s e mid hmid).trans (ih hrest)

/-- What `f` observes at the steps of a run, in order. -/
def observe (step : Machine σ ε) (f : σ → ε → Option α) : σ → List ε → List α
  | _, [] => []
  | s, e :: es => (f s e).toList ++ (step s e).elim [] fun s' => observe step f s' es

theorem observe_cons {f : σ → ε → Option α} (h : step s e = some s') :
    observe step f s (e :: es) = (f s e).toList ++ observe step f s' es := by
  simp [observe, h]

/-- A matching by a relation that also sees what was observed so far, for the states
that keep an invariant. -/
theorem run_refines_observed {R : τ → τ → Prop} {I : σ → Prop} {f : σ → ε → Option α}
    (abs : σ → List α → τ) (hkeep : ∀ s e s', I s → step s e = some s' → I s')
    (hstep : ∀ s e s' seen, I s → step s e = some s' →
      Relation.ReflTransGen R (abs s seen) (abs s' (seen ++ (f s e).toList)))
    (h : run step s es = some s') (hs : I s) (seen : List α) :
    Relation.ReflTransGen R (abs s seen) (abs s' (seen ++ observe step f s es)) := by
  induction es generalizing s seen with
  | nil =>
    cases h
    rw [observe, List.append_nil]
  | cons e es ih =>
    obtain ⟨mid, hmid, hrest⟩ := run_cons h
    have hnext := ih hrest (hkeep s e mid hs hmid) (seen ++ (f s e).toList)
    rw [List.append_assoc, ← observe_cons hmid] at hnext
    exact (hstep s e mid seen hs hmid).trans hnext

/-- `P` holds of every step of every run from `s`. -/
def Along (step : Machine σ ε) (P : σ → ε → σ → Prop) (s : σ) : Prop :=
  ∀ es mid e s', run step s es = some mid → step mid e = some s' → P mid e s'

/-- `P` holds of every step of a run over these events. -/
def Each (step : Machine σ ε) (P : σ → ε → Prop) : σ → List ε → Prop
  | _, [] => True
  | s, e :: es => P s e ∧ ∀ s', step s e = some s' → Each step P s' es

/-- What the steps a run may take preserve, with what they showed. -/
theorem run_observed {I : σ → List α → Prop} {P : σ → ε → Prop} {f : σ → ε → Option α}
    (hstep : ∀ s e s' seen, I s seen → P s e → step s e = some s' → I s' (seen ++ (f s e).toList))
    (h : run step s es = some s') (hP : Each step P s es) (hs : I s seen) :
    I s' (seen ++ observe step f s es) := by
  induction es generalizing s seen with
  | nil =>
    cases h
    rw [observe, List.append_nil]
    exact hs
  | cons e es ih =>
    obtain ⟨mid, hmid, hrest⟩ := run_cons h
    have hnext := ih hrest (hP.2 mid hmid) (hstep s e mid seen hs hP.1 hmid)
    rw [List.append_assoc, ← observe_cons hmid] at hnext
    exact hnext

instance Each.decide [∀ s e, Decidable (P s e)] : (s : σ) → (es : List ε) → Decidable (Each step P s es)
  | _, [] => isTrue trivial
  | s, e :: es =>
    match h : step s e with
    | none => decidable_of_iff (P s e) (by simp [Each, h])
    | some mid =>
      have := Each.decide (P := P) mid es
      decidable_of_iff (P s e ∧ Each step P mid es) (by simp [Each, h])

/-- `Q` holds of every state of a run over these events. -/
def Throughout (step : Machine σ ε) (Q : σ → Prop) : σ → List ε → Prop
  | s, [] => Q s
  | s, e :: es => Q s ∧ ∀ s', step s e = some s' → Throughout step Q s' es

theorem Throughout.head (h : Throughout step Q s es) : Q s := by
  cases es with
  | nil => exact h
  | cons e es => exact h.1

/-- What every step preserves holds throughout every run. -/
theorem throughout_invariant {I Q : σ → Prop} (hkeep : ∀ s e s', I s → step s e = some s' → I s')
    (hQ : ∀ s, I s → Q s) (hs : I s) (es : List ε) : Throughout step Q s es := by
  induction es generalizing s with
  | nil => exact hQ s hs
  | cons e es ih => exact ⟨hQ s hs, fun s' he => ih (hkeep s e s' hs he)⟩

/-- A state predicate holds throughout a run exactly when every observation is one that those
before it allow, if that decides whether a step keeps the predicate. -/
theorem throughout_iff_always {I : σ → List α → Prop} {G : σ → ε → Prop} {Q : σ → Prop} {f : σ → ε → Option α}
    {A : List α → α → Prop}
    (hstep : ∀ s e s' seen, I s seen → G s e → step s e = some s' →
      I s' (seen ++ (f s e).toList) ∧ (Q s → (Q s' ↔ ∀ x ∈ f s e, A seen x)))
    (hG : Each step G s es) (hrun : run step s es = some s') {seen : List α} (hI : I s seen) (hQ : Q s)
    (hseen : Always A seen) : Throughout step Q s es ↔ Always A (seen ++ observe step f s es) := by
  induction es generalizing s seen with
  | nil =>
    rw [observe, List.append_nil]
    exact ⟨fun _ => hseen, fun _ => hQ⟩
  | cons e es ih =>
    obtain ⟨mid, hmid, hrest⟩ := run_cons hrun
    obtain ⟨hnext, hkeeps⟩ := hstep s e mid seen hI hG.1 hmid
    rw [observe_cons hmid, ← List.append_assoc]
    have halways : Always A (seen ++ (f s e).toList) ↔ ∀ x ∈ f s e, A seen x := by
      cases f s e with
      | none => simpa using hseen
      | some x => simpa [Always.snoc_iff] using fun _ => hseen
    constructor
    · intro h
      have hmidQ := (h.2 mid hmid).head
      exact (ih (hG.2 mid hmid) hrest hnext hmidQ (halways.mpr ((hkeeps hQ).mp hmidQ))).mp (h.2 mid hmid)
    · intro h
      have hmidQ := (hkeeps hQ).mpr (halways.mp h.of_append)
      refine ⟨hQ, ?_⟩
      intro s₁ hs₁
      cases hmid.symm.trans hs₁
      exact (ih (hG.2 mid hmid) hrest hnext hmidQ h.of_append).mpr h

end Machine

/-- What every step of a relation preserves holds wherever it leads. -/
theorem star_invariant {R : τ → τ → Prop} {P : τ → Prop} (hstep : ∀ a b, P a → R a b → P b)
    (h : Relation.ReflTransGen R a b) (ha : P a) : P b := by
  induction h with
  | refl => exact ha
  | tail _ hbc ih => exact hstep _ _ ih hbc

end Aviso.Lib
