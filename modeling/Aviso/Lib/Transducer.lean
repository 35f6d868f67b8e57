import Mathlib.Algebra.Order.Ring.Nat

namespace Aviso.Lib

/-- One step of a machine with states `σ`, input `α` and output `β`. -/
abbrev Step (σ α β : Type) := σ → α → σ × List β

namespace Step

/-- The state after a whole input and everything written on the way. -/
def run (step : Step σ α β) : σ → List α → σ × List β
  | s, [] => (s, [])
  | s, a :: as =>
    let (s', out) := step s a
    let (s'', rest) := run step s' as
    (s'', out ++ rest)

theorem run_nil (step : Step σ α β) (s : σ) : step.run s [] = (s, []) := rfl

theorem run_cons (step : Step σ α β) (s : σ) (a : α) (as : List α) :
    step.run s (a :: as) =
      ((step.run (step s a).1 as).1, (step s a).2 ++ (step.run (step s a).1 as).2) := rfl

theorem run_append (step : Step σ α β) (s : σ) (as bs : List α) :
    step.run s (as ++ bs) =
      ((step.run (step.run s as).1 bs).1,
        (step.run s as).2 ++ (step.run (step.run s as).1 bs).2) := by
  induction as generalizing s with
  | nil => simp [run_nil]
  | cons a as ih => simp [run_cons, ih]

/-- What a machine writes from state `s` to the end of its input, where
`flush` says what each state still owes. -/
def output (step : Step σ α β) (flush : σ → List β) (s : σ) (as : List α) : List β :=
  (step.run s as).2 ++ flush (step.run s as).1

theorem output_nil (step : Step σ α β) (flush : σ → List β) (s : σ) :
    step.output flush s [] = flush s := by
  simp [output, run_nil]

theorem output_cons (step : Step σ α β) (flush : σ → List β) (s : σ) (a : α) (as : List α) :
    step.output flush s (a :: as) = (step s a).2 ++ step.output flush (step s a).1 as := by
  simp [output, run_cons]

end Step
end Aviso.Lib
