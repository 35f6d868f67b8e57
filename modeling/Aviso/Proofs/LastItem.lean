import Aviso.Proofs.Exits
import Aviso.Proofs.CheckpointLaw

namespace Aviso.Watch

open Lib (Always Machine)

/-- The effects that put an item on the notification channel. -/
def Effect.IsItem : Effect → Prop
  | .sent _ | .reported _ => True
  | _ => False

/-- Nothing goes on the channel once an error did. -/
def Closing (before : List Effect) (e : Effect) : Prop :=
  (∃ err, .reported err ∈ before) → ¬ e.IsItem

def reportedError : Effect → Option ClientError
  | .reported e => some e
  | _ => none

/-- The errors on the channel, in order. -/
def reportsOf (t : List Effect) : List ClientError := t.filterMap reportedError

theorem reportsOf_empty (h : ∀ e, .reported e ∉ t) : reportsOf t = [] := by
  apply List.filterMap_eq_nil_iff.mpr
  intro effect heffect
  cases effect with
  | reported e => exact absurd heffect (h e)
  | _ => rfl

/-- Under the law at most one error is on the channel. -/
theorem reportsOf_length (h : Always Closing t) : (reportsOf t).length ≤ 1 := by
  induction t using List.reverseRecOn with
  | nil => exact Nat.zero_le 1
  | append_singleton t e ih =>
    obtain ⟨hbefore, hlast⟩ := Always.snoc_iff.mp h
    have hsplit : reportsOf (t ++ [e]) = reportsOf t ++ (reportedError e).toList := by
      simp only [reportsOf, List.filterMap_append, List.filterMap_cons, List.filterMap_nil]
      cases reportedError e <;> rfl
    rw [hsplit, List.length_append]
    by_cases hany : ∃ err, .reported err ∈ t
    · have hnone : reportedError e = none := by
        cases e with
        | reported err => exact absurd trivial (hlast hany)
        | _ => rfl
      rw [hnone]
      exact ih hbefore
    · rw [reportsOf_empty fun err hmem => hany ⟨err, hmem⟩]
      cases reportedError e with
      | none => exact Nat.zero_le 1
      | some err => exact Nat.le_refl 1

namespace Control

variable {c : Setup} {σ σ' : State}

theorem Parting.silent (h : Parting e) : ¬ e.IsItem := by
  intro hitem
  cases e with
  | sent n => cases h
  | reported err => cases h
  | _ => cases hitem

/-- The run is over once an error is on the channel, and nothing followed it there. -/
structure Closed (σ : State) : Prop where
  gated : Gated σ
  spent : ∀ e, .reported e ∈ σ.trace → σ.phase.exits = true
  law : Always Closing σ.trace

theorem Closed.step (h : Closed σ) (hs : Step c σ σ') : Closed σ' := by
  obtain ⟨hgated, hover, hlaw⟩ := h
  by_cases hexits : σ.phase.exits = true
  · have hdeparts := hs.departs hgated hexits
    refine ⟨hgated.step hs, fun _ _ => hdeparts.exits, ?_⟩
    rcases hdeparts.trace with hsame | ⟨e, hsnoc, hparting⟩
    · exact hsame ▸ hlaw
    · rw [hsnoc]
      exact hlaw.snoc fun _ => hparting.silent
  · have hnone (err : ClientError) : .reported err ∉ σ.trace := fun hmem => hexits (hover err hmem)
    rcases hs.emits with hsame | ⟨e, hsnoc, hemits⟩
    · exact ⟨hgated.step hs, fun err hmem => absurd (hsame ▸ hmem) (hnone err), hsame ▸ hlaw⟩
    · refine ⟨hgated.step hs, ?_, ?_⟩
      · intro err hmem
        rw [hsnoc, List.mem_append, List.mem_singleton] at hmem
        rcases hmem with hmem | hmem
        · exact absurd hmem (hnone err)
        · subst hmem
          exact congrArg Phase.exits hemits.2
      · rw [hsnoc]
        refine hlaw.snoc ?_
        rintro ⟨err, hmem⟩
        exact absurd hmem (hnone err)

theorem Closed.initial : Closed .initial where
  gated := .initial
  spent := nofun
  law := .nil

end Control

namespace System

/-- In every run at most one error goes on the channel, and nothing after it. -/
theorem error_protocol (c : Setup) (held : Option State.Checkpoint) (inputs : List Input) (s : System)
    (h : Machine.run (step c) (start held) inputs = some s) :
    Always Closing s.trace ∧ (reportsOf s.trace).length ≤ 1 := by
  have hsteps := run_control [] h trivial
  have hclosed := Lib.star_invariant (P := Control.Closed) (fun _ _ hσ => hσ.step) hsteps .initial
  exact ⟨hclosed.law, reportsOf_length hclosed.law⟩

/-- The server refuses the second connection of the sample, and the consumer gets the error. -/
def refusedInputs : List Input :=
  [.fetched true, .jitter 0, .transportError, .elapsed true, .jitter 0, .response ⟨404, none, none, none, fun _ => none⟩,
    .body [], .elapsed true, .accepted]

theorem error_protocol_refused : ∃ s,
    Machine.run (step sampleSetup) (start none) refusedInputs = some s ∧
      reportsOf s.trace = [.http 404 [] none] ∧ Always Closing s.trace := by
  have hrun : (Machine.run (step sampleSetup) (start none) refusedInputs).map
      (fun s => reportsOf s.trace) = some [.http 404 [] none] := by
    decide +kernel
  obtain ⟨s, hs, hreports⟩ := Option.map_eq_some_iff.mp hrun
  exact ⟨s, hs, hreports, (error_protocol sampleSetup none refusedInputs s hs).1⟩

end System
end Aviso.Watch
