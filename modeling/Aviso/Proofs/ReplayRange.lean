import Aviso.Proofs.LastItem

namespace Aviso.Watch

open Lib (Always Machine)

/-- The end a server resolves when it confirms a connection. -/
def resolution : Effect → Option Nat
  | .confirmed opening => opening.endSequence
  | _ => none

/-- The first end the server resolved. -/
def resolvedOf (t : List Effect) : Option Nat := (t.filterMap resolution).head?

theorem resolvedOf_snoc (t : List Effect) (e : Effect) :
    resolvedOf (t ++ [e]) = (resolvedOf t).or (resolution e) := by
  unfold resolvedOf
  rw [List.filterMap_append, List.head?_append, List.filterMap_cons, List.filterMap_nil]
  cases resolution e <;> rfl

/-- The end of a bounded replay: the first the server resolved, else the requested one. -/
def effectiveOf (request : WatchRequest) (t : List Effect) : Option ReplayEnd :=
  request.until_.map fun requested => ((resolvedOf t).map ReplayEnd.sequence).getD requested

/-- A request asks for no inverted range, and for the end the server resolved if it
resolved one. -/
structure InRange (bounded : Bool) (resolved : Option Nat) (body : WireWatchRequest) : Prop where
  ordered : ∀ first last, body.fromId = some first → body.toId = some last → first ≤ last
  resolved : bounded = true → ∀ last, resolved = some last → body.toId = some last ∧ body.toDate = none

/-- Every request of a run is in range. -/
def Ranges (bounded : Bool) (before : List Effect) : Effect → Prop
  | .requested body => InRange bounded (resolvedOf before) body
  | _ => True

/-- The sequence an end position names, if it names one. -/
def ReplayEnd.last : ReplayEnd → Option Nat
  | .sequence n => some n
  | .date _ => none

/-- The end of a request is the one it is built from. -/
theorem fromParts_end (h : WireWatchRequest.fromParts eventType filter start end_ = .ok body) :
    body.toId = end_.bind ReplayEnd.last ∧ (body.toId.isSome = true → body.toDate = none) := by
  unfold WireWatchRequest.fromParts at h
  dsimp only at h
  split at h
  · cases h
    rcases end_ with _ | n | s <;> simp [ReplayEnd.last]
  · cases h
    rcases end_ with _ | n | s <;> simp [ReplayEnd.last]
  · split at h
    · cases h
      rcases end_ with _ | n | s <;> simp [ReplayEnd.last]
    · cases h

theorem fromParts_fromId (h : WireWatchRequest.fromParts eventType filter start end_ = .ok body)
    (hfirst : body.fromId = some first) : ∃ n, start = some (.afterSequence n) ∧ first = n + 1 := by
  unfold WireWatchRequest.fromParts at h
  dsimp only at h
  split at h
  · cases h
    cases hfirst
  · cases h
    cases hfirst
  · rename_i n
    split at h
    · rename_i next hnext
      cases h
      cases hfirst
      exact ⟨n, rfl, (checkedSucc_some hnext).1⟩
    · cases h

namespace Control

variable {c : Setup} {σ σ' : State}

theorem Stands.reached (h : Stands v v') : v'.reached c = v.reached c := by
  simp only [Supervisor.reached, Supervisor.wireUntil, h.resolvedEnd, h.pendingCommit, h.commitCursor]

/-- The loop has passed its checks, and no connection is being made yet. -/
def Phase.readies : Phase → Bool
  | .checked | .resting | .refreshing | .connecting => true
  | _ => false

theorem Step.to_readies (h : Step c σ σ') (hs : σ'.phase.readies = true) :
    Stands σ.vars σ'.vars ∧
      (σ.phase.readies = true ∨ (σ.phase = .top ∧ σ.vars.reached c = false)) := by
  cases h with
  | skip hp _ hreached => exact ⟨⟨rfl, rfl, rfl, rfl⟩, .inr ⟨hp, hreached⟩⟩
  | hurry jitter policy hp _ hreached => exact ⟨⟨rfl, rfl, rfl, rfl⟩, .inr ⟨hp, hreached⟩⟩
  | rest jitter policy hp _ hreached => exact ⟨⟨rfl, rfl, rfl, rfl⟩, .inr ⟨hp, hreached⟩⟩
  | wake hp => exact ⟨⟨rfl, rfl, rfl, rfl⟩, .inl (congrArg Phase.readies hp)⟩
  | refresh hp => exact ⟨⟨rfl, rfl, rfl, rfl⟩, .inl (congrArg Phase.readies hp)⟩
  | proceed hp => exact ⟨⟨rfl, rfl, rfl, rfl⟩, .inl (congrArg Phase.readies hp)⟩
  | refreshed hp => exact ⟨⟨rfl, rfl, rfl, rfl⟩, .inl (congrArg Phase.readies hp)⟩
  | judge short shortSessions hp hjudged =>
    obtain ⟨-, -, htop | ⟨e, hreport⟩⟩ := hjudged.keeps
    · exact absurd ((congrArg Phase.readies htop).symm.trans hs) nofun
    · exact absurd ((congrArg Phase.readies hreport).symm.trans hs) nofun
  | fetch held hp => exact absurd ((congrArg Phase.readies hp).symm.trans hs) nofun
  | hear m hp => exact absurd ((congrArg Phase.readies hp).symm.trans hs) nofun
  | handle e hp _ => exact absurd ((congrArg Phase.readies hp).symm.trans hs) nofun
  | commit p hp _ => exact absurd ((congrArg Phase.readies hp).symm.trans hs) nofun
  | deliver n hp => exact absurd ((congrArg Phase.readies hp).symm.trans hs) nofun
  | part short shortSessions hp => exact absurd ((congrArg Phase.readies hp).symm.trans hs) nofun
  | _ => cases hs

theorem Step.to_asking (h : Step c σ σ') (hs : σ'.phase = .asking body) :
    σ.phase = .connecting ∧ σ'.trace = σ.trace ∧
      WireWatchRequest.fromParts c.request.eventType c.request.filter σ.vars.wireFrom
        (σ.vars.wireUntil c.request) = .ok body := by
  cases h with
  | ask body' hp hbody =>
    cases hs
    exact ⟨hp, rfl, hbody⟩
  | judge short shortSessions hp hjudged =>
    obtain ⟨-, -, htop | ⟨e, hreport⟩⟩ := hjudged.keeps
    · exact absurd (htop.symm.trans hs) nofun
    · exact absurd (hreport.symm.trans hs) nofun
  | fetch held hp => exact absurd (hp.symm.trans hs) nofun
  | hear m hp => exact absurd (hp.symm.trans hs) nofun
  | handle e hp _ => exact absurd (hp.symm.trans hs) nofun
  | commit p hp _ => exact absurd (hp.symm.trans hs) nofun
  | deliver n hp => exact absurd (hp.symm.trans hs) nofun
  | part short shortSessions hp => exact absurd (hp.symm.trans hs) nofun
  | _ => cases hs

/-- A request of a loop that has not reached its end is in range. -/
theorem request_inRange {v : Supervisor}
    (hstart : v.commitCursor = none → v.initialCursor.bind ResumeStart.sequence = none)
    (hresolved : c.request.until_.isSome = true → v.resolvedEnd = resolved)
    (hreached : v.reached c = false)
    (hbody : WireWatchRequest.fromParts c.request.eventType c.request.filter v.wireFrom
      (v.wireUntil c.request) = .ok body) : InRange c.request.until_.isSome resolved body := by
  obtain ⟨hend, hdate⟩ := fromParts_end hbody
  constructor
  · intro first last hfirst hlast
    obtain ⟨n, hfrom, rfl⟩ := fromParts_fromId hbody hfirst
    have hdelivered : lastDelivered v.pendingCommit v.commitCursor = some n := by
      unfold Supervisor.wireFrom at hfrom
      cases hd : lastDelivered v.pendingCommit v.commitCursor with
      | some d =>
        rw [hd] at hfrom
        cases hfrom
        rfl
      | none =>
        have hcommit : v.commitCursor = none := by
          cases hp : v.pendingCommit with
          | some p => simp [lastDelivered, hp] at hd
          | none => simpa [lastDelivered, hp] using hd
        rw [hd] at hfrom
        have hnone := hstart hcommit
        rw [show v.initialCursor = some (.afterSequence n) from hfrom] at hnone
        cases hnone
    rw [hend] at hlast
    obtain ⟨end_, huntil, hname⟩ := Option.bind_eq_some_iff.mp hlast
    cases end_ with
    | date s => cases hname
    | sequence e =>
      cases hname
      simp only [Supervisor.reached, replayReached, huntil, hdelivered, Option.any_some,
        decide_eq_false_iff_not, Nat.not_le] at hreached
      exact hreached
  · intro hbounded last hlast
    have huntil : v.wireUntil c.request = some (.sequence last) := by
      simp [Supervisor.wireUntil, effectiveEnd, hresolved hbounded, hlast]
    have hto : body.toId = some last := by
      rw [hend, huntil]
      rfl
    exact ⟨hto, hdate (by rw [hto]; rfl)⟩

/-- The end the run asks for is the first one the server resolved, and a request is
made only short of it. -/
structure Ranged (c : Setup) (σ : State) : Prop where
  starting : σ.phase = .starting → resolvedOf σ.trace = none
  start : σ.vars.commitCursor = none → σ.vars.initialCursor.bind ResumeStart.sequence = none
  resolved : c.request.until_.isSome = true → σ.vars.resolvedEnd = resolvedOf σ.trace
  unbounded : c.request.until_ = none → σ.vars.resolvedEnd = none
  short : σ.phase.readies = true → σ.vars.reached c = false
  asking : ∀ body, σ.phase = .asking body →
    InRange c.request.until_.isSome (resolvedOf σ.trace) body
  law : Always (Ranges c.request.until_.isSome) σ.trace

theorem Ranged.wireUntil (h : Ranged c σ) :
    σ.vars.wireUntil c.request = effectiveOf c.request σ.trace := by
  unfold Supervisor.wireUntil effectiveEnd effectiveOf
  cases huntil : c.request.until_ with
  | none =>
    rw [h.unbounded huntil]
    rfl
  | some requested =>
    rw [h.resolved (by rw [huntil]; rfl)]
    cases resolvedOf σ.trace <;> rfl

theorem Ranged.initial (c : Setup) : Ranged c .initial where
  starting := fun _ => rfl
  start := fun _ => rfl
  resolved := fun _ => rfl
  unbounded := fun _ => rfl
  short := nofun
  asking := nofun
  law := .nil

/-- Only the opening of a connection resolves an end. -/
theorem Step.resolves (h : Step c σ σ') :
    resolvedOf σ'.trace = resolvedOf σ.trace ∨
      ∃ opening, σ'.vars = σ.vars.confirmed c opening ∧
        resolvedOf σ'.trace = (resolvedOf σ.trace).or opening.endSequence := by
  rcases h.emits with hsame | ⟨e, hsnoc, hemits⟩
  · exact .inl (by rw [hsame])
  · rw [hsnoc, resolvedOf_snoc]
    cases e with
    | confirmed opening => exact .inr ⟨opening, hemits.2.2, rfl⟩
    | _ => exact .inl (Option.or_none)

/-- A request with an end point keeps the first end the server resolves. -/
theorem confirmed_resolvedEnd (v : Supervisor) (opening : Opening)
    (hbounded : c.request.until_.isSome = true) :
    (v.confirmed c opening).resolvedEnd = v.resolvedEnd.or opening.endSequence := by
  simp only [Supervisor.confirmed, Supervisor.transition_resolvedEnd, hbounded, Bool.and_true]
  cases v.resolvedEnd with
  | none => simp
  | some e => simp

theorem Step.to_starting (h : Step c σ σ') (hs : σ'.phase = .starting) : σ.phase = .starting := by
  cases h with
  | fetch held hp => exact hp
  | judge short shortSessions hp hjudged =>
    obtain ⟨-, -, htop | ⟨e, hreport⟩⟩ := hjudged.keeps
    · exact absurd (htop.symm.trans hs) nofun
    · exact absurd (hreport.symm.trans hs) nofun
  | hear m hp => exact absurd (hp.symm.trans hs) nofun
  | handle e hp _ => exact absurd (hp.symm.trans hs) nofun
  | commit p hp _ => exact absurd (hp.symm.trans hs) nofun
  | deliver n hp => exact absurd (hp.symm.trans hs) nofun
  | part short shortSessions hp => exact absurd (hp.symm.trans hs) nofun
  | _ => cases hs

theorem Ranged.step (h : Ranged c σ) (hs : Step c σ σ') : Ranged c σ' := by
  constructor
  · intro hstarting
    have hbefore := hs.to_starting hstarting
    rcases hs.emits with hsame | ⟨e, hsnoc, hemits⟩
    · exact hsame ▸ h.starting hbefore
    · rw [hsnoc, resolvedOf_snoc, h.starting hbefore]
      cases e with
      | confirmed opening => exact absurd (hemits.1.symm.trans hbefore) nofun
      | _ => rfl
  · intro hcommit
    rcases hs.stands with hstands | ⟨-, -, -, state, cursor, hvars⟩ | ⟨opening, -, hvars, -⟩ |
      ⟨-, hinitial, -, hbefore⟩
    · rw [hstands.initialCursor]
      exact h.start (hstands.commitCursor ▸ hcommit)
    · rw [hvars] at hcommit ⊢
      exact hcommit
    · rw [hvars] at hcommit ⊢
      exact h.start hcommit
    · rw [hinitial]
      exact h.start (hbefore hcommit)
  · intro hbounded
    have hresolved := h.resolved hbounded
    rcases hs.resolves with hsame | ⟨opening, hvars, hnext⟩
    · rcases hs.stands with hstands | ⟨hp, -, -, state, cursor, hvars⟩ | ⟨opening, -, hvars, htrace⟩ |
        ⟨-, -, hend, -⟩
      · rw [hsame, hstands.resolvedEnd, hresolved]
      · rw [hsame, h.starting hp, hvars]
        rfl
      · rw [hvars, confirmed_resolvedEnd _ _ hbounded, hresolved, htrace, resolvedOf_snoc]
        rfl
      · rw [hsame, hend, hresolved]
    · rw [hvars, confirmed_resolvedEnd _ _ hbounded, hresolved, hnext]
  · intro hunbounded
    have hnone := h.unbounded hunbounded
    rcases hs.stands with hstands | ⟨-, -, -, state, cursor, hvars⟩ | ⟨opening, -, hvars, -⟩ |
      ⟨-, -, hend, -⟩
    · exact hstands.resolvedEnd.trans hnone
    · rw [hvars]
      rfl
    · rw [hvars]
      simp [Supervisor.confirmed, hunbounded, hnone]
    · exact hend.trans hnone
  · intro hready
    obtain ⟨hstands, hbefore⟩ := hs.to_readies hready
    rw [hstands.reached]
    rcases hbefore with hbefore | ⟨-, hreached⟩
    · exact h.short hbefore
    · exact hreached
  · intro body hasking
    obtain ⟨hp, htrace, hbody⟩ := hs.to_asking hasking
    rw [htrace]
    exact request_inRange h.start h.resolved (h.short (congrArg Phase.readies hp)) hbody
  · rcases hs.emits with hsame | ⟨e, hsnoc, hemits⟩
    · exact hsame ▸ h.law
    · rw [hsnoc]
      refine h.law.snoc ?_
      cases e with
      | requested body => exact h.asking body hemits.1
      | _ => trivial

end Control
end Aviso.Watch
