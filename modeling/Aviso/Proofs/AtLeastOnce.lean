import Aviso.Watch.Restarts
import Aviso.Proofs.Lossless

namespace Aviso.Watch

open Lib (Machine)
open State (Checkpoint)

def sequenceOf (held : Option Checkpoint) : Option Nat := held.map (·.lastCommittedSequence)

namespace Delivery

variable {c : Config} {σ σ' : State} {held : Option Checkpoint}

/-- What the trace says of each send and of each put that took effect. -/
structure Account (c : Config) (σ : State) : Prop where
  sent : ∀ n, .sent n ∈ σ.trace → Delivered c.required σ.trace n
  landed : ∀ cp, .landed cp ∈ σ.trace → σ.store.isSome

theorem Account.initial : Account c (.initial held) := ⟨by simp [State.initial], by simp [State.initial]⟩

theorem Account.emit (h : Account c σ) (hsent : ∀ n, e ≠ .sent n) (hland : ∀ cp, e ≠ .landed cp) :
    Account c (σ.emit e) := by
  refine ⟨?_, ?_⟩
  · intro n hn
    rcases List.mem_append.mp hn with hn | hn
    · exact (h.sent n hn).append _
    · exact absurd (List.mem_singleton.mp hn).symm (hsent n)
  · intro cp hcp
    rcases List.mem_append.mp hcp with hcp | hcp
    · exact h.landed cp hcp
    · exact absurd (List.mem_singleton.mp hcp).symm (hland cp)

theorem putMonotonic_isSome (held : Option Checkpoint) (cp : Checkpoint) :
    (putMonotonic held cp).isSome := by
  unfold putMonotonic
  split
  · split <;> rfl
  · rfl

theorem Account.land (h : Account c σ) (cp : Checkpoint) :
    Account c { σ.emit (.landed cp) with store := putMonotonic σ.store cp } := by
  refine ⟨?_, fun _ _ => putMonotonic_isSome _ _⟩
  intro n hn
  rcases List.mem_append.mp hn with hn | hn
  · exact (h.sent n hn).append _
  · cases List.mem_singleton.mp hn

theorem Account.step (h : Account c σ) (hat : AtHand c σ) (hs : Step c σ σ') : Account c σ' := by
  cases hs with
  | quiet e he =>
    refine h.emit ?_ ?_
    · rintro n rfl
      exact he
    · rintro cp rfl
      exact he
  | resolve => exact ⟨h.sent, h.landed⟩
  | ask => exact ⟨h.sent, h.landed⟩
  | request hp =>
    rename_i body start
    have hrequested := h.emit (e := .requested body) (by simp) (by simp)
    exact ⟨hrequested.sent, hrequested.landed⟩
  | lose => exact ⟨h.sent, h.landed⟩
  | leave => exact ⟨h.sent, h.landed⟩
  | refuse n =>
    have hreceived := h.emit (e := .received n) (by simp) (by simp)
    exact ⟨hreceived.sent, hreceived.landed⟩
  | hold n =>
    have hreceived := h.emit (e := .received n) (by simp) (by simp)
    exact ⟨hreceived.sent, hreceived.landed⟩
  | take n =>
    have hdispatched := (h.emit (e := .received n) (by simp) (by simp)).emit (e := .dispatched n)
      (by simp) (by simp)
    exact ⟨hdispatched.sent, hdispatched.landed⟩
  | land p => exact h.land p.checkpoint
  | stored p hp hpend =>
    rename_i n g
    have hdispatched := (h.emit (e := .put p.checkpoint true) (by simp) (by simp)).emit
      (e := .dispatched n) (by simp) (by simp)
    exact ⟨hdispatched.sent, hdispatched.landed⟩
  | rejected p =>
    have hput := h.emit (e := .put p.checkpoint false) (by simp) (by simp)
    exact ⟨hput.sent, hput.landed⟩
  | retry result => exact h.emit (by simp) (by simp)
  | pass result hp hr =>
    rename_i i g n
    have hattempted := h.emit (e := .attempted i result) (by simp) (by simp)
    exact ⟨hattempted.sent, hattempted.landed⟩
  | complete => exact ⟨h.sent, h.landed⟩
  | send hp =>
    rename_i n g
    simp only [AtHand, hp] at hat
    obtain ⟨before, attempts, htrace, hpassed⟩ := hat
    refine ⟨?_, ?_⟩
    · intro m hm
      rcases List.mem_append.mp hm with hm | hm
      · exact (h.sent m hm).append _
      · cases List.mem_singleton.mp hm
        exact ⟨before, attempts, [], by simp [State.enter, State.emit, htrace], hpassed⟩
    · intro cp hcp
      rcases List.mem_append.mp hcp with hcp | hcp
      · exact h.landed cp hcp
      · cases List.mem_singleton.mp hcp
  | flush p => exact h.land p.checkpoint
  | flushed p ok => exact h.emit (by simp) (by simp)

/-- A watch without an explicit start begins where the store stood. -/
def Rooted (held : Option Checkpoint) (σ : State) : Prop :=
  ((σ.phase = .resolving ∨ σ.phase = .leaving) ∧ σ.pending = none ∧ σ.store = held ∧
      ∀ cp, .landed cp ∉ σ.trace) ∨
    (σ.phase ≠ .resolving ∧ σ.floor = sequenceOf held)

theorem Rooted.initial : Rooted held (.initial held) :=
  .inl ⟨.inl rfl, rfl, rfl, by simp [State.initial]⟩

theorem Rooted.step (h : Rooted held σ) (hstart : c.start = none) (hstore : c.hasStore = true)
    (hs : Step c σ σ') : Rooted held σ' := by
  rcases h with ⟨hphase, hpend, hheld, hlanded⟩ | ⟨hphase, hfloor⟩
  · cases hs with
    | quiet e he =>
      refine .inl ⟨hphase, hpend, hheld, ?_⟩
      intro cp hcp
      rcases List.mem_append.mp hcp with hcp | hcp
      · exact hlanded cp hcp
      · cases List.mem_singleton.mp hcp
        exact he
    | resolve start hp hres =>
      refine .inr ⟨by simp, ?_⟩
      simp only [Config.Resolves, hstart, hstore, if_true] at hres
      subst hres
      simp only [State.floor, sequenceOf, hheld]
      cases held <;> rfl
    | leave => exact .inl ⟨.inr rfl, hpend, hheld, hlanded⟩
    | flush p hp hsome => cases hpend.symm.trans hsome
    | flushed p ok hp hsome => cases hpend.symm.trans hsome
    | ask _ hp | request hp | lose hp | refuse _ hp | hold _ _ hp | take _ hp | land _ hp
    | stored _ hp | rejected _ hp | retry _ hp | pass _ hp | complete hp | send hp =>
      rcases hphase with hphase | hphase <;> cases hphase.symm.trans hp
  · refine .inr ?_
    cases hs with
    | quiet => exact ⟨hphase, hfloor⟩
    | resolve start hp => exact absurd hp hphase
    | land p hp => exact ⟨hphase, hfloor⟩
    | retry result hp => exact ⟨hphase, hfloor⟩
    | flush p hp => exact ⟨hphase, hfloor⟩
    | flushed p ok hp => exact ⟨hphase, hfloor⟩
    | ask | request | lose | leave | refuse | hold | take | stored | rejected | pass | complete
    | send => exact ⟨by simp [State.enter], hfloor⟩

/-- All that holds of a run without an explicit start and without a filter. -/
structure Running (c : Config) (held : Option Checkpoint) (σ : State) : Prop where
  sound : Sound c held σ
  contiguous : Contiguous σ
  account : Account c σ
  rooted : Rooted held σ

theorem Running.initial : Running c held (.initial held) := ⟨.initial, .initial, .initial, .initial⟩

theorem Running.steps (h : Running c held σ) (hrel : c.relaxed = false) (hstart : c.start = none)
    (hstore : c.hasStore = true) (hs : Steps c σ σ') : Running c held σ' := by
  refine Lib.star_invariant (fun σ σ' h hs => ?_) hs h
  exact ⟨h.sound.step hs, h.contiguous.step h.sound.cursors hrel hs, h.account.step h.sound.atHand hs,
    h.rooted.step hstart hstore hs⟩

end Delivery

/-- In the run, `q` was dispatched, all its required triggers succeeded, and it was sent. -/
def Record.Completed (r : Record) (q : Nat) : Prop :=
  ∃ n, n.sequence = q ∧ Delivered (System.required r.setup) r.trace n

/-- What a run that found `held` in the store left there. -/
structure Record.Keeps (r : Record) (held after : Option Checkpoint) : Prop where
  changed : after = held ∨ ∃ cp, after = some cp ∧ .landed cp ∈ r.trace
  written : r.stored = true → after.isSome
  full : ∀ cp, .landed cp ∈ r.trace → ∃ b, baseOf (sequenceOf held) r.trace = some b ∧
    ∀ q, b ≤ q → q ≤ cp.lastCommittedSequence → r.Completed q

theorem Record.stored_iff (r : Record) : r.stored = true ↔ ∃ cp, .landed cp ∈ r.trace := by
  unfold stored
  rw [List.any_eq_true]
  constructor
  · rintro ⟨e, he, hlanded⟩
    cases e <;> first | exact ⟨_, he⟩ | cases hlanded
  · rintro ⟨cp, hcp⟩
    exact ⟨_, hcp, rfl⟩

theorem Delivery.Running.keeps {c : Setup} {s : System}
    (h : Delivery.Running c.delivery held (s.delivery c)) :
    Record.Keeps ⟨c, s.trace⟩ held s.store where
  changed := h.sound.ledger.stored
  written := by
    intro hstored
    obtain ⟨cp, hcp⟩ := (Record.stored_iff _).mp hstored
    exact h.account.landed cp hcp
  full := by
    intro cp hcp
    have hroot : (s.delivery c).floor = sequenceOf held := by
      rcases h.rooted with ⟨-, -, -, hnone⟩ | ⟨-, hfloor⟩
      · exact absurd hcp (hnone cp)
      · exact hfloor
    have hput : cp.lastCommittedSequence ∈ putsOf s.trace := List.mem_filterMap.mpr ⟨_, hcp, rfl⟩
    obtain ⟨p, hp, hle⟩ := h.sound.ledger.puts_le _ hput
    have hfull := h.contiguous.full p hp
    obtain ⟨m, rfl, hdel⟩ := h.sound.cursors.pending_delivered p hp
    rw [hroot] at hfull
    have hbase : ∃ b, baseOf (sequenceOf held) s.trace = some b := by
      have hmem : m.sequence ∈ sentOf s.trace := hdel.sent
      unfold baseOf
      cases sequenceOf held with
      | some f => exact ⟨_, rfl⟩
      | none =>
        cases hs : sentOf s.trace with
        | nil => rw [hs] at hmem; cases hmem
        | cons q qs => exact ⟨q, rfl⟩
    obtain ⟨b, hb⟩ := hbase
    refine ⟨b, hb, fun q hbq hq => ?_⟩
    have hsent : q ∈ sentOf s.trace := hfull b hb q hbq (by omega)
    obtain ⟨n, hn, rfl⟩ := mem_sentOf.mp hsent
    exact ⟨n, rfl, h.account.sent n hn⟩

/-- Runs one after another, from what the store held first to what it holds last. -/
inductive Chain (held : Option Checkpoint) : List Record → Option Checkpoint → Prop where
  | nil : Chain held [] held
  | snoc : Chain held runs before → r.Keeps before after → Chain held (runs ++ [r]) after

/-- The first sequence the store answers for: the one after its first checkpoint,
else the first one sent by the run whose put first took effect. -/
def lowest (held : Option Checkpoint) (runs : List Record) : Option Nat :=
  match held with
  | some cp => some (cp.lastCommittedSequence + 1)
  | none => (runs.find? Record.stored).bind fun r => (sentOf r.trace).head?

theorem lowest_append (h : lowest held runs = some b) (runs' : List Record) :
    lowest held (runs ++ runs') = some b := by
  cases held with
  | some cp => exact h
  | none =>
    simp only [lowest] at h ⊢
    cases hf : runs.find? Record.stored with
    | none => simp [hf] at h
    | some r => simpa [List.find?_append, hf] using h

/-- A store that holds nothing was never written. -/
theorem Chain.none_unwritten (h : Chain held runs after) (hafter : after = none) :
    held = none ∧ runs.find? Record.stored = none := by
  induction h with
  | nil => exact ⟨hafter, rfl⟩
  | snoc hchain hkeeps ih =>
    rename_i runs before r after
    subst hafter
    have hunstored : ¬ r.stored = true := fun hs => by simpa using hkeeps.written hs
    rcases hkeeps.changed with hsame | ⟨cp, hcp, -⟩
    · obtain ⟨hheld, hfind⟩ := ih hsame.symm
      exact ⟨hheld, by simp [List.find?_append, hfind, hunstored]⟩
    · cases hcp

/-- Whatever the store holds, all from the lowest sequence up to it was completed. -/
theorem Chain.covered (h : Chain held runs after) (hafter : after = some cp) :
    ∃ b, lowest held runs = some b ∧
      ∀ q, b ≤ q → q ≤ cp.lastCommittedSequence → ∃ r ∈ runs, r.Completed q := by
  induction h generalizing cp with
  | nil =>
    subst hafter
    refine ⟨cp.lastCommittedSequence + 1, rfl, ?_⟩
    intro q hb hq
    omega
  | snoc hchain hkeeps ih =>
    rename_i runs before r after
    subst hafter
    have hold : ∀ cp₀, before = some cp₀ → ∃ b, lowest held (runs ++ [r]) = some b ∧
        ∀ q, b ≤ q → q ≤ cp₀.lastCommittedSequence → ∃ r' ∈ runs ++ [r], r'.Completed q := by
      intro cp₀ hcp₀
      obtain ⟨b, hb, hall⟩ := ih hcp₀
      refine ⟨b, lowest_append hb [r], fun q hbq hq => ?_⟩
      obtain ⟨r', hr', hcompleted⟩ := hall q hbq hq
      exact ⟨r', List.mem_append_left _ hr', hcompleted⟩
    rcases hkeeps.changed with hsame | ⟨landed, hlanded, hmem⟩
    · exact hold cp hsame.symm
    · cases hlanded
      obtain ⟨base, hbase, hfull⟩ := hkeeps.full cp hmem
      cases before with
      | some cp₀ =>
        obtain ⟨b, hb, hall⟩ := hold cp₀ rfl
        refine ⟨b, hb, fun q hbq hq => ?_⟩
        by_cases hle : q ≤ cp₀.lastCommittedSequence
        · exact hall q hbq hle
        · have hbase' : base = cp₀.lastCommittedSequence + 1 := by
            simpa [baseOf, sequenceOf] using hbase.symm
          exact ⟨r, by simp, hfull q (by omega) hq⟩
      | none =>
        obtain ⟨rfl, hfind⟩ := hchain.none_unwritten rfl
        have hstored : r.stored = true := r.stored_iff.mpr ⟨cp, hmem⟩
        refine ⟨base, ?_, fun q hbq hq => ⟨r, by simp, hfull q hbq hq⟩⟩
        simpa [lowest, List.find?_append, hfind, hstored, baseOf, sequenceOf] using hbase

namespace Life

variable {w w' : Life}

/-- The past runs are a chain, and the present one continues it. -/
structure Consistent (held : Option Checkpoint) (w : Life) : Prop where
  idle : w.current = none → Chain held w.past w.store
  running : ∀ c s, w.current = some (c, s) → c.request.filter = [] ∧ c.request.start = none ∧
    c.hasStore = true ∧ s.store = w.store ∧
    ∃ before, Chain held w.past before ∧ Delivery.Running c.delivery before (s.delivery c)

theorem Consistent.init (eventType : Text) (held : Option Checkpoint) :
    Consistent held (.init eventType held) :=
  ⟨fun _ => .nil, by simp [Life.init]⟩

theorem Consistent.step (h : Consistent held w) (hs : step w event = some w') :
    Consistent held w' := by
  cases event with
  | launch c =>
    simp only [Life.step] at hs
    split at hs
    · cases hs
      rename_i hcond
      simp only [admits, Bool.and_eq_true, decide_eq_true_eq, List.isEmpty_iff,
        Option.isNone_iff_eq_none] at hcond
      obtain ⟨hidle, ⟨⟨-, hfilter⟩, hstart⟩, hstore⟩ := hcond
      refine ⟨(fun hnone => by cases hnone), ?_⟩
      rintro c' s' ⟨⟩
      exact ⟨hfilter, hstart, hstore, rfl, w.store, h.idle hidle, .initial⟩
    · cases hs
  | input i =>
    obtain ⟨⟨c, s⟩, hcurrent, hs⟩ := Option.bind_eq_some_iff.mp hs
    obtain ⟨s', hstep, rfl⟩ := Option.map_eq_some_iff.mp hs
    obtain ⟨hfilter, hstart, hstore, -, before, hchain, hrunning⟩ := h.running c s hcurrent
    refine ⟨(fun hnone => by cases hnone), ?_⟩
    rintro c' s'' ⟨⟩
    refine ⟨hfilter, hstart, hstore, rfl, before, hchain, ?_⟩
    exact hrunning.steps (System.relaxed_of_filter hfilter) hstart hstore (System.step_steps hstep)
  | crash =>
    obtain ⟨⟨c, s⟩, hcurrent, rfl⟩ := Option.map_eq_some_iff.mp hs
    obtain ⟨-, -, -, hsame, before, hchain, hrunning⟩ := h.running c s hcurrent
    refine ⟨fun _ => ?_, (fun c s hnone => by cases hnone)⟩
    exact .snoc hchain (hsame ▸ hrunning.keeps)

/-- All runs so far, the present one included, are a chain. -/
theorem Consistent.chain (h : Consistent held w) : Chain held w.runs w.store := by
  cases hcurrent : w.current with
  | none => simpa [runs, hcurrent] using h.idle hcurrent
  | some run =>
    obtain ⟨c, s⟩ := run
    obtain ⟨-, -, -, hsame, before, hchain, hrunning⟩ := h.running c s hcurrent
    have hkeeps : Record.Keeps ⟨c, s.trace⟩ before w.store := hsame ▸ hrunning.keeps
    simpa [runs, hcurrent] using Chain.snoc hchain hkeeps

/-- Over any runs and crashes on one store, every sequence from the lowest it
answers for up to the one it holds had all its required triggers succeed in
some run. -/
theorem at_least_once (eventType : Text) (held : Option Checkpoint) (events : List LifeEvent)
    (w : Life) (h : Machine.run step (.init eventType held) events = some w) :
    ∀ cp, w.store = some cp → ∃ b, lowest held w.runs = some b ∧
      ∀ q, b ≤ q → q ≤ cp.lastCommittedSequence → ∃ r ∈ w.runs, r.Completed q := by
  have hconsistent : Consistent held w :=
    Machine.run_invariant (fun _ _ _ hw hs => hw.step hs) h (.init eventType held)
  intro cp hcp
  exact hconsistent.chain.covered hcp

/-- The process dies between the write of a put and its return, and another one starts. -/
def crashEvents : List LifeEvent :=
  .launch sampleSetup :: (sampleInputs.take 10).map .input ++
    [.crash, .launch sampleSetup, .input (.fetched true)]

theorem at_least_once_crash : ∃ w cp,
    Machine.run step (.init "mars".toList none) crashEvents = some w ∧ w.store = some cp ∧
      cp.lastCommittedSequence = 1 ∧ ∃ b, lowest none w.runs = some b ∧
        ∀ q, b ≤ q → q ≤ 1 → ∃ r ∈ w.runs, r.Completed q := by
  have hrun : (Machine.run step (.init "mars".toList none) crashEvents).bind (·.store) =
      some ⟨1, some "mars@1"⟩ := by
    decide +kernel
  obtain ⟨w, hw, hstore⟩ := Option.bind_eq_some_iff.mp hrun
  exact ⟨w, _, hw, hstore, rfl, at_least_once "mars".toList none crashEvents w hw _ hstore⟩

end Life
end Aviso.Watch
