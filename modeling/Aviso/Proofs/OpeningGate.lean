import Aviso.Proofs.CheckpointLaw
import Aviso.Proofs.Passage

namespace Aviso.Watch

open Finesse (Frame)
open Lib

namespace System

variable {c : Setup} {s₀ s s' : System} {historical : Bool} {log : List Traffic} {conn : Connection} {chunk : Chunk}

/-! ### The end of a watch that failed -/

/-- A watch that ends with an error item. -/
def Failing (e : ClientError) : Stage → Prop
  | .ended outcome => outcome = .fatal e
  | .reporting e' next => e' = e ∧ next = .break
  | .flushing _ | .startupExpired | .done => True
  | _ => False

/-- Once the error item is behind, it was sent, or nobody reads the stream any more. -/
def Reported (e : ClientError) (s : System) : Prop :=
  match s.stage with
  | .flushing _ | .startupExpired | .done => .reported e ∈ s.trace ∨ s.channel.closed = true
  | _ => True

theorem failing_leave (s : System) : Failing e (s.leave c).stage := by
  unfold leave
  split <;> trivial

theorem reported_leave (h : .reported e ∈ s.trace ∨ s.channel.closed = true) : Reported e (s.leave c) := by
  unfold leave
  split <;> exact h

theorem failing_stage (hfails : Failing e s.stage) (hs : s.stepStage c input = some s') :
    Failing e s'.stage ∧ (Reported e s → input = .cancelled ∨ Reported e s') := by
  unfold stepStage at hs
  cases hstage : s.stage with
  | ended outcome =>
    rw [hstage] at hs hfails
    cases hfails
    dsimp only at hs
    split at hs
    · cases hs
      exact ⟨⟨rfl, rfl⟩, fun _ => .inr trivial⟩
    · cases hs
  | reporting e' next =>
    rw [hstage] at hs hfails
    obtain ⟨rfl, rfl⟩ := hfails
    dsimp only at hs
    unfold stepReporting at hs
    split at hs
    · cases hs
      exact ⟨failing_leave s, fun _ => .inl rfl⟩
    · split at hs
      · rename_i hclosed
        cases hs
        exact ⟨failing_leave s, fun _ => .inr (reported_leave (.inr hclosed))⟩
      · cases hs
    · obtain ⟨mid, -, rfl⟩ := Option.map_eq_some_iff.mp hs
      exact ⟨failing_leave _, fun _ => .inr (reported_leave (.inl (by simp [emit])))⟩
    · cases hs
  | flushing landed =>
    rw [hstage] at hs
    obtain ⟨pending, -, hs⟩ := Option.bind_eq_some_iff.mp hs
    have hkeeps : ∀ e' : Effect, Reported e s → .reported e ∈ s.trace ++ [e'] ∨ s.channel.closed = true := by
      intro e' hreported
      simp only [Reported, hstage] at hreported
      exact hreported.imp_left (List.mem_append_left _)
    unfold stepFlushing at hs
    repeat' split at hs
    all_goals cases hs
    all_goals exact ⟨trivial, fun hreported => .inr (hkeeps _ hreported)⟩
  | startupExpired =>
    rw [hstage] at hs
    dsimp only at hs
    unfold stepStartupExpired at hs
    split at hs
    · obtain ⟨mid, haccept, rfl⟩ := Option.map_eq_some_iff.mp hs
      refine ⟨trivial, fun hreported => .inr ?_⟩
      simp only [Reported, hstage] at hreported
      unfold accept at haccept
      split at haccept
      · cases haccept
        exact hreported.imp_left (List.mem_append_left _)
      · cases haccept
    · split at hs
      · rename_i hclosed
        cases hs
        exact ⟨trivial, fun _ => .inr (.inr hclosed)⟩
      · cases hs
    · cases hs
  | done =>
    rw [hstage] at hs
    cases hs
  | _ =>
    rw [hstage] at hfails
    cases hfails

theorem failing_step (hfails : Failing e s.stage) (hs : step c s input = some s') :
    Failing e s'.stage ∧ (Reported e s → input = .cancelled ∨ Reported e s') := by
  unfold step at hs
  split at hs
  · split at hs
    · rename_i hstarting
      cases hs
      refine ⟨trivial, fun hreported => .inr ?_⟩
      cases hstage : s.stage with
      | flushing landed =>
        simp only [Reported, hstage] at hreported
        exact hreported
      | ended outcome => simp [starting, hstage, Stage.awaits] at hstarting
      | reporting e' next => simp [starting, hstage, Stage.awaits] at hstarting
      | startupExpired => simp [starting, hstage, Stage.awaits] at hstarting
      | done => simp [starting, hstage, Stage.awaits] at hstarting
      | _ =>
        rw [hstage] at hfails
        cases hfails
    · cases hs
  · split at hs
    · cases hs
    · cases hs
      exact ⟨hfails, fun hreported => .inr hreported⟩
  · cases hs
    refine ⟨hfails, fun _ => .inr ?_⟩
    unfold Reported
    split
    all_goals first | exact .inr rfl | trivial
  · exact failing_stage hfails hs

/-- However a watch that failed goes on, it ends, and with the error unless it is cancelled or dropped. -/
theorem run_failing {inputs : List Input} (hfails : Failing e s.stage) (hreported : Reported e s)
    (hrun : Machine.run (step c) s inputs = some s') :
    Failing e s'.stage ∧ (.cancelled ∈ inputs ∨ Reported e s') := by
  induction inputs generalizing s with
  | nil =>
    cases hrun
    exact ⟨hfails, .inr hreported⟩
  | cons input inputs ih =>
    obtain ⟨mid, hmid, hrest⟩ := Machine.run_cons hrun
    obtain ⟨hnext, hor⟩ := failing_step hfails hmid
    rcases hor hreported with rfl | hreported
    · refine ⟨?_, .inl List.mem_cons_self⟩
      exact Machine.run_invariant (P := fun s : System => Failing e s.stage)
        (fun _ _ _ h hs => (failing_step h hs).1) hrest hnext
    · obtain ⟨hend, hor⟩ := ih hnext hreported hrest
      exact ⟨hend, hor.imp_left (List.mem_cons_of_mem _)⟩

/-- What one connection lets through, from the state its request left, by the time its body has made
these frames. -/
structure OpeningGate (c : Setup) (historical : Bool) (s₀ s : System) (log : List Traffic) : Prop where
  shut : (∀ m, .message m ∈ Traffic.seen log → ¬ Opening.IsOpening c.serde historical m) →
    Untouched s₀ s ∧ Traffic.frames log = []
  refuses : ∀ before m after, Traffic.seen log = before ++ .message m :: after →
    (∀ m', .message m' ∈ before → ¬ Opening.Watched m') → Opening.Watched m →
    ¬ Opening.IsOpening c.serde historical m →
    Untouched s₀ s ∧ Traffic.frames log = [] ∧ ∃ e, s.stage = .ended (.fatal e) ∧
      ∀ inputs s', Machine.run (step c) s inputs = some s' →
        Failing e s'.stage ∧ (.cancelled ∈ inputs ∨ Reported e s')
  hands : ∀ before m after, Traffic.seen log = before ++ .message m :: after →
    (∀ m', .message m' ∈ before → ¬ Opening.Watched m') → Opening.IsOpening c.serde historical m →
    Traffic.frames log <+: after ∧ ∀ conn, s.stage.connection = some conn →
      Traffic.frames log ++ conn.parser.queue = after ∧ (s.stage = .reading conn → Traffic.frames log = after)
  received : receivedOf s.trace = receivedOf s₀.trace ++ (Traffic.frames log).filterMap c.notified

theorem Holds.opening_seen (h : Holds c historical s₀ s log conn gated) (hopened : conn.confirmed = true) :
    ∃ m, .message m ∈ Traffic.seen log ∧ Opening.IsOpening c.serde historical m := by
  obtain ⟨before, m, rfl, -, hm⟩ := h.opened hopened
  exact ⟨m, by simp [h.seen], hm⟩

theorem Holds.shut_of (h : Holds c historical s₀ s log conn gated)
    (hno : ∀ m, .message m ∈ Traffic.seen log → ¬ Opening.IsOpening c.serde historical m) :
    Untouched s₀ s ∧ Traffic.frames log = [] := by
  cases hconfirmed : conn.confirmed with
  | false =>
    obtain ⟨-, hframes, huntouched⟩ := h.shut hconfirmed
    exact ⟨huntouched, hframes⟩
  | true =>
    obtain ⟨m, hmem, hm⟩ := h.opening_seen hconfirmed
    exact absurd hm (hno m hmem)

theorem Place.shut (h : Place c historical s₀ s log)
    (hno : ∀ m, .message m ∈ Traffic.seen log → ¬ Opening.IsOpening c.serde historical m) :
    Untouched s₀ s ∧ Traffic.frames log = [] := by
  cases h with
  | waiting _ _ _ hlog huntouched =>
    subst hlog
    exact ⟨huntouched, rfl⟩
  | reading conn gated _ hholds _ _ => exact hholds.shut_of hno
  | draining conn chunk gated _ hholds _ => exact hholds.shut_of hno
  | left _ hverdict =>
    unfold Verdict at hverdict
    split at hverdict
    · exact ⟨hverdict.2.1, hverdict.1⟩
    · exact ⟨hverdict.2, hverdict.1⟩
    · rename_i hgate
      obtain ⟨before, m, hseen, -, hm⟩ := Opening.confirmed_some hgate
      exact absurd hm (hno m (by simp [hseen]))

/-- A connection that goes on has not been refused. -/
theorem Holds.not_refused (h : Holds c historical s₀ s log conn gated)
    (hqueue : conn.confirmed = false → conn.parser.queue = [])
    (hgate : Opening.confirmed c.serde historical (Traffic.seen log) = (.error e, rest)) : False := by
  cases hconfirmed : conn.confirmed with
  | false =>
    rw [h.confirmed_shut hconfirmed, hqueue hconfirmed] at hgate
    cases hgate
  | true =>
    obtain ⟨opening, hopening⟩ := h.confirmed_opened hconfirmed
    cases hopening.symm.trans hgate

theorem Place.refused (h : Place c historical s₀ s log) (htidy : s.stage.Tidy)
    (hgate : Opening.confirmed c.serde historical (Traffic.seen log) = (.error e, rest)) :
    Untouched s₀ s ∧ Traffic.frames log = [] ∧ s.stage = .ended (.fatal e) := by
  cases h with
  | waiting _ _ _ hlog _ =>
    subst hlog
    cases hgate
  | reading conn gated _ hholds _ hqueue => exact (hholds.not_refused (fun _ => hqueue) hgate).elim
  | draining conn chunk gated hbatch hholds _ =>
    exact (hholds.not_refused (tidy_batch htidy hbatch) hgate).elim
  | left _ hverdict =>
    unfold Verdict at hverdict
    rw [hgate] at hverdict
    exact ⟨hverdict.2.1, hverdict.1, hverdict.2.2⟩

theorem Holds.handed {behind : List Frame} (h : Holds c historical s₀ s log conn gated)
    (hqueue : conn.confirmed = false → conn.parser.queue = [])
    (hgate : Opening.confirmed c.serde historical (Traffic.seen log) = (.ok (some opening), behind)) :
    Traffic.frames log ++ conn.parser.queue = behind := by
  cases hconfirmed : conn.confirmed with
  | false =>
    rw [h.confirmed_shut hconfirmed, hqueue hconfirmed] at hgate
    cases hgate
  | true =>
    obtain ⟨opening', hopening⟩ := h.confirmed_opened hconfirmed
    exact congrArg Prod.snd (hopening.symm.trans hgate)

theorem connection_of_batch {stage : Stage} (h : stage.batch = some (conn, chunk)) :
    stage.connection = some conn ∧ ∀ conn', stage ≠ .reading conn' := by
  cases stage <;> cases h <;> exact ⟨rfl, by simp⟩

theorem Place.handed {behind : List Frame} (h : Place c historical s₀ s log) (htidy : s.stage.Tidy)
    (hgate : Opening.confirmed c.serde historical (Traffic.seen log) = (.ok (some opening), behind)) :
    Traffic.frames log <+: behind ∧ ∀ conn, s.stage.connection = some conn →
      Traffic.frames log ++ conn.parser.queue = behind ∧
        (s.stage = .reading conn → Traffic.frames log = behind) := by
  cases h with
  | waiting _ _ _ hlog _ =>
    subst hlog
    cases hgate
  | reading conn gated hstage hholds _ hqueue =>
    have hall := hholds.handed (fun _ => hqueue) hgate
    refine ⟨⟨_, hall⟩, ?_⟩
    intro conn' hconn
    rw [hstage] at hconn
    cases hconn
    refine ⟨hall, fun _ => ?_⟩
    rw [hqueue, List.append_nil] at hall
    exact hall
  | draining conn chunk gated hbatch hholds _ =>
    have hall := hholds.handed (tidy_batch htidy hbatch) hgate
    obtain ⟨hconnection, hnot⟩ := connection_of_batch hbatch
    refine ⟨⟨_, hall⟩, ?_⟩
    intro conn' hconn
    cases hconnection.symm.trans hconn
    exact ⟨hall, fun hreading => absurd hreading (hnot _)⟩
  | left hclosed hverdict =>
    unfold Verdict at hverdict
    rw [hgate] at hverdict
    refine ⟨hverdict, ?_⟩
    intro conn hconn
    cases hstage : s.stage <;> simp [hstage, Stage.connected, Stage.connection] at hclosed hconn

theorem Passage.gate (h : Passage c historical s₀ s log) : OpeningGate c historical s₀ s log where
  shut := h.place.shut
  refuses := by
    intro before m after hseen hbefore hw hno
    obtain ⟨e, hgate⟩ := Opening.confirmed_refused hbefore hw hno after
    rw [← hseen] at hgate
    obtain ⟨huntouched, hframes, hstage⟩ := h.place.refused h.tidy hgate
    refine ⟨huntouched, hframes, e, hstage, ?_⟩
    intro inputs s' hrun
    exact run_failing (by rw [hstage]; rfl) (by simp only [Reported, hstage]) hrun
  hands := by
    intro before m after hseen hbefore hm
    obtain ⟨opening, hgate⟩ := Opening.confirmed_opening hbefore hm after
    rw [← hseen] at hgate
    exact h.place.handed h.tidy hgate
  received := h.received

/-- Before the opening its request requires has come, a connection does nothing and any other event
of interest ends the watch with an error; the frames behind the opening are handled in order, each
once, for as long as the connection goes on. -/
theorem opening_gate (c : Setup) (a : Attempt) (s₀ s : System) (inputs : List Input)
    (hopening : s₀.stage = .opening a) (hrun : Machine.run (step c) s₀ inputs = some s)
    (hconnected : Machine.Each (step c) (fun s _ => s.stage.connected = true) s₀ inputs) :
    OpeningGate c a.wireFrom.isSome s₀ s (Machine.observe (step c) traffic s₀ inputs) := by
  have hfirst : Passage c a.wireFrom.isSome s₀ s₀ [] := by
    refine ⟨by rw [hopening]; trivial, ?_, (List.append_nil _).symm⟩
    refine .waiting (by rw [hopening]; rfl) (by rw [hopening]; rfl) ?_ rfl (.refl s₀)
    intro a' ha'
    cases hopening.symm.trans ha'
    rfl
  have hpassage := Machine.run_observed (I := Passage c a.wireFrom.isSome s₀)
    (fun _ _ _ _ h hconnected hs => passage_step h hconnected hs) hrun hconnected hfirst
  exact hpassage.gate

end System

/-- The sample watch without a store, where the server closes the stream. -/
def closingSetup : Setup :=
  { sampleSetup with
    hasStore := false
    serde := { sampleSerde with
      connectionClosing := fun data =>
        if data = "\x7b\"reason\":\"end_of_stream\"\x7d".toList then some ⟨"end_of_stream".toList, none⟩
        else none } }

/-- One chunk with the opening, the close and a notification behind it. -/
def closingInputs : List Input :=
  [.response sampleResponse,
    .chunk (sampleOpening "live-notification" "connection_established" ++
      sampleEvent "connection-closing" "\x7b\"reason\":\"end_of_stream\"\x7d" ++ sampleNotification 1),
    .proceed]

namespace System

theorem closing_run : ∃ a s₀ s, Machine.run (step closingSetup) (start none) [.proceed, .jitter 0] = some s₀ ∧
    s₀.stage = .opening a ∧ a.wireFrom = none ∧ Machine.run (step closingSetup) s₀ closingInputs = some s ∧
    Machine.Each (step closingSetup) (fun s _ => s.stage.connected = true) s₀ closingInputs ∧
    s.stage.connected = false ∧
    Traffic.seen (Machine.observe (step closingSetup) traffic s₀ closingInputs) =
      [.message ⟨"live-notification".toList, "\x7b\"type\":\"connection_established\"\x7d".toList, none⟩,
        .message ⟨"connection-closing".toList, "\x7b\"reason\":\"end_of_stream\"\x7d".toList, none⟩,
        .message ⟨"replay".toList,
          "\x7b\"id\":\"mars@1\",\"data\":\x7b\"identifier\":\x7b\x7d\x7d\x7d".toList, none⟩] ∧
    Traffic.frames (Machine.observe (step closingSetup) traffic s₀ closingInputs) =
      [.message ⟨"connection-closing".toList, "\x7b\"reason\":\"end_of_stream\"\x7d".toList, none⟩] := by
  have hrun : (Machine.run (step closingSetup) (start none) [.proceed, .jitter 0]).any (fun s₀ =>
      (match s₀.stage with
        | .opening a => a.wireFrom.isNone
        | _ => false) &&
      (Machine.run (step closingSetup) s₀ closingInputs).any (fun s => !s.stage.connected) &&
      decide (Machine.Each (step closingSetup) (fun s _ => s.stage.connected = true) s₀ closingInputs) &&
      decide (Traffic.seen (Machine.observe (step closingSetup) traffic s₀ closingInputs) =
        [.message ⟨"live-notification".toList, "\x7b\"type\":\"connection_established\"\x7d".toList, none⟩,
          .message ⟨"connection-closing".toList, "\x7b\"reason\":\"end_of_stream\"\x7d".toList, none⟩,
          .message ⟨"replay".toList,
            "\x7b\"id\":\"mars@1\",\"data\":\x7b\"identifier\":\x7b\x7d\x7d\x7d".toList, none⟩]) &&
      decide (Traffic.frames (Machine.observe (step closingSetup) traffic s₀ closingInputs) =
        [.message ⟨"connection-closing".toList, "\x7b\"reason\":\"end_of_stream\"\x7d".toList, none⟩])) = true := by
    decide +kernel
  obtain ⟨s₀, hs₀, hrest⟩ := (Option.any_eq_true _ _).mp hrun
  simp only [Bool.and_eq_true, decide_eq_true_eq] at hrest
  obtain ⟨⟨⟨⟨hstage, hconn⟩, heach⟩, hseen⟩, hframes⟩ := hrest
  obtain ⟨s, hs, hclosed⟩ := (Option.any_eq_true _ _).mp hconn
  split at hstage
  · rename_i a ha
    exact ⟨a, s₀, s, hs₀, ha, Option.isNone_iff_eq_none.mp hstage, hs, heach, by simpa using hclosed, hseen, hframes⟩
  · cases hstage

/-- A frame behind the opening is not handled when the server closes the stream before it. -/
theorem opening_gate_cut : ¬ ∀ (c : Setup) (a : Attempt) (s₀ s : System) (inputs : List Input),
    s₀.stage = .opening a → Machine.run (step c) s₀ inputs = some s →
    Machine.Each (step c) (fun s _ => s.stage.connected = true) s₀ inputs → s.stage.connected = false →
    ∀ before m after, Traffic.seen (Machine.observe (step c) traffic s₀ inputs) = before ++ .message m :: after →
      (∀ m', .message m' ∈ before → ¬ Opening.Watched m') →
      Opening.IsOpening c.serde a.wireFrom.isSome m →
      Traffic.frames (Machine.observe (step c) traffic s₀ inputs) = after := by
  intro hclaim
  obtain ⟨a, s₀, s, -, ha, hfrom, hs, heach, hclosed, hseen, hframes⟩ := closing_run
  have hall := hclaim closingSetup a s₀ s closingInputs ha hs heach hclosed [] _ _ hseen (by simp) (by
    rw [hfrom]
    exact ⟨rfl, _, rfl, rfl, none, rfl⟩)
  have hlength := congrArg List.length (hframes.symm.trans hall)
  cases hlength

theorem opening_gate_closing : ∃ a s₀ s,
    Machine.run (step closingSetup) (start none) [.proceed, .jitter 0] = some s₀ ∧ s₀.stage = .opening a ∧
      Machine.run (step closingSetup) s₀ closingInputs = some s ∧
      OpeningGate closingSetup a.wireFrom.isSome s₀ s
        (Machine.observe (step closingSetup) traffic s₀ closingInputs) := by
  obtain ⟨a, s₀, s, hs₀, ha, -, hs, heach, -⟩ := closing_run
  exact ⟨a, s₀, s, hs₀, ha, hs, opening_gate closingSetup a s₀ s closingInputs ha hs heach⟩

end System
end Aviso.Watch
