import Aviso.Proofs.Lossless

namespace Aviso.Watch

/-- The request of the connection a history ends in, and the sequences it brought. -/
def connectionOf (t : List Effect) : Option WireWatchRequest × List Nat :=
  t.foldl (fun conn e =>
    match e with
    | .requested body => (some body, [])
    | .received n => (conn.1, n.sequence :: conn.2)
    | _ => conn) (none, [])

/-- A server whose connections each bring rising sequences, from the one asked
for, or above all sent before where none was. -/
def ServerOrdered (pre : List Effect) : Effect → Prop
  | .received n =>
    (∀ q ∈ (connectionOf pre).2, q < n.sequence) ∧
      match (connectionOf pre).1.bind (·.fromId) with
      | some a => a ≤ n.sequence
      | none => ∀ q ∈ sentOf pre, q < n.sequence
  | _ => True

instance (pre : List Effect) (e : Effect) : Decidable (ServerOrdered pre e) := by
  unfold ServerOrdered
  cases e <;> try infer_instance
  dsimp only
  cases (connectionOf pre).1.bind (·.fromId) <;> infer_instance

/-- Once something was sent, a request names a sequence and no date. -/
def Resuming (pre : List Effect) (e : Effect) : Prop :=
  ∀ body, e = .requested body → sentOf pre ≠ [] → body.fromId.isSome ∧ body.fromDate = none

theorem connectionOf_snoc (t : List Effect) (e : Effect) :
    connectionOf (t ++ [e]) = match e with
      | .requested body => (some body, [])
      | .received n => ((connectionOf t).1, n.sequence :: (connectionOf t).2)
      | _ => connectionOf t := by
  unfold connectionOf
  rw [List.foldl_append]
  cases e <;> rfl

namespace Delivery

variable {c : Config} {σ σ' : State}

/-- Nothing was dispatched or sent above the last delivery. -/
def Bounded (σ : State) : Prop :=
  ∀ q, q ∈ dispatchedOf σ.trace ∨ q ∈ sentOf σ.trace →
    ∃ d, lastDelivered σ.pending σ.commit = some d ∧ q ≤ d

/-- The connection cannot bring `q` again. -/
def Known (t : List Effect) (q : Nat) : Prop :=
  q ∈ (connectionOf t).2 ∨ ∃ a, (connectionOf t).1.bind (·.fromId) = some a ∧ q < a

/-- `n` came on this connection, above the last delivery. -/
def Ahead (σ : State) (n : Notification) : Prop :=
  (∀ d, lastDelivered σ.pending σ.commit = some d → d < n.sequence) ∧
    n.sequence ∈ (connectionOf σ.trace).2

/-- Where the deliveries of an ordered server stand in each phase. -/
def Placed (σ : State) : Prop :=
  match σ.phase with
  | .idle => Bounded σ
  | .asking _ body => Bounded σ ∧ body.fromId = (lastDelivered σ.pending σ.commit).map (· + 1)
  | .listening _ => Bounded σ ∧ ∀ d, lastDelivered σ.pending σ.commit = some d → Known σ.trace d
  | .putting _ n => Bounded σ ∧ Ahead σ n
  | .dispatching _ n _ | .sending _ n =>
    Ahead σ n ∧ (∀ q ∈ dispatchedOf σ.trace, q ≤ n.sequence) ∧ ∀ q ∈ sentOf σ.trace, q < n.sequence
  | .resolving | .leaving => True

structure Rising (σ : State) : Prop where
  dispatched : (dispatchedOf σ.trace).Pairwise (· < ·)
  sent : (sentOf σ.trace).Pairwise (· < ·)
  placed : Placed σ

theorem Rising.initial : Rising (.initial held) where
  dispatched := by simp [State.initial, dispatchedOf]
  sent := by simp [State.initial, sentOf]
  placed := trivial

theorem Rising.enter (h : Rising σ) (hp : Placed (σ.enter phase)) : Rising (σ.enter phase) :=
  ⟨h.dispatched, h.sent, hp⟩

/-- An effect that is none of those the order is about. -/
def Aside (e : Effect) : Prop :=
  e.sentSequence = none ∧ e.dispatchedSequence = none ∧
    ∀ t, connectionOf (t ++ [e]) = connectionOf t

theorem Aside.of_quiet (h : e.Quiet) : Aside e :=
  ⟨h.inert.2.1, h.inert.2.2.1, fun t => by
    rw [connectionOf_snoc]
    cases e <;> first | rfl | exact h.elim⟩

theorem Rising.emit (h : Rising σ) (he : Aside e) : Rising (σ.emit e) := by
  obtain ⟨hsent, hdis, hconn⟩ := he
  have hs : sentOf (σ.trace ++ [e]) = sentOf σ.trace := by simp [sentOf, hsent]
  have hd : dispatchedOf (σ.trace ++ [e]) = dispatchedOf σ.trace := by simp [dispatchedOf, hdis]
  refine ⟨hd ▸ h.dispatched, hs ▸ h.sent, ?_⟩
  have hp := h.placed
  unfold Placed Bounded Ahead Known at *
  simpa only [State.emit, hs, hd, hconn] using hp

theorem Aside.of_rfl (hsent : e.sentSequence = none) (hdis : e.dispatchedSequence = none)
    (hconn : ∀ t, connectionOf (t ++ [e]) = connectionOf t) : Aside e := ⟨hsent, hdis, hconn⟩

theorem aside_landed (cp : Aviso.State.Checkpoint) : Aside (.landed cp) :=
  .of_rfl rfl rfl fun t => connectionOf_snoc t _

theorem aside_put (cp : Aviso.State.Checkpoint) (ok : Bool) : Aside (.put cp ok) :=
  .of_rfl rfl rfl fun t => connectionOf_snoc t _

theorem aside_attempted (i : Nat) (result : Except TriggerError Unit) :
    Aside (.attempted i result) :=
  .of_rfl rfl rfl fun t => connectionOf_snoc t _

/-- What an ordered server brings next is above all that was delivered. -/
theorem ahead_of_ordered (hknown : ∀ d, lastDelivered σ.pending σ.commit = some d → Known σ.trace d)
    (hserver : ServerOrdered σ.trace (.received n)) : Ahead (σ.emit (.received n)) n := by
  obtain ⟨hrising, hfrom⟩ := hserver
  refine ⟨?_, ?_⟩
  · intro d hd
    rcases hknown d hd with hmem | ⟨a, ha, hda⟩
    · exact hrising d hmem
    · rw [ha] at hfrom
      exact Nat.lt_of_lt_of_le hda hfrom
  · simp [State.emit, connectionOf_snoc]

theorem Bounded.lt (h : Bounded σ) (hahead : Ahead σ n)
    (hq : q ∈ dispatchedOf σ.trace ∨ q ∈ sentOf σ.trace) : q < n.sequence := by
  obtain ⟨d, hd, hqd⟩ := h q hq
  exact Nat.lt_of_le_of_lt hqd (hahead.1 d hd)

theorem Bounded.receive (h : Bounded σ) : Bounded ((σ.emit (.received n)).enter phase) := by
  intro q hq
  exact h q (by simpa [State.enter, State.emit, sentOf, dispatchedOf, Effect.sentSequence,
    Effect.dispatchedSequence] using hq)

/-- Receiving changes what the connection brought and nothing else. -/
theorem Rising.receive (h : Rising σ) (hphase : Placed ((σ.emit (.received n)).enter phase)) :
    Rising ((σ.emit (.received n)).enter phase) := by
  have hs : sentOf (σ.trace ++ [.received n]) = sentOf σ.trace := by
    simp [sentOf, Effect.sentSequence]
  have hd : dispatchedOf (σ.trace ++ [.received n]) = dispatchedOf σ.trace := by
    simp [dispatchedOf, Effect.dispatchedSequence]
  exact ⟨hd.symm ▸ h.dispatched, hs.symm ▸ h.sent, hphase⟩

theorem pairwise_snoc {l : List Nat} (h : l.Pairwise (· < ·)) (hlt : ∀ q ∈ l, q < n) :
    (l ++ [n]).Pairwise (· < ·) := by
  refine List.pairwise_append.mpr ⟨h, List.pairwise_singleton _ _, ?_⟩
  intro a ha b hb
  exact List.mem_singleton.mp hb ▸ hlt a ha

/-- A notification ahead of all others is dispatched after all others. -/
theorem Rising.dispatch (h : Rising σ) (hbound : Bounded σ) (hahead : Ahead σ n) :
    Rising { (σ.emit (.dispatched n)).enter (.dispatching g n 0) with
      commit := lastDelivered σ.pending σ.commit } := by
  have hs : sentOf (σ.trace ++ [.dispatched n]) = sentOf σ.trace := by
    simp [sentOf, Effect.sentSequence]
  have hd : dispatchedOf (σ.trace ++ [.dispatched n]) = dispatchedOf σ.trace ++ [n.sequence] := by
    simp [dispatchedOf, Effect.dispatchedSequence]
  have hidem : lastDelivered σ.pending (lastDelivered σ.pending σ.commit) =
      lastDelivered σ.pending σ.commit := by
    cases hp : σ.pending <;> simp [lastDelivered]
  refine ⟨?_, hs.symm ▸ h.sent, ?_⟩
  · show (dispatchedOf (σ.trace ++ [.dispatched n])).Pairwise (· < ·)
    rw [hd]
    exact pairwise_snoc h.dispatched fun q hq => hbound.lt hahead (.inl hq)
  · refine ⟨⟨?_, ?_⟩, ?_, ?_⟩
    · intro d hlast
      exact hahead.1 d (hidem.symm.trans hlast)
    · show n.sequence ∈ (connectionOf (σ.trace ++ [.dispatched n])).2
      rw [connectionOf_snoc]
      exact hahead.2
    · show ∀ q ∈ dispatchedOf (σ.trace ++ [.dispatched n]), q ≤ n.sequence
      rw [hd]
      intro q hq
      rcases List.mem_append.mp hq with hq | hq
      · exact Nat.le_of_lt (hbound.lt hahead (.inl hq))
      · exact Nat.le_of_eq (List.mem_singleton.mp hq)
    · show ∀ q ∈ sentOf (σ.trace ++ [.dispatched n]), q < n.sequence
      rw [hs]
      exact fun q hq => hbound.lt hahead (.inr hq)

theorem Rising.send (h : Rising σ) (hcur : Cursors c σ) (hp : σ.phase = .sending g n) :
    Rising { (σ.emit (.sent n)).enter (.listening g) with
      pending := raisePending σ.commit σ.pending n } := by
  have hplaced := h.placed
  simp only [Placed, hp] at hplaced
  obtain ⟨hahead, hdis, hsent⟩ := hplaced
  have hs : sentOf (σ.trace ++ [.sent n]) = sentOf σ.trace ++ [n.sequence] := by
    simp [sentOf, Effect.sentSequence]
  have hd : dispatchedOf (σ.trace ++ [.sent n]) = dispatchedOf σ.trace := by
    simp [dispatchedOf, Effect.dispatchedSequence]
  have hlast : lastDelivered (raisePending σ.commit σ.pending n) σ.commit = some n.sequence := by
    rw [raise_lastDelivered hcur]
    cases hold : lastDelivered σ.pending σ.commit with
    | none => simp [raised]
    | some d =>
      have := hahead.1 d hold
      simp only [raised, Option.getD_some, Option.some.injEq]
      omega
  refine ⟨hd.symm ▸ h.dispatched, ?_, ?_, ?_⟩
  · show (sentOf (σ.trace ++ [.sent n])).Pairwise (· < ·)
    rw [hs]
    exact pairwise_snoc h.sent hsent
  · intro q hq
    refine ⟨n.sequence, hlast, ?_⟩
    simp only [State.enter, State.emit, hs, hd, List.mem_append, List.mem_singleton] at hq
    rcases hq with hq | hq | hq
    · exact hdis q hq
    · exact Nat.le_of_lt (hsent q hq)
    · exact Nat.le_of_eq hq
  · intro d hold
    cases hlast.symm.trans hold
    left
    show n.sequence ∈ (connectionOf (σ.trace ++ [.sent n])).2
    rw [connectionOf_snoc]
    exact hahead.2

theorem Rising.step (h : Rising σ) (hcur : Cursors c σ)
    (hserver : Lib.Always ServerOrdered σ'.trace) (hs : Step c σ σ') : Rising σ' := by
  have hplaced := h.placed
  unfold Placed at hplaced
  cases hs with
  | quiet e he => exact h.emit (.of_quiet he)
  | resolve start hp =>
    refine ⟨h.dispatched, h.sent, ?_⟩
    intro q hq
    have hquiet := hcur.unresolved hp
    rcases hq with hq | hq
    · obtain ⟨e, he, heq⟩ := List.mem_filterMap.mp hq
      cases (hquiet e he).inert.2.2.1.symm.trans heq
    · obtain ⟨e, he, heq⟩ := List.mem_filterMap.mp hq
      cases (hquiet e he).inert.2.1.symm.trans heq
  | ask body hp hasks =>
    simp only [hp] at hplaced
    refine h.enter ⟨hplaced, ?_⟩
    have hd := resume_sequence hcur
    exact hasks.1.trans (by rw [← hd]; rfl)
  | request hp =>
    rename_i body start
    simp only [hp] at hplaced
    obtain ⟨hbound, hfrom⟩ := hplaced
    have hs : sentOf (σ.trace ++ [.requested body]) = sentOf σ.trace := by
      simp [sentOf, Effect.sentSequence]
    have hd : dispatchedOf (σ.trace ++ [.requested body]) = dispatchedOf σ.trace := by
      simp [dispatchedOf, Effect.dispatchedSequence]
    refine ⟨hd.symm ▸ h.dispatched, hs.symm ▸ h.sent, ?_, ?_⟩
    · intro q hq
      exact hbound q (by simpa only [State.enter, State.emit, hs, hd] using hq)
    · intro d hlast
      have hlast : lastDelivered σ.pending σ.commit = some d := hlast
      refine .inr ⟨d + 1, ?_, Nat.lt_succ_self d⟩
      simp [State.enter, State.emit, connectionOf_snoc, hfrom, hlast]
  | lose hp =>
    simp only [hp] at hplaced
    exact h.enter hplaced.1
  | leave => exact h.enter trivial
  | refuse n hp => exact h.receive trivial
  | hold n p hp =>
    simp only [hp] at hplaced
    exact h.receive ⟨hplaced.1.receive, ahead_of_ordered hplaced.2 hserver.last⟩
  | take n hp =>
    simp only [hp] at hplaced
    have hahead := ahead_of_ordered hplaced.2 hserver.of_append.last
    have hreceived : Rising ((σ.emit (.received n)).enter .leaving) := h.receive trivial
    exact hreceived.dispatch hplaced.1.receive hahead
  | land p hp =>
    have hlanded := h.emit (aside_landed p.checkpoint)
    exact ⟨hlanded.dispatched, hlanded.sent, hlanded.placed⟩
  | stored p hp hpend =>
    rename_i n g
    simp only [hp] at hplaced
    obtain ⟨hbound, hlast, hmem⟩ := hplaced
    have hput := h.emit (aside_put p.checkpoint true)
    have hahead : Ahead (σ.emit (.put p.checkpoint true)) n := by
      refine ⟨hlast, ?_⟩
      show n.sequence ∈ (connectionOf (σ.trace ++ [.put p.checkpoint true])).2
      rw [connectionOf_snoc]
      exact hmem
    have hbound : Bounded (σ.emit (.put p.checkpoint true)) := by
      intro q hq
      exact hbound q (by simpa [State.emit, sentOf, dispatchedOf, Effect.sentSequence,
        Effect.dispatchedSequence] using hq)
    have hcommit : lastDelivered σ.pending σ.commit = some p.sequence := by
      simp [lastDelivered, hpend]
    exact hcommit ▸ hput.dispatch hbound hahead
  | rejected p hp => exact (h.emit (aside_put p.checkpoint false)).enter trivial
  | retry result hp => exact h.emit (aside_attempted _ result)
  | pass result hp hr =>
    rename_i i g n
    have hattempted := h.emit (aside_attempted i result)
    have hplaced := hattempted.placed
    simp only [Placed, State.emit, hp] at hplaced
    exact hattempted.enter hplaced
  | complete hp =>
    simp only [hp] at hplaced
    exact h.enter hplaced
  | send hp => exact h.send hcur hp
  | flush p hp =>
    have hlanded := h.emit (aside_landed p.checkpoint)
    exact ⟨hlanded.dispatched, hlanded.sent, hlanded.placed⟩
  | flushed p ok hp => exact h.emit (aside_put p.checkpoint ok)

/-- A request in the making resumes after the last delivery, if there was one. -/
structure Resumed (σ : State) : Prop where
  law : Lib.Always Resuming σ.trace
  asking : ∀ start body, σ.phase = .asking start body → ∀ d,
    lastDelivered σ.pending σ.commit = some d → body.fromId.isSome ∧ body.fromDate = none

theorem Resumed.initial : Resumed (.initial held) := ⟨.nil, by simp [State.initial]⟩

theorem Resumed.emit (h : Resumed σ) (he : ∀ body, e ≠ .requested body) : Resumed (σ.emit e) :=
  ⟨h.law.snoc fun body heq => absurd heq (he body), h.asking⟩

theorem Resumed.enter (h : Resumed σ) (hp : ∀ start body, phase ≠ .asking start body) :
    Resumed (σ.enter phase) :=
  ⟨h.law, fun start body heq => absurd heq (hp start body)⟩

/-- A watch that sent something has a last delivery. -/
theorem delivered_of_sent (hcur : Cursors c σ) (hsent : sentOf σ.trace ≠ []) :
    ∃ d, lastDelivered σ.pending σ.commit = some d := by
  obtain ⟨q, hq⟩ := List.exists_mem_of_ne_nil _ hsent
  cases hf : σ.floor with
  | some f =>
    obtain ⟨x, hx, -⟩ := hcur.floor_le f hf
    cases hp : σ.pending with
    | some p => exact ⟨p.sequence, by simp [lastDelivered]⟩
    | none => exact ⟨x, by simp [lastDelivered, hx]⟩
  | none =>
    obtain ⟨p, hp, -⟩ := hcur.sent_le q hq (by simp [Above, hf])
    exact ⟨p.sequence, by simp [lastDelivered, hp]⟩

theorem asks_resume (hasks : Asks σ.resume body)
    (hd : lastDelivered σ.pending σ.commit = some d) :
    body.fromId.isSome ∧ body.fromDate = none := by
  have hresume : σ.resume = some (.afterSequence d) := by simp [State.resume, hd]
  rw [hresume] at hasks
  obtain ⟨hid, hdate⟩ := hasks
  refine ⟨by simp [hid, ResumeStart.sequence], ?_⟩
  cases hb : body.fromDate with
  | none => rfl
  | some t =>
    obtain ⟨d', hd'⟩ := hdate.mp (by simp [hb])
    cases hd'

theorem Resumed.step (h : Resumed σ) (hcur : Cursors c σ) (hs : Step c σ σ') : Resumed σ' := by
  cases hs with
  | quiet e he =>
    refine h.emit ?_
    rintro body rfl
    exact he
  | resolve start hp => exact ⟨h.law, by simp⟩
  | ask body hp hasks =>
    refine ⟨h.law, ?_⟩
    rintro start body' ⟨⟩ d hd
    exact asks_resume hasks hd
  | request hp =>
    rename_i body start
    refine ⟨h.law.snoc ?_, by simp [State.enter]⟩
    rintro body' ⟨⟩ hsent
    obtain ⟨d, hd⟩ := delivered_of_sent hcur hsent
    exact h.asking start body hp d hd
  | lose => exact h.enter (by simp)
  | leave => exact h.enter (by simp)
  | refuse n => exact (h.emit (e := .received n) (by simp)).enter (by simp)
  | hold n p hp => exact (h.emit (e := .received n) (by simp)).enter (by simp)
  | take n hp =>
    have hdispatched := (h.emit (e := .received n) (by simp)).emit (e := .dispatched n) (by simp)
    exact ⟨hdispatched.law, by simp [State.enter]⟩
  | land p hp =>
    have hlanded := h.emit (e := .landed p.checkpoint) (by simp)
    exact ⟨hlanded.law, hlanded.asking⟩
  | stored p hp hpend =>
    rename_i n g
    have hdispatched :=
      (h.emit (e := .put p.checkpoint true) (by simp)).emit (e := .dispatched n) (by simp)
    exact ⟨hdispatched.law, by simp [State.enter]⟩
  | rejected p => exact (h.emit (e := .put p.checkpoint false) (by simp)).enter (by simp)
  | retry result hp => exact h.emit (by simp)
  | pass result hp hr =>
    rename_i i g n
    exact (h.emit (e := .attempted i result) (by simp)).enter (by simp)
  | complete => exact h.enter (by simp)
  | send hp =>
    rename_i n g
    have hsent := h.emit (e := .sent n) (by simp)
    exact ⟨hsent.law, by simp [State.enter]⟩
  | flush p hp =>
    have hlanded := h.emit (e := .landed p.checkpoint) (by simp)
    exact ⟨hlanded.law, hlanded.asking⟩
  | flushed p ok hp => exact h.emit (by simp)

/-- A step only adds to the trace. -/
theorem step_trace (hs : Step c σ σ') : ∃ es, σ'.trace = σ.trace ++ es := by
  cases hs <;> simp only [State.enter, State.emit, List.append_assoc] <;>
    first | exact ⟨_, rfl⟩ | exact ⟨[], by simp⟩

end Delivery

open Lib (Machine Always)
open State (Checkpoint)

namespace System

variable {c : Setup} {held : Option Checkpoint} {inputs : List Input} {s : System}

theorem run_resumed (h : Machine.run (step c) (start held) inputs = some s) :
    Delivery.Resumed (s.delivery c) := by
  have hsteps := Machine.run_refines (delivery c) (fun _ _ _ => step_steps) h
  have hboth : Delivery.Sound c.delivery held (s.delivery c) ∧ Delivery.Resumed (s.delivery c) := by
    refine Lib.star_invariant (P := fun σ => Delivery.Sound c.delivery held σ ∧
      Delivery.Resumed σ) ?_ hsteps ⟨.initial, .initial⟩
    intro σ σ' hσ hstep
    exact ⟨hσ.1.step hstep, hσ.2.step hσ.1.cursors hstep⟩
  exact hboth.2

theorem run_rising (h : Machine.run (step c) (start held) inputs = some s)
    (hserver : Always ServerOrdered s.trace) : Delivery.Rising (s.delivery c) := by
  have hsteps := Machine.run_refines (delivery c) (fun _ _ _ => step_steps) h
  have hboth : Delivery.Sound c.delivery held (s.delivery c) ∧
      (Always ServerOrdered s.trace → Delivery.Rising (s.delivery c)) := by
    refine Lib.star_invariant (P := fun σ => Delivery.Sound c.delivery held σ ∧
      (Always ServerOrdered σ.trace → Delivery.Rising σ)) ?_ hsteps
      ⟨.initial, fun _ => .initial⟩
    intro σ σ' hσ hstep
    refine ⟨hσ.1.step hstep, fun hordered => ?_⟩
    obtain ⟨es, htrace⟩ := Delivery.step_trace hstep
    have hbefore : Always ServerOrdered σ.trace := (htrace ▸ hordered).of_append
    exact (hσ.2 hbefore).step hσ.1.cursors hordered hstep
  exact hboth.2 hserver

/-- In every run against a server that sends rising sequences from the one asked
for, nothing is dispatched or sent twice, and once something was sent every
request resumes after it. -/
theorem nothing_twice (c : Setup) (held : Option Checkpoint) (inputs : List Input) (s : System)
    (h : Machine.run (step c) (start held) inputs = some s)
    (hserver : Always ServerOrdered s.trace) :
    (dispatchedOf s.trace).Pairwise (· < ·) ∧ (sentOf s.trace).Pairwise (· < ·) ∧
      Always Resuming s.trace := by
  have hrising := run_rising h hserver
  exact ⟨hrising.dispatched, hrising.sent, (run_resumed h).law⟩

/-- The connection is lost after the first notification and resumes after it. -/
def reconnectInputs : List Input :=
  [.fetched true, .jitter 0, .response sampleResponse,
    .chunk (sampleOpening "live-notification" "connection_established" ++ sampleNotification 1),
    .proceed, .probe false, .attempt (.ok ()), .accepted, .proceed, .eof, .proceed, .elapsed false,
    .jitter 0, .response sampleResponse,
    .chunk (sampleOpening "replay-control" "replay_started" ++ sampleNotification 2),
    .proceed, .lands, .stored, .probe false, .attempt (.ok ()), .pull, .accepted]

theorem nothing_twice_reconnect : ∃ s,
    Machine.run (step sampleSetup) (start none) reconnectInputs = some s ∧
      dispatchedOf s.trace = [1, 2] ∧ (dispatchedOf s.trace).Pairwise (· < ·) ∧
      (sentOf s.trace).Pairwise (· < ·) ∧ Always Resuming s.trace := by
  have hrun : (Machine.run (step sampleSetup) (start none) reconnectInputs).map
      (fun s => (dispatchedOf s.trace, decide (Always ServerOrdered s.trace))) =
        some ([1, 2], true) := by
    decide +kernel
  obtain ⟨s, hs, heq⟩ := Option.map_eq_some_iff.mp hrun
  simp only [Prod.mk.injEq, decide_eq_true_eq] at heq
  exact ⟨s, hs, heq.1, nothing_twice sampleSetup none reconnectInputs s hs heq.2⟩

end System
end Aviso.Watch
