import Aviso.Proofs.CheckpointLaw

namespace Aviso.Watch

/-- The first sequence a watch answers for: the one after its start position,
else the first it sent. -/
def baseOf (floor : Option Nat) (t : List Effect) : Option Nat :=
  match floor with
  | some f => some (f + 1)
  | none => (sentOf t).head?

/-- Everything below `s` that the watch answers for was sent. -/
def Reached (floor : Option Nat) (t : List Effect) (s : Nat) : Prop :=
  ∀ b, baseOf floor t = some b → ∀ q, b ≤ q → q < s → q ∈ sentOf t

/-- A notification is dispatched or sent only when no sequence below it is missing. -/
def NoGap (floor : Option Nat) (pre : List Effect) (e : Effect) : Prop :=
  ∀ s, e.sentSequence = some s ∨ e.dispatchedSequence = some s → Reached floor pre s

variable {floor : Option Nat} {t : List Effect}

theorem Reached.le (h : Reached floor t s) (hle : s' ≤ s) : Reached floor t s' :=
  fun b hb q hbq hqs => h b hb q hbq (Nat.lt_of_lt_of_le hqs hle)

theorem Reached.congr (h : Reached floor t s) (hsent : sentOf t' = sentOf t) :
    Reached floor t' s := by
  intro b hb q hbq hqs
  have hb' : baseOf floor t = some b := by
    unfold baseOf at *
    rwa [hsent] at hb
  exact hsent ▸ h b hb' q hbq hqs

theorem baseOf_snoc (hne : floor.isSome ∨ sentOf t ≠ []) (es : List Effect) :
    baseOf floor (t ++ es) = baseOf floor t := by
  unfold baseOf
  cases floor with
  | some f => rfl
  | none =>
    cases hs : sentOf t with
    | nil => simp [hs] at hne
    | cons q qs => simp [hs]

theorem Reached.append (h : Reached floor t s) (hne : floor.isSome ∨ sentOf t ≠ [])
    (es : List Effect) : Reached floor (t ++ es) s := by
  intro b hb q hbq hqs
  rw [baseOf_snoc hne] at hb
  rw [sentOf_append]
  exact List.mem_append_left _ (h b hb q hbq hqs)

/-- Sending what was next moves the mark by one. -/
theorem Reached.send (h : Reached floor t n.sequence) :
    Reached floor (t ++ [.sent n]) (n.sequence + 1) := by
  have hn : n.sequence ∈ sentOf (t ++ [.sent n]) := mem_sentOf.mpr ⟨n, by simp, rfl⟩
  intro b hb q hbq hq
  rcases Nat.lt_succ_iff_lt_or_eq.mp hq with hq | rfl
  · by_cases hne : floor.isSome ∨ sentOf t ≠ []
    · exact h.append hne [.sent n] b hb q hbq hq
    · have hfirst : baseOf floor (t ++ [.sent n]) = some n.sequence := by
        simp only [not_or, Bool.not_eq_true, Option.isSome_eq_false_iff, Option.isNone_iff_eq_none,
          ne_eq, not_not] at hne
        have hone : sentOf [.sent n] = [n.sequence] := rfl
        simp [baseOf, hne, hone]
      cases hfirst.symm.trans hb
      omega
  · exact hn

/-- The guard stands one above what was delivered, until the sequences run out. -/
def GuardFor (g : GapGuard) (d : Option Nat) : Prop :=
  g.relaxed = false ∧
    match g.expected with
    | none => ∀ x, d = some x → u64Max ≤ x
    | some e => ∃ x, d = some x ∧ (e = x + 1 ∨ u64Max ≤ x)

def raised (d : Option Nat) (n : Nat) : Nat := max (d.getD n) n

theorem GuardFor.new {start : Option ResumeStart} (h : d = start.bind ResumeStart.sequence) :
    GuardFor (.new start false) d := by
  refine ⟨rfl, ?_⟩
  subst h
  unfold GapGuard.new
  cases start with
  | none => simp
  | some start =>
    cases start with
    | date s => simp [ResumeStart.sequence]
    | afterSequence n =>
      simp only [Option.bind_some, ResumeStart.sequence]
      cases hc : checkedSucc n with
      | none =>
        rintro x ⟨⟩
        exact checkedSucc_none hc
      | some e => exact ⟨n, rfl, .inl (checkedSucc_some hc).1⟩

theorem guardFor_succ (n : Nat) (hx : n ≤ x) (hle : x = n ∨ u64Max ≤ x) :
    GuardFor ⟨checkedSucc n, false⟩ (some x) := by
  refine ⟨rfl, ?_⟩
  dsimp only
  cases hc : checkedSucc n with
  | none =>
    rintro y ⟨⟩
    exact Nat.le_trans (checkedSucc_none hc) hx
  | some e =>
    refine ⟨x, rfl, ?_⟩
    rcases hle with rfl | hle
    · exact .inl (checkedSucc_some hc).1
    · exact .inr hle

/-- What the guard lets through is next or was seen before. -/
theorem GuardFor.observe (h : GuardFor g d) (hn : n ≤ u64Max) (hobs : g.observe n = .ok g') :
    GuardFor g' (some (raised d n)) ∧ ∀ x, d = some x → n ≤ x + 1 := by
  obtain ⟨hrel, hexp⟩ := h
  obtain ⟨expected, relaxed⟩ := g
  cases hrel
  unfold GapGuard.observe at hobs
  cases expected with
  | none =>
    cases hobs
    cases d with
    | none => exact ⟨guardFor_succ n (by simp [raised]) (by simp [raised]), by simp⟩
    | some x =>
      have hx : u64Max ≤ x := hexp x rfl
      refine ⟨guardFor_succ n (by simp [raised]) (.inr (by simp [raised, hx])), ?_⟩
      rintro y ⟨⟩
      omega
  | some e =>
    obtain ⟨x, rfl, hx⟩ := hexp
    dsimp only at hobs
    split at hobs
    · cases hobs
      rename_i heq
      refine ⟨guardFor_succ n (by simp [raised]) ?_, ?_⟩
      · simp only [raised, Option.getD_some]
        omega
      · rintro y ⟨⟩
        omega
    · split at hobs
      · cases hobs
      · cases hobs
        refine ⟨⟨rfl, raised (some x) n, rfl, ?_⟩, ?_⟩
        · simp only [raised, Option.getD_some]
          omega
        · rintro y ⟨⟩
          omega

namespace Delivery

variable {c : Config} {σ σ' : State}

/-- What the guard knows in each phase. -/
def Guarded (σ : State) : Prop :=
  match σ.phase with
  | .asking start _ => start = σ.resume
  | .listening g => GuardFor g (lastDelivered σ.pending σ.commit)
  | .putting g n | .dispatching g n _ | .sending g n =>
    GuardFor g (some (raised (lastDelivered σ.pending σ.commit) n.sequence)) ∧
      Reached σ.floor σ.trace n.sequence
  | _ => True

structure Contiguous (σ : State) : Prop where
  law : Lib.Always (NoGap σ.floor) σ.trace
  full : ∀ p, σ.pending = some p → Reached σ.floor σ.trace (p.sequence + 1)
  guarded : Guarded σ

theorem Contiguous.initial : Contiguous (.initial held) where
  law := .nil
  full := by simp [State.initial]
  guarded := trivial

/-- The position a request is built from is the last one delivered. -/
theorem resume_sequence (h : Cursors c σ) :
    lastDelivered σ.pending σ.commit = σ.resume.bind ResumeStart.sequence := by
  unfold State.resume
  cases hd : lastDelivered σ.pending σ.commit with
  | some x => simp [ResumeStart.sequence]
  | none =>
    obtain ⟨hpend, hcommit⟩ : σ.pending = none ∧ σ.commit = none := by
      simpa [lastDelivered] using hd
    have hfloor := h.commit_floor hpend
    simpa [hcommit, State.floor] using hfloor

/-- What comes at most one above the last delivery leaves no gap. -/
theorem Contiguous.reached (h : Contiguous σ) (hcur : Cursors c σ)
    (hle : ∀ x, lastDelivered σ.pending σ.commit = some x → n ≤ x + 1) :
    Reached σ.floor σ.trace n := by
  cases hpend : σ.pending with
  | some p => exact (h.full p hpend).le (hle p.sequence (by simp [lastDelivered, hpend]))
  | none =>
    intro b hb q hbq hqn
    have hcommit := hcur.commit_floor hpend
    cases hf : σ.floor with
    | some f =>
      have hn : n ≤ f + 1 := hle f (by simp [lastDelivered, hpend, hcommit, hf])
      simp only [baseOf, hf, Option.some.injEq] at hb
      omega
    | none =>
      have hnone : sentOf σ.trace = [] := by
        by_contra hne
        obtain ⟨m, hm⟩ := List.exists_mem_of_ne_nil _ hne
        obtain ⟨p, hp, -⟩ := hcur.sent_le m hm (by simp [Above, hf])
        cases hpend.symm.trans hp
      simp [baseOf, hf, hnone] at hb

theorem Contiguous.enter (h : Contiguous σ) (hg : Guarded (σ.enter phase)) :
    Contiguous (σ.enter phase) :=
  ⟨h.law, h.full, hg⟩

/-- An effect that neither sends nor dispatches. -/
theorem Contiguous.emit (h : Contiguous σ) (hsent : e.sentSequence = none)
    (hdis : e.dispatchedSequence = none) : Contiguous (σ.emit e) := by
  have hsame : sentOf (σ.trace ++ [e]) = sentOf σ.trace := by simp [sentOf, hsent]
  refine ⟨h.law.snoc ?_, fun p hp => (h.full p hp).congr hsame, ?_⟩
  · intro s hs
    simp [hsent, hdis] at hs
  · have hg := h.guarded
    unfold Guarded at *
    simp only [State.emit]
    cases hp : σ.phase <;> simp only [hp] at hg ⊢ <;>
      first | exact hg | exact ⟨hg.1, hg.2.congr hsame⟩

/-- A notification without a gap before it goes to its triggers. -/
theorem Contiguous.dispatch (h : Contiguous σ) (hr : Reached σ.floor σ.trace n.sequence)
    (hg : GuardFor g (some (raised (lastDelivered σ.pending σ.commit) n.sequence))) :
    Contiguous { (σ.emit (.dispatched n)).enter (.dispatching g n 0) with
      commit := lastDelivered σ.pending σ.commit } := by
  have hsame : sentOf (σ.trace ++ [.dispatched n]) = sentOf σ.trace := by
    simp [sentOf, Effect.sentSequence]
  refine ⟨h.law.snoc ?_, fun p hp => (h.full p hp).congr hsame, ?_, hr.congr hsame⟩
  · intro s hs
    have hs : s = n.sequence := by
      rcases hs with hs | hs
      · cases hs
      · exact (Option.some.inj hs).symm
    exact hs ▸ hr
  · have hidem : lastDelivered σ.pending (lastDelivered σ.pending σ.commit) =
        lastDelivered σ.pending σ.commit := by
      cases hp : σ.pending <;> simp [lastDelivered]
    exact hidem.symm ▸ hg

/-- What is sent becomes the last delivery, unless it came from below. -/
theorem raise_lastDelivered (h : Cursors c σ) :
    lastDelivered (raisePending σ.commit σ.pending n) σ.commit =
      some (raised (lastDelivered σ.pending σ.commit) n.sequence) := by
  rcases raisePending_cases σ.commit σ.pending n with ⟨hraise, hc, hp⟩ | ⟨hraise, hle⟩
  · rw [hraise]
    have hlt : ∀ x, lastDelivered σ.pending σ.commit = some x → x < n.sequence := by
      intro x hx
      cases hpend : σ.pending with
      | none => exact hc x (by simpa [lastDelivered, hpend] using hx)
      | some p =>
        simp only [lastDelivered, hpend, Option.map_some, Option.some_or, Option.some.injEq] at hx
        exact hx ▸ hp p hpend
    cases hd : lastDelivered σ.pending σ.commit with
    | none => simp [lastDelivered, raised, Notification.pending]
    | some x =>
      have := hlt x hd
      simp only [lastDelivered, raised, Notification.pending, Option.map_some, Option.some_or,
        Option.getD_some, Option.some.injEq]
      omega
  · rw [hraise]
    have hge : ∃ x, lastDelivered σ.pending σ.commit = some x ∧ n.sequence ≤ x := by
      cases hpend : σ.pending with
      | some p =>
        refine ⟨p.sequence, by simp [lastDelivered], ?_⟩
        rcases hle with ⟨x, hx, hnx⟩ | ⟨q, hq, hnq⟩
        · exact Nat.le_trans hnx (h.commit_le x p hx hpend)
        · cases hpend.symm.trans hq
          exact hnq
      | none =>
        rcases hle with ⟨x, hx, hnx⟩ | ⟨q, hq, -⟩
        · exact ⟨x, by simp [lastDelivered, hx], hnx⟩
        · cases hpend.symm.trans hq
    obtain ⟨x, hx, hnx⟩ := hge
    rw [hx]
    simp only [raised, Option.getD_some, Option.some.injEq]
    omega

theorem Contiguous.sent (h : Contiguous σ) (hcur : Cursors c σ) (hp : σ.phase = .sending g n) :
    Contiguous { (σ.emit (.sent n)).enter (.listening g) with
      pending := raisePending σ.commit σ.pending n } := by
  have hg := h.guarded
  simp only [Guarded, hp] at hg
  obtain ⟨hguard, hr⟩ := hg
  refine ⟨h.law.snoc ?_, ?_, ?_⟩
  · intro s hs
    have hs : s = n.sequence := by
      rcases hs with hs | hs
      · exact (Option.some.inj hs).symm
      · cases hs
    exact hs ▸ hr
  · intro p hpend
    rcases raisePending_cases σ.commit σ.pending n with ⟨hraise, -⟩ | ⟨hraise, -⟩
    · cases hraise.symm.trans hpend
      exact hr.send
    · have hold : σ.pending = some p := hraise.symm.trans hpend
      refine (h.full p hold).append (.inr ?_) _
      obtain ⟨m, rfl, hdel⟩ := hcur.pending_delivered p hold
      exact List.ne_nil_of_mem hdel.sent
  · have hd := raise_lastDelivered (n := n) hcur
    simp only [Guarded, State.enter, State.emit]
    rw [hd]
    exact hguard

theorem Contiguous.step (h : Contiguous σ) (hcur : Cursors c σ) (hrel : c.relaxed = false)
    (hs : Step c σ σ') : Contiguous σ' := by
  have hg := h.guarded
  unfold Guarded at hg
  cases hs with
  | quiet e he => exact h.emit he.inert.2.1 he.inert.2.2.1
  | resolve start hp =>
    refine ⟨?_, (fun _ hnone => by cases hnone), trivial⟩
    intro pre e post heq s hs
    have hmem : e ∈ σ.trace := heq ▸ List.mem_append_right pre List.mem_cons_self
    have hinert := (hcur.unresolved hp e hmem).inert
    simp [hinert.2.1, hinert.2.2.1] at hs
  | ask => exact h.enter rfl
  | request hp =>
    rename_i body start
    simp only [hp] at hg
    refine (h.emit (e := .requested body) rfl rfl).enter ?_
    have hd := resume_sequence hcur
    rw [hrel, hg]
    exact .new hd
  | lose => exact h.enter trivial
  | leave => exact h.enter trivial
  | refuse n => exact (h.emit (e := .received n) rfl rfl).enter trivial
  | hold n p hp hn hobs =>
    simp only [hp] at hg
    obtain ⟨hguard, hle⟩ := hg.observe hn hobs
    have hreceived := h.emit (e := .received n) rfl rfl
    have hr : Reached σ.floor (σ.trace ++ [.received n]) n.sequence :=
      (h.reached hcur hle).congr (by simp [sentOf, Effect.sentSequence])
    exact hreceived.enter ⟨hguard, hr⟩
  | take n hp hn hobs =>
    simp only [hp] at hg
    obtain ⟨hguard, hle⟩ := hg.observe hn hobs
    have hreceived := h.emit (e := .received n) rfl rfl
    have hr : Reached σ.floor (σ.trace ++ [.received n]) n.sequence :=
      (h.reached hcur hle).congr (by simp [sentOf, Effect.sentSequence])
    exact hreceived.dispatch hr hguard
  | land p hp =>
    have hlanded := h.emit (e := .landed p.checkpoint) rfl rfl
    exact ⟨hlanded.law, hlanded.full, hlanded.guarded⟩
  | stored p hp hpend =>
    rename_i n g
    simp only [hp] at hg
    obtain ⟨hguard, hr⟩ := hg
    have hput := h.emit (e := .put p.checkpoint true) rfl rfl
    have hr : Reached σ.floor (σ.trace ++ [.put p.checkpoint true]) n.sequence :=
      hr.congr (by simp [sentOf, Effect.sentSequence])
    have hcommit : lastDelivered σ.pending σ.commit = some p.sequence := by
      simp [lastDelivered, hpend]
    exact hcommit ▸ hput.dispatch hr hguard
  | rejected p => exact (h.emit (e := .put p.checkpoint false) rfl rfl).enter trivial
  | retry result hp => exact h.emit rfl rfl
  | pass result hp hr =>
    rename_i i g n
    have hattempted := h.emit (e := .attempted i result) rfl rfl
    have hg := hattempted.guarded
    simp only [Guarded, State.emit, hp] at hg
    exact hattempted.enter hg
  | complete hp =>
    simp only [hp] at hg
    exact h.enter hg
  | send hp => exact h.sent hcur hp
  | flush p hp =>
    have hlanded := h.emit (e := .landed p.checkpoint) rfl rfl
    exact ⟨hlanded.law, hlanded.full, hlanded.guarded⟩
  | flushed p ok hp => exact h.emit rfl rfl

end Delivery
end Aviso.Watch
