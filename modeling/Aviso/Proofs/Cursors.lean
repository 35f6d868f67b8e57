import Aviso.Proofs.Refinement

namespace Aviso.Watch

/-- Above the start position, if that is a sequence. -/
def Above (floor : Option Nat) (q : Nat) : Prop := ∀ f, floor = some f → f < q

/-- The attempts of one dispatch, with a success of every required trigger before `i`. -/
def Passed (required : List Bool) (i : Nat) (attempts : List Effect) : Prop :=
  (∀ e ∈ attempts, ∃ j result, e = .attempted j result) ∧
    ∀ j < i, required[j]? = some true → .attempted j (.ok ()) ∈ attempts

/-- `n` was dispatched, each required trigger succeeded for it, and then it was sent. -/
def Delivered (required : List Bool) (t : List Effect) (n : Notification) : Prop :=
  ∃ before attempts after, t = before ++ .dispatched n :: attempts ++ .sent n :: after ∧
    Passed required required.length attempts

theorem Passed.nil (required : List Bool) : Passed required 0 [] :=
  ⟨by simp, fun j hj => absurd hj (Nat.not_lt_zero j)⟩

theorem Passed.attempt (h : Passed required i attempts) (result : Except TriggerError Unit) :
    Passed required i (attempts ++ [.attempted i result]) := by
  refine ⟨?_, fun j hj hreq => List.mem_append_left _ (h.2 j hj hreq)⟩
  intro e he
  rcases List.mem_append.mp he with he | he
  · exact h.1 e he
  · exact ⟨i, result, List.mem_singleton.mp he⟩

theorem Passed.success (h : Passed required i attempts)
    (hr : required[i]? = some true → result = .ok ()) :
    Passed required (i + 1) (attempts ++ [.attempted i result]) := by
  refine ⟨(h.attempt result).1, ?_⟩
  intro j hj hreq
  rcases Nat.lt_succ_iff_lt_or_eq.mp hj with hj | rfl
  · exact List.mem_append_left _ (h.2 j hj hreq)
  · simp [hr hreq]

theorem Passed.all (h : Passed required i attempts) (hi : required.length ≤ i) :
    Passed required required.length attempts :=
  ⟨h.1, fun j hj => h.2 j (Nat.lt_of_lt_of_le hj hi)⟩

theorem Delivered.append {t : List Effect} (h : Delivered required t n) (es : List Effect) :
    Delivered required (t ++ es) n := by
  obtain ⟨before, attempts, after, rfl, hpassed⟩ := h
  exact ⟨before, attempts, after ++ es, by simp, hpassed⟩

@[simp] theorem sentOf_append (t es : List Effect) : sentOf (t ++ es) = sentOf t ++ sentOf es :=
  List.filterMap_append

@[simp] theorem dispatchedOf_append (t es : List Effect) :
    dispatchedOf (t ++ es) = dispatchedOf t ++ dispatchedOf es :=
  List.filterMap_append

@[simp] theorem putsOf_append (t es : List Effect) : putsOf (t ++ es) = putsOf t ++ putsOf es :=
  List.filterMap_append

theorem mem_sentOf : q ∈ sentOf t ↔ ∃ n, .sent n ∈ t ∧ n.sequence = q := by
  constructor
  · intro h
    obtain ⟨e, he, hq⟩ := List.mem_filterMap.mp h
    cases e <;> cases hq
    exact ⟨_, he, rfl⟩
  · rintro ⟨n, hn, rfl⟩
    exact List.mem_filterMap.mpr ⟨_, hn, rfl⟩

theorem Delivered.sent (h : Delivered required t n) : n.sequence ∈ sentOf t := by
  obtain ⟨before, attempts, after, rfl, -⟩ := h
  exact mem_sentOf.mpr ⟨n, by simp, rfl⟩

theorem Effect.Quiet.inert (h : Effect.Quiet e) : ¬ e.Active ∧ e.sentSequence = none ∧
    e.dispatchedSequence = none ∧ e.putSequence = none ∧ e.storedSequence = none := by
  cases e <;> first | exact h.elim | exact ⟨id, rfl, rfl, rfl, rfl⟩

namespace Delivery

variable {c : Config} {σ σ' : State}

/-- What holds of the two cursors, whatever the notification at hand. -/
structure Cursors (c : Config) (σ : State) : Prop where
  unresolved : σ.phase = .resolving → ∀ e ∈ σ.trace, e.Quiet
  commit_floor : σ.pending = none → σ.commit = σ.floor
  floor_le : ∀ f, σ.floor = some f → ∃ x, σ.commit = some x ∧ f ≤ x
  commit_le : ∀ x p, σ.commit = some x → σ.pending = some p → x ≤ p.sequence
  pending_above : ∀ p, σ.pending = some p → Above σ.floor p.sequence
  pending_delivered : ∀ p, σ.pending = some p → ∃ n, p = n.pending ∧ Delivered c.required σ.trace n
  sent_le : ∀ q ∈ sentOf σ.trace, Above σ.floor q → ∃ p, σ.pending = some p ∧ q ≤ p.sequence

theorem Cursors.initial : Cursors c (.initial store) where
  unresolved := by simp [State.initial]
  commit_floor := by simp [State.initial, State.floor]
  floor_le := by simp [State.initial, State.floor]
  commit_le := by simp [State.initial]
  pending_above := by simp [State.initial]
  pending_delivered := by simp [State.initial]
  sent_le := by simp [State.initial, sentOf]

/-- A step that sends nothing and moves no cursor. -/
theorem Cursors.grow (h : Cursors c σ) (es : List Effect) (hstart : σ'.start = σ.start)
    (hcommit : σ'.commit = σ.commit) (hpending : σ'.pending = σ.pending)
    (htrace : σ'.trace = σ.trace ++ es) (hes : sentOf es = [])
    (hphase : σ'.phase = .resolving → ∀ e ∈ σ'.trace, e.Quiet) : Cursors c σ' where
  unresolved := hphase
  commit_floor := by
    rw [hpending, hcommit, State.floor, hstart]
    exact h.commit_floor
  floor_le := by
    rw [hcommit, State.floor, hstart]
    exact h.floor_le
  commit_le := by
    rw [hpending, hcommit]
    exact h.commit_le
  pending_above := by
    rw [hpending, State.floor, hstart]
    exact h.pending_above
  pending_delivered := by
    intro p hp
    obtain ⟨n, hn, hdel⟩ := h.pending_delivered p (hpending ▸ hp)
    exact ⟨n, hn, htrace ▸ hdel.append es⟩
  sent_le := by
    rw [htrace, sentOf_append, hes, List.append_nil, hpending, State.floor, hstart]
    exact h.sent_le

/-- The pending notification becomes the committed one. -/
theorem Cursors.advance (h : Cursors c σ) :
    Cursors c { σ with commit := lastDelivered σ.pending σ.commit } where
  unresolved := h.unresolved
  commit_floor := by
    intro hp
    have hcommit : lastDelivered σ.pending σ.commit = σ.commit := by
      simp [lastDelivered, show σ.pending = none from hp]
    exact hcommit.trans (h.commit_floor hp)
  floor_le := by
    intro f hf
    cases hp : σ.pending with
    | none => exact h.floor_le f hf
    | some p => exact ⟨p.sequence, rfl, Nat.le_of_lt (h.pending_above p hp f hf)⟩
  commit_le := by
    intro x p hx hp
    have hcommit : lastDelivered σ.pending σ.commit = some p.sequence := by
      simp [lastDelivered, show σ.pending = some p from hp]
    have hx : some p.sequence = some x := hcommit.symm.trans hx
    cases hx
    exact Nat.le_refl _
  pending_above := h.pending_above
  pending_delivered := h.pending_delivered
  sent_le := h.sent_le

/-- What the trace says of the notification at hand. -/
def AtHand (c : Config) (σ : State) : Prop :=
  match σ.phase with
  | .dispatching _ n i =>
    ∃ before attempts, σ.trace = before ++ .dispatched n :: attempts ∧ Passed c.required i attempts
  | .sending _ n =>
    ∃ before attempts, σ.trace = before ++ .dispatched n :: attempts ∧
      Passed c.required c.required.length attempts
  | _ => True

theorem AtHand.step (h : AtHand c σ) (hs : Step c σ σ') : AtHand c σ' := by
  cases hs with
  | quiet e he hcalm =>
    unfold AtHand at *
    cases hp : σ.phase <;> simp_all [State.emit, Phase.Calm]
  | resolve => trivial
  | ask => trivial
  | request => trivial
  | lose => trivial
  | leave => trivial
  | refuse => trivial
  | hold => trivial
  | take => exact ⟨_, [], rfl, .nil _⟩
  | land p hp =>
    unfold AtHand
    simp only [State.emit, hp]
  | stored => exact ⟨_, [], rfl, .nil _⟩
  | rejected => trivial
  | retry result hp =>
    simp only [AtHand, hp] at h
    obtain ⟨before, attempts, htrace, hpassed⟩ := h
    simp only [AtHand, State.emit, hp]
    exact ⟨before, attempts ++ [.attempted _ result], by simp [htrace], hpassed.attempt result⟩
  | pass result hp hr =>
    simp only [AtHand, hp] at h
    obtain ⟨before, attempts, htrace, hpassed⟩ := h
    exact ⟨before, attempts ++ [.attempted _ result], by simp [State.emit, State.enter, htrace],
      hpassed.success hr⟩
  | complete hp hi =>
    simp only [AtHand, hp] at h
    obtain ⟨before, attempts, htrace, hpassed⟩ := h
    exact ⟨before, attempts, htrace, hpassed.all hi⟩
  | send => trivial
  | flush p hp =>
    unfold AtHand
    simp only [State.emit, hp]
  | flushed p ok hp =>
    unfold AtHand
    simp only [State.emit, hp]

theorem raisePending_cases (commit : Option Nat) (pending : Option PendingCommit)
    (n : Notification) :
    (raisePending commit pending n = some n.pending ∧ (∀ x, commit = some x → x < n.sequence) ∧
      ∀ p, pending = some p → p.sequence < n.sequence) ∨
    (raisePending commit pending n = pending ∧
      ((∃ x, commit = some x ∧ n.sequence ≤ x) ∨ ∃ p, pending = some p ∧ n.sequence ≤ p.sequence)) := by
  unfold raisePending
  split
  · rename_i hcond
    refine .inl ⟨rfl, ?_, ?_⟩
    · rintro x rfl
      simpa using hcond.1
    · rintro p rfl
      simpa using hcond.2
  · rename_i hcond
    refine .inr ⟨rfl, ?_⟩
    cases commit with
    | none =>
      cases pending with
      | none => simp at hcond
      | some p => exact .inr ⟨p, rfl, by simpa using hcond⟩
    | some x =>
      by_cases hx : x < n.sequence
      · cases pending with
        | none => simp [hx] at hcond
        | some p => exact .inr ⟨p, rfl, by simpa [hx] using hcond⟩
      · exact .inl ⟨x, rfl, by omega⟩

/-- A notification delivered in full was sent. -/
theorem Cursors.sent (h : Cursors c σ) (hat : AtHand c σ) (hp : σ.phase = .sending g n) :
    Cursors c { (σ.emit (.sent n)).enter (.listening g) with
      pending := raisePending σ.commit σ.pending n } := by
  simp only [AtHand, hp] at hat
  obtain ⟨before, attempts, htrace, hpassed⟩ := hat
  have hdel : Delivered c.required (σ.trace ++ [.sent n]) n :=
    ⟨before, attempts, [], by simp [htrace], hpassed⟩
  have hmem : ∀ q ∈ sentOf (σ.trace ++ [.sent n]), q ∈ sentOf σ.trace ∨ q = n.sequence := by
    intro q hq
    rw [sentOf_append] at hq
    rcases List.mem_append.mp hq with hq | hq
    · exact .inl hq
    · exact .inr (by simpa [sentOf, Effect.sentSequence] using hq)
  rcases raisePending_cases σ.commit σ.pending n with ⟨hraise, hc, hpend⟩ | ⟨hraise, hle⟩
  · rw [hraise]
    exact {
      unresolved := fun hphase => by cases hphase
      commit_floor := fun hnone => by cases hnone
      floor_le := h.floor_le
      commit_le := by
        rintro x p hx ⟨⟩
        exact Nat.le_of_lt (hc x hx)
      pending_above := by
        rintro p ⟨⟩ f hf
        obtain ⟨x, hx, hfx⟩ := h.floor_le f hf
        exact Nat.lt_of_le_of_lt hfx (hc x hx)
      pending_delivered := by
        rintro p ⟨⟩
        exact ⟨n, rfl, hdel⟩
      sent_le := by
        intro q hq habove
        refine ⟨n.pending, rfl, ?_⟩
        rcases hmem q hq with hq | rfl
        · obtain ⟨p, hp, hqp⟩ := h.sent_le q hq habove
          exact Nat.le_of_lt (Nat.lt_of_le_of_lt hqp (hpend p hp))
        · exact Nat.le_refl _ }
  · rw [hraise]
    exact {
      unresolved := fun hphase => by cases hphase
      commit_floor := h.commit_floor
      floor_le := h.floor_le
      commit_le := h.commit_le
      pending_above := h.pending_above
      pending_delivered := by
        intro p hp
        obtain ⟨m, hm, hdelm⟩ := h.pending_delivered p hp
        exact ⟨m, hm, hdelm.append _⟩
      sent_le := by
        intro q hq habove
        rcases hmem q hq with hq | rfl
        · exact h.sent_le q hq habove
        · rcases hle with ⟨x, hx, hnx⟩ | hle
          · cases hpend : σ.pending with
            | some p => exact ⟨p, rfl, Nat.le_trans hnx (h.commit_le x p hx hpend)⟩
            | none =>
              have hfloor := (h.commit_floor hpend).symm.trans hx
              have := habove x hfloor
              omega
          · exact hle }

theorem Cursors.step (h : Cursors c σ) (hat : AtHand c σ) (hs : Step c σ σ') : Cursors c σ' := by
  cases hs with
  | quiet e he hcalm =>
    refine h.grow [e] rfl rfl rfl rfl (by simp [sentOf, he.inert]) ?_
    intro hphase e' he'
    rcases List.mem_append.mp he' with he' | he'
    · exact h.unresolved hphase e' he'
    · cases List.mem_singleton.mp he'
      exact he
  | resolve start hp hres =>
    have hquiet := h.unresolved hp
    have hsent : sentOf σ.trace = [] :=
      List.filterMap_eq_nil_iff.mpr fun e he => (hquiet e he).inert.2.1
    exact {
      unresolved := fun hphase => by cases hphase
      commit_floor := fun _ => rfl
      floor_le := fun f hf => ⟨f, hf, Nat.le_refl _⟩
      commit_le := fun _ _ _ hnone => by cases hnone
      pending_above := fun _ hnone => by cases hnone
      pending_delivered := fun _ hnone => by cases hnone
      sent_le := fun q hq => by simp [hsent] at hq }
  | ask => exact h.grow [] rfl rfl rfl (by simp [State.enter]) rfl fun hp => by cases hp
  | request => exact h.grow [_] rfl rfl rfl rfl rfl fun hp => by cases hp
  | lose => exact h.grow [] rfl rfl rfl (by simp [State.enter]) rfl fun hp => by cases hp
  | leave => exact h.grow [] rfl rfl rfl (by simp [State.enter]) rfl fun hp => by cases hp
  | refuse => exact h.grow [_] rfl rfl rfl rfl rfl fun hp => by cases hp
  | hold => exact h.grow [_] rfl rfl rfl rfl rfl fun hp => by cases hp
  | take n hp hn hobs hstore =>
    exact h.advance.grow [.received n, .dispatched n] rfl rfl rfl (by simp [State.emit, State.enter])
      rfl fun hp => by cases hp
  | land p hp => exact h.grow [_] rfl rfl rfl rfl rfl fun hres => by cases hp.symm.trans hres
  | stored p hp hpend =>
    rename_i n g
    have hcommit : some p.sequence = lastDelivered σ.pending σ.commit := by
      simp [lastDelivered, hpend]
    exact h.advance.grow [.put p.checkpoint true, .dispatched n] rfl hcommit rfl
      (by simp [State.emit, State.enter]) rfl fun hp => by cases hp
  | rejected p hp => exact h.grow [_] rfl rfl rfl rfl rfl fun hp => by cases hp
  | retry result hp => exact h.grow [_] rfl rfl rfl rfl rfl fun hres => by cases hp.symm.trans hres
  | pass result hp => exact h.grow [_] rfl rfl rfl rfl rfl fun hp => by cases hp
  | complete => exact h.grow [] rfl rfl rfl (by simp [State.enter]) rfl fun hp => by cases hp
  | send hp => exact h.sent hat hp
  | flush p hp => exact h.grow [_] rfl rfl rfl rfl rfl fun hres => by cases hp.symm.trans hres
  | flushed p ok hp => exact h.grow [_] rfl rfl rfl rfl rfl fun hres => by cases hp.symm.trans hres

end Delivery
end Aviso.Watch
