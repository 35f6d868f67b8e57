import Aviso.Proofs.Cursors

namespace Aviso.Watch

/-- What each effect of a watch with this start position may find before it. -/
structure Lawful (required : List Bool) (hasStore : Bool) (floor : Option Nat) (pre : List Effect)
    (e : Effect) : Prop where
  /-- A value put in the store was delivered in full, above the start position. -/
  backed : ∀ v, e.putSequence = some v →
    Above floor v ∧ ∃ n, n.sequence = v ∧ Delivered required pre n
  rising : ∀ v, e.putSequence = some v → ∀ w ∈ putsOf pre, w ≤ v
  /-- A notification is sent only after a successful put of all those sent before it. -/
  behind : e.sentSequence.isSome → hasStore = true → ∀ q ∈ sentOf pre, Above floor q →
    ∃ v, lastPut pre = some v ∧ q ≤ v
  /-- A failed put is the end of delivery. -/
  stopped : e.Active → ∀ cp, .put cp false ∉ pre

variable {required : List Bool} {hasStore : Bool} {floor : Option Nat}

theorem Lawful.of_inert (hput : e.putSequence = none) (hsent : e.sentSequence = none)
    (hstop : e.Active → ∀ cp, .put cp false ∉ pre) : Lawful required hasStore floor pre e where
  backed := by simp [hput]
  rising := by simp [hput]
  behind := by simp [hsent]
  stopped := hstop

theorem Lawful.of_quiet (h : e.Quiet) : Lawful required hasStore floor pre e :=
  .of_inert h.inert.2.2.2.1 h.inert.2.1 fun hact => absurd hact h.inert.1

theorem lastPut_snoc (t : List Effect) (e : Effect) :
    lastPut (t ++ [e]) = e.storedSequence.or (lastPut t) := by
  unfold lastPut
  rw [List.filterMap_append, List.getLast?_append]
  cases h : e.storedSequence <;> simp [h]

namespace Delivery

variable {c : Config} {σ σ' : State} {held : Option State.Checkpoint}

/-- The notification at hand has passed the put. -/
def Phase.Delivering : Phase → Prop
  | .dispatching _ _ _ | .sending _ _ => True
  | _ => False

/-- What the trace says of the store. -/
structure Ledger (c : Config) (held : Option Aviso.State.Checkpoint) (σ : State) : Prop where
  law : Lib.Always (Lawful c.required c.hasStore σ.floor) σ.trace
  puts_le : ∀ v ∈ putsOf σ.trace, ∃ p, σ.pending = some p ∧ v ≤ p.sequence
  /-- While a notification is at hand, what was pending is in the store. -/
  committed : σ.phase.Delivering → c.hasStore = true → ∀ p, σ.pending = some p →
    lastPut σ.trace = some p.sequence
  unfailed : σ.phase ≠ .leaving → ∀ cp, .put cp false ∉ σ.trace
  stored : σ.store = held ∨ ∃ cp, σ.store = some cp ∧ .landed cp ∈ σ.trace

theorem Ledger.initial : Ledger c held (.initial held) where
  law := .nil
  puts_le := by simp [State.initial, putsOf]
  committed := by simp [State.initial]
  unfailed := by simp [State.initial]
  stored := .inl rfl

/-- A change of phase alone. -/
theorem Ledger.enter (h : Ledger c held σ) (hdel : phase.Delivering → σ.phase.Delivering)
    (hleaving : phase ≠ .leaving → σ.phase ≠ .leaving) : Ledger c held (σ.enter phase) where
  law := h.law
  puts_le := h.puts_le
  committed := fun hp => h.committed (hdel hp)
  unfailed := fun hp => h.unfailed (hleaving hp)
  stored := h.stored

/-- An effect that neither puts nor sends. -/
theorem Ledger.emit (h : Ledger c held σ) (hput : e.putSequence = none)
    (hsent : e.sentSequence = none) (hactive : e.Active → σ.phase ≠ .leaving) :
    Ledger c held (σ.emit e) where
  law := h.law.snoc (.of_inert hput hsent fun hact => h.unfailed (hactive hact))
  puts_le := by
    have hnone : putsOf [e] = [] := by simp [putsOf, hput]
    simp only [State.emit, putsOf_append, hnone, List.append_nil]
    exact h.puts_le
  committed := by
    intro hp hstore p hpend
    have hnone : e.storedSequence = none := by
      cases e <;> first | rfl | cases hput
    simp only [State.emit, lastPut_snoc, hnone, Option.none_or]
    exact h.committed hp hstore p hpend
  unfailed := by
    intro hp cp hcp
    rcases List.mem_append.mp hcp with hcp | hcp
    · exact h.unfailed hp cp hcp
    · cases List.mem_singleton.mp hcp
      cases hput
  stored := by
    rcases h.stored with hs | ⟨cp, hs, hcp⟩
    · exact .inl hs
    · exact .inr ⟨cp, hs, List.mem_append_left _ hcp⟩

/-- A put of the pending notification is lawful. -/
theorem Ledger.puts (h : Ledger c held σ) (hcur : Cursors c σ) (hp : σ.pending = some p)
    (hput : e.putSequence = some p.sequence) (hsent : e.sentSequence = none)
    (hactive : ¬ e.Active) : Lib.Always (Lawful c.required c.hasStore σ.floor) (σ.trace ++ [e]) ∧
      ∀ v ∈ putsOf (σ.trace ++ [e]), v ≤ p.sequence := by
  have hle : ∀ v ∈ putsOf σ.trace, v ≤ p.sequence := by
    intro v hv
    obtain ⟨q, hq, hvq⟩ := h.puts_le v hv
    cases hp.symm.trans hq
    exact hvq
  refine ⟨h.law.snoc ?_, ?_⟩
  · exact {
      backed := by
        intro v hv
        cases hput.symm.trans hv
        obtain ⟨n, rfl, hdel⟩ := hcur.pending_delivered p hp
        exact ⟨hcur.pending_above _ hp, n, rfl, hdel⟩
      rising := by
        intro v hv
        cases hput.symm.trans hv
        exact hle
      behind := by simp [hsent]
      stopped := fun hact => absurd hact hactive }
  · intro v hv
    rw [putsOf_append] at hv
    rcases List.mem_append.mp hv with hv | hv
    · exact hle v hv
    · have hv : v = p.sequence := by simpa [putsOf, hput] using hv
      omega

/-- The put takes effect. -/
theorem Ledger.land (h : Ledger c held σ) (hcur : Cursors c σ) (hp : σ.pending = some p) :
    Ledger c held { σ.emit (.landed p.checkpoint) with
      store := putMonotonic σ.store p.checkpoint } := by
  obtain ⟨hlaw, hle⟩ := h.puts hcur (e := .landed p.checkpoint) hp rfl rfl id
  exact {
    law := hlaw
    puts_le := fun v hv => ⟨p, hp, hle v hv⟩
    committed := by
      intro hphase hstore q hq
      simp only [State.emit, lastPut_snoc, Effect.storedSequence, Option.none_or]
      exact h.committed hphase hstore q hq
    unfailed := by
      intro hphase cp hcp
      rcases List.mem_append.mp hcp with hcp | hcp
      · exact h.unfailed hphase cp hcp
      · cases List.mem_singleton.mp hcp
    stored := by
      have hold : σ.store = held ∨ ∃ cp, σ.store = some cp ∧
          .landed cp ∈ σ.trace ++ [.landed p.checkpoint] := by
        rcases h.stored with hs | ⟨cp, hs, hcp⟩
        · exact .inl hs
        · exact .inr ⟨cp, hs, List.mem_append_left _ hcp⟩
      have hnew : ∃ cp, some p.checkpoint = some cp ∧
          .landed cp ∈ σ.trace ++ [.landed p.checkpoint] :=
        ⟨_, rfl, by simp⟩
      simp only [State.emit]
      cases hs : σ.store with
      | none => exact .inr hnew
      | some cp =>
        simp only [putMonotonic]
        split
        · exact hs ▸ hold
        · exact .inr hnew }

/-- The put returns. -/
theorem Ledger.put (h : Ledger c held σ) (hcur : Cursors c σ) (hp : σ.pending = some p)
    (hphase : ¬ σ.phase.Delivering) (ok : Bool) (hok : ok = true ∨ σ.phase = .leaving) :
    Ledger c held (σ.emit (.put p.checkpoint ok)) := by
  obtain ⟨hlaw, hle⟩ := h.puts hcur (e := .put p.checkpoint ok) hp rfl rfl id
  exact {
    law := hlaw
    puts_le := fun v hv => ⟨p, hp, hle v hv⟩
    committed := fun hdel => absurd hdel hphase
    unfailed := by
      intro hleaving cp hcp
      rcases List.mem_append.mp hcp with hcp | hcp
      · exact h.unfailed hleaving cp hcp
      · cases List.mem_singleton.mp hcp
        rcases hok with hok | hok
        · cases hok
        · exact hleaving hok
    stored := by
      rcases h.stored with hs | ⟨cp, hs, hcp⟩
      · exact .inl hs
      · exact .inr ⟨cp, hs, List.mem_append_left _ hcp⟩ }

/-- The notification at hand is sent. -/
theorem Ledger.sent (h : Ledger c held σ) (hcur : Cursors c σ) (hp : σ.phase = .sending g n) :
    Ledger c held { (σ.emit (.sent n)).enter (.listening g) with
      pending := raisePending σ.commit σ.pending n } where
  law := by
    refine h.law.snoc ?_
    exact {
      backed := fun _ hv => by cases hv
      rising := fun _ hv => by cases hv
      behind := by
        intro _ hstore q hq habove
        obtain ⟨p, hpend, hqp⟩ := hcur.sent_le q hq habove
        have hlast := h.committed (by simp [hp, Phase.Delivering]) hstore p hpend
        exact ⟨p.sequence, hlast, hqp⟩
      stopped := fun _ => h.unfailed (by simp [hp]) }
  puts_le := by
    intro v hv
    have hv : v ∈ putsOf σ.trace := by simpa [State.enter, State.emit, putsOf, Effect.putSequence] using hv
    obtain ⟨p, hpend, hvp⟩ := h.puts_le v hv
    rcases raisePending_cases σ.commit σ.pending n with ⟨hraise, -, hlt⟩ | ⟨hraise, -⟩
    · exact ⟨n.pending, hraise, Nat.le_of_lt (Nat.lt_of_le_of_lt hvp (hlt p hpend))⟩
    · exact ⟨p, hraise.trans hpend, hvp⟩
  committed := fun hdel => hdel.elim
  unfailed := by
    intro _ cp hcp
    rcases List.mem_append.mp hcp with hcp | hcp
    · exact h.unfailed (by simp [hp]) cp hcp
    · cases List.mem_singleton.mp hcp
  stored := by
    rcases h.stored with hs | ⟨cp, hs, hcp⟩
    · exact .inl hs
    · exact .inr ⟨cp, hs, List.mem_append_left _ hcp⟩

/-- Nothing happened before the start position is known. -/
theorem Ledger.resolve (h : Ledger c held σ) (hcur : Cursors c σ) (hp : σ.phase = .resolving)
    (start : Option ResumeStart) : Ledger c held { σ with
      phase := .idle, start := start, commit := start.bind ResumeStart.sequence, pending := none } where
  law := by
    intro pre e post heq
    have hmem : e ∈ σ.trace := heq ▸ List.mem_append_right pre List.mem_cons_self
    exact .of_quiet (hcur.unresolved hp e hmem)
  puts_le := by
    intro v hv
    obtain ⟨e, he, hput⟩ := List.mem_filterMap.mp hv
    have hnone := (hcur.unresolved hp e he).inert.2.2.2.1
    cases hnone.symm.trans hput
  committed := fun hdel => hdel.elim
  unfailed := fun _ => h.unfailed (by simp [hp])
  stored := h.stored

theorem Ledger.step (h : Ledger c held σ) (hcur : Cursors c σ) (hs : Step c σ σ') :
    Ledger c held σ' := by
  cases hs with
  | quiet e he hcalm =>
    exact h.emit he.inert.2.2.2.1 he.inert.2.1 fun hact => absurd hact he.inert.1
  | resolve start hp hres => exact h.resolve hcur hp start
  | ask body hp => exact h.enter (by simp [Phase.Delivering]) (by simp [hp])
  | request hp =>
    rename_i body start
    have hrequested := h.emit (e := .requested body) rfl rfl (by simp [hp])
    exact hrequested.enter (by simp [Phase.Delivering]) (by simp [State.emit, hp])
  | lose hp => exact h.enter (by simp [Phase.Delivering]) (by simp [hp])
  | leave => exact h.enter (by simp [Phase.Delivering]) (by simp)
  | refuse n hp =>
    have hreceived := h.emit (e := .received n) rfl rfl (by simp [hp])
    exact hreceived.enter (by simp [Phase.Delivering]) (by simp)
  | hold n p hp =>
    have hreceived := h.emit (e := .received n) rfl rfl (by simp [hp])
    exact hreceived.enter (by simp [Phase.Delivering]) (by simp [State.emit, hp])
  | take n hp hn hobs hstore =>
    have hreceived := h.emit (e := .received n) rfl rfl (by simp [hp])
    have hdispatched := hreceived.emit (e := .dispatched n) rfl rfl (by simp [State.emit, hp])
    exact {
      law := hdispatched.law
      puts_le := hdispatched.puts_le
      committed := fun _ hs p hpend => by cases (hstore hs).symm.trans hpend
      unfailed := fun _ => hdispatched.unfailed (by simp [State.emit, hp])
      stored := hdispatched.stored }
  | land p hp hpend => exact h.land hcur hpend
  | stored p hp hpend =>
    rename_i n g
    have hput := h.put hcur hpend (by simp [hp, Phase.Delivering]) true (.inl rfl)
    have hdispatched := hput.emit (e := .dispatched n) rfl rfl (by simp [State.emit, hp])
    exact {
      law := hdispatched.law
      puts_le := hdispatched.puts_le
      committed := by
        intro _ _ q hq
        cases hpend.symm.trans hq
        simp only [State.emit, State.enter]
        rw [lastPut_snoc, lastPut_snoc]
        rfl
      unfailed := fun _ => hdispatched.unfailed (by simp [State.emit, hp])
      stored := hdispatched.stored }
  | rejected p hp hpend =>
    have hleaving : Ledger c held (σ.enter .leaving) := h.enter (by simp [Phase.Delivering]) (by simp)
    have hcursors : Cursors c (σ.enter .leaving) :=
      hcur.grow [] rfl rfl rfl (by simp [State.enter]) rfl fun hp => by cases hp
    exact hleaving.put hcursors hpend (by simp [State.enter, Phase.Delivering]) false (.inr rfl)
  | retry result hp => exact h.emit rfl rfl (by simp [hp])
  | pass result hp hr =>
    rename_i i g n
    have hattempted := h.emit (e := .attempted i result) rfl rfl (by simp [hp])
    exact hattempted.enter (by simp [State.emit, hp, Phase.Delivering]) (by simp [State.emit, hp])
  | complete hp => exact h.enter (by simp [hp, Phase.Delivering]) (by simp [hp])
  | send hp => exact h.sent hcur hp
  | flush p hp hpend => exact h.land hcur hpend
  | flushed p ok hp hpend => exact h.put hcur hpend (by simp [hp, Phase.Delivering]) ok (.inr hp)

/-- The two cursors, the notification at hand and the store, together. -/
structure Sound (c : Config) (held : Option Aviso.State.Checkpoint) (σ : State) : Prop where
  cursors : Cursors c σ
  atHand : AtHand c σ
  ledger : Ledger c held σ

theorem Sound.initial : Sound c held (.initial held) := ⟨.initial, trivial, .initial⟩

theorem Sound.step (h : Sound c held σ) (hs : Step c σ σ') : Sound c held σ' :=
  ⟨h.cursors.step h.atHand hs, h.atHand.step hs, h.ledger.step h.cursors hs⟩

theorem Sound.steps (h : Sound c held σ) (hs : Steps c σ σ') : Sound c held σ' :=
  Lib.star_invariant (fun _ _ h hs => h.step hs) hs h

end Delivery
end Aviso.Watch
