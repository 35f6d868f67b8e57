import Aviso.Proofs.Coalescing

namespace Aviso.Client
namespace Requests

variable {ε : Type} {c : Refreshing} {s₀ s s' : Requests ε} {r : Nat} {stage stage' : RequestStage ε}

/-- Some refresh has published its credential and not returned. -/
def Between (s : Requests ε) : Prop :=
  ∃ (i : Nat) (credential : Option Nat) (observed : Nat),
    s.requests[i]? = some (.refreshing credential observed true)

/-- How many coordinated refreshes have succeeded. -/
def successes (s : Requests ε) : Nat := (epochsOf s.trace).length

/-- The credential of a stage that has one is the one of `s₀`, its epoch was read since, and a skip
came after a success. -/
def Follows (c : Refreshing) (s₀ s : Requests ε) : RequestStage ε → Prop
  | .building => False
  | .attached credential => credential = s₀.authorizationHeader c
  | .sending credential observed | .waiting credential observed | .locked credential observed
  | .refreshing credential observed _ =>
    credential = s₀.authorizationHeader c ∧ ∃ k, s₀.successes ≤ k ∧ k ≤ s.successes ∧ observed = k % 2 ^ 64
  | .renewed credential _ skipped =>
    credential = s₀.authorizationHeader c ∧ (skipped = true → s₀.successes < s.successes)
  | .resending credential _ skipped again =>
    credential = s₀.authorizationHeader c ∧ (skipped = true → s₀.successes < s.successes ∧
      ∃ version, again = (if c.hasAuth then some version else none) ∧ s₀.version ≤ version ∧
        (¬ s₀.Between → s₀.version < version))
  | .done _ | .dropped => True

/-- Where the provider and the coordinator stand after `s₀`. -/
structure Later (s₀ s : Requests ε) : Prop where
  version : s₀.version ≤ s.version
  successes : s₀.successes ≤ s.successes
  between : ¬ s₀.Between → s.Between → s₀.version < s.version
  succeeded : ¬ s₀.Between → s₀.successes < s.successes → s₀.version < s.version

theorem Later.refl (s : Requests ε) : Later s s where
  version := le_refl _
  successes := le_refl _
  between := fun hno hbetween => absurd hbetween hno
  succeeded := fun _ hlt => absurd hlt (Nat.lt_irrefl _)

theorem successes_append (trace effects : List (RequestEffect ε)) :
    (epochsOf (trace ++ effects)).length = (epochsOf trace).length + (epochsOf effects).length := by
  rw [epochsOf_append, List.length_append]

theorem turn_successes {effects : List (RequestEffect ε)} (h : Turn c s r stage stage' effects) :
    (epochsOf (s.trace ++ effects)).length = (epochsOf s.trace).length := by
  rw [successes_append, turn_epochs h, List.length_nil, Nat.add_zero]

theorem turn_unpublished {effects : List (RequestEffect ε)} (h : Turn c s r stage stage' effects) :
    stage' ≠ .refreshing credential observed true := by
  cases h <;> simp

theorem Later.step (h : Later s₀ s) (hrotates : c.rotates = true) (hs : Moves c s s') : Later s₀ s' := by
  cases hs with
  | start =>
    refine ⟨h.version, h.successes, ?_, h.succeeded⟩
    rintro hno ⟨i, credential, observed, hi⟩
    rcases lookup_start hi with ⟨-, heq⟩ | hi
    · cases heq
    · exact h.between hno ⟨i, credential, observed, hi⟩
  | turn r hr hturn =>
    have hsame := turn_successes hturn
    refine ⟨h.version, ?_, ?_, ?_⟩
    · exact h.successes.trans_eq hsame.symm
    · rintro hno ⟨i, credential, observed, hi⟩
      rcases lookup_set hi with ⟨-, heq⟩ | ⟨-, hi⟩
      · exact absurd heq.symm (turn_unpublished hturn)
      · exact h.between hno ⟨i, credential, observed, hi⟩
    · intro hno hlt
      exact h.succeeded hno (Nat.lt_of_lt_of_eq hlt hsame)
  | publish r hr =>
    have hnext : s₀.version < s.version + 1 := Nat.lt_succ_of_le h.version
    exact ⟨Nat.le_of_lt hnext, h.successes, fun _ _ => hnext, fun _ _ => hnext⟩
  | succeed r hr hpublished =>
    rename_i credential observed published
    have hbetween : s.Between := ⟨r, credential, observed, hpublished hrotates ▸ hr⟩
    refine ⟨h.version, ?_, fun hno _ => h.between hno hbetween, fun hno _ => h.between hno hbetween⟩
    refine Nat.le_trans h.successes ?_
    exact (Nat.le_add_right _ _).trans_eq (successes_append _ _).symm
  | rotate =>
    have hnext : s₀.version < s.version + 1 := Nat.lt_succ_of_le h.version
    exact ⟨Nat.le_of_lt hnext, h.successes, fun _ _ => hnext, fun _ _ => hnext⟩

/-- Successes since keep what a stage stands for. -/
theorem Follows.mono (h : Follows c s₀ s stage) (hle : s.successes ≤ s'.successes) : Follows c s₀ s' stage := by
  cases stage with
  | sending credential observed =>
    obtain ⟨hcredential, k, hfrom, hto, hobserved⟩ := h
    exact ⟨hcredential, k, hfrom, Nat.le_trans hto hle, hobserved⟩
  | waiting credential observed =>
    obtain ⟨hcredential, k, hfrom, hto, hobserved⟩ := h
    exact ⟨hcredential, k, hfrom, Nat.le_trans hto hle, hobserved⟩
  | locked credential observed =>
    obtain ⟨hcredential, k, hfrom, hto, hobserved⟩ := h
    exact ⟨hcredential, k, hfrom, Nat.le_trans hto hle, hobserved⟩
  | refreshing credential observed published =>
    obtain ⟨hcredential, k, hfrom, hto, hobserved⟩ := h
    exact ⟨hcredential, k, hfrom, Nat.le_trans hto hle, hobserved⟩
  | renewed credential observed skipped =>
    exact ⟨h.1, fun hskipped => Nat.lt_of_lt_of_le (h.2 hskipped) hle⟩
  | resending credential observed skipped again =>
    exact ⟨h.1, fun hskipped => ⟨Nat.lt_of_lt_of_le (h.2 hskipped).1 hle, (h.2 hskipped).2⟩⟩
  | _ => exact h

theorem Follows.turn {effects : List (RequestEffect ε)} (h : Follows c s₀ s stage) (hlater : Later s₀ s)
    (hs : Coordinated s) (hturn : Turn c s r stage stage' effects) : Follows c s₀ s stage' := by
  cases hturn with
  | attach => exact h.elim
  | unattached e => exact h.elim
  | attachAgain =>
    refine ⟨h.1, fun hskipped => ⟨h.2 hskipped, s.version, rfl, hlater.version, ?_⟩⟩
    exact fun hno => hlater.succeeded hno (h.2 hskipped)
  | send => exact ⟨h, s.successes, hlater.successes, le_refl _, hs.generation⟩
  | unauthorized _ => exact h
  | acquire _ => exact h
  | enter _ => exact h
  | skip hmoved =>
    obtain ⟨hcredential, k, hfrom, hto, rfl⟩ := h
    refine ⟨hcredential, fun _ => Nat.lt_of_le_of_lt hfrom (Nat.lt_of_le_of_ne hto ?_)⟩
    rintro rfl
    exact hmoved hs.generation
  | _ => trivial

/-- A request in its place since `s₀`, when its first credential was attached. -/
structure Tracked (c : Refreshing) (s₀ : Requests ε) (r : Nat) (s : Requests ε) : Prop where
  coordinated : Coordinated s
  later : Later s₀ s
  follows : ∃ stage, s.requests[r]? = some stage ∧ Follows c s₀ s stage

theorem Tracked.step (h : Tracked c s₀ r s) (hrotates : c.rotates = true) (hs : Moves c s s') :
    Tracked c s₀ r s' := by
  refine ⟨h.coordinated.step hs, h.later.step hrotates hs, ?_⟩
  obtain ⟨stage, hr, hfollows⟩ := h.follows
  obtain ⟨hlength, -⟩ := List.getElem?_eq_some_iff.mp hr
  cases hs with
  | start => exact ⟨stage, by rw [List.getElem?_append_left hlength, hr], hfollows⟩
  | turn i hi hturn =>
    rename_i before behind effects
    have hsame : s.successes ≤ successes
        { s with requests := s.requests.set i behind, trace := s.trace ++ effects } :=
      Nat.le_of_eq (turn_successes hturn).symm
    by_cases hir : i = r
    · subst hir
      cases hi.symm.trans hr
      exact ⟨behind, by rw [List.getElem?_set_self hlength],
        (hfollows.turn h.later h.coordinated hturn).mono hsame⟩
    · exact ⟨stage, by rw [List.getElem?_set_ne hir, hr], hfollows.mono hsame⟩
  | publish i hi =>
    rename_i credential observed published
    by_cases hir : i = r
    · subst hir
      cases hi.symm.trans hr
      exact ⟨.refreshing credential observed true, by rw [List.getElem?_set_self hlength], hfollows⟩
    · exact ⟨stage, by rw [List.getElem?_set_ne hir, hr], hfollows⟩
  | succeed i hi hpublished =>
    rename_i credential observed published
    have hmore : s.successes ≤ successes
        { s with
          generation := wrappingSucc s.generation
          requests := s.requests.set i (.renewed credential observed false)
          trace := s.trace ++ [.refreshed i observed (.ok ())] } :=
      (Nat.le_add_right _ _).trans_eq (successes_append _ _).symm
    by_cases hir : i = r
    · subst hir
      cases hi.symm.trans hr
      refine ⟨.renewed credential observed false, by rw [List.getElem?_set_self hlength], hfollows.1, ?_⟩
      intro hskipped
      cases hskipped
    · exact ⟨stage, by rw [List.getElem?_set_ne hir, hr], hfollows.mono hmore⟩
  | rotate => exact ⟨stage, hr, hfollows⟩

theorem run_tracked {events : List (RequestEvent ε)} (hrotates : c.rotates = true)
    (hrun : Lib.Machine.run (step c) s events = some s') (h : Tracked c s₀ r s) : Tracked c s₀ r s' :=
  Lib.Machine.run_invariant (fun _ _ _ h hs => h.step hrotates (step_moves hs)) hrun h

/-- The first credential of a request is attached. -/
theorem tracked_attach (hs₀ : Coordinated s₀) (hr : s₀.requests[r]? = some .building)
    (hattach : step c s₀ (.attach r (.ok ())) = some s) : Tracked c s₀ r s := by
  obtain ⟨hlength, -⟩ := List.getElem?_eq_some_iff.mp hr
  have hgoto : s = s₀.goto r (.attached (s₀.authorizationHeader c)) := by
    obtain ⟨stage, hstage, hs⟩ := Option.bind_eq_some_iff.mp hattach
    cases hr.symm.trans hstage
    exact (Option.some.inj hs).symm
  subst hgoto
  refine ⟨hs₀.step (step_moves hattach), ?_, _, List.getElem?_set_self hlength, rfl⟩
  refine ⟨le_refl _, le_refl _, ?_, fun _ hlt => absurd hlt (Nat.lt_irrefl _)⟩
  rintro hno ⟨i, credential, observed, hi⟩
  rcases lookup_set hi with ⟨-, heq⟩ | ⟨-, hi⟩
  · cases heq
  · exact absurd ⟨i, credential, observed, hi⟩ hno

/-- A request that skips its refresh retries after another refresh has succeeded, with a credential no
older than its first, and with a newer one unless it got the first while a refresh stood between
publishing and returning. -/
theorem skip_soundness (c : Refreshing) (version : Nat) (before during : List (RequestEvent ε))
    (s₀ s₁ s : Requests ε) (r : Nat) (credential : Nat) (observed : Nat) (again : Option Nat)
    (hrotates : c.rotates = true) (hbefore : Lib.Machine.run (step c) (init version) before = some s₀)
    (hr : s₀.requests[r]? = some .building) (hattach : step c s₀ (.attach r (.ok ())) = some s₁)
    (hduring : Lib.Machine.run (step c) s₁ during = some s)
    (hskipped : s.requests[r]? = some (.resending (some credential) observed true again)) :
    credential = s₀.version ∧ (epochsOf s₀.trace).length < (epochsOf s.trace).length ∧
      ∃ newer, again = some newer ∧ credential ≤ newer ∧ (¬ s₀.Between → credential < newer) := by
  have htracked := run_tracked hrotates hduring (tracked_attach (run_coordinated hbefore) hr hattach)
  obtain ⟨stage, hstage, hfollows⟩ := htracked.follows
  cases hskipped.symm.trans hstage
  obtain ⟨hfirst, hretry⟩ := hfollows
  obtain ⟨hmore, newer, hagain, hle, hlt⟩ := hretry rfl
  unfold authorizationHeader at hfirst
  split at hfirst
  · rename_i hauth
    cases hfirst
    rw [if_pos hauth] at hagain
    exact ⟨rfl, hmore, newer, hagain, hle, hlt⟩
  · cases hfirst

/-- One request refreshes; between its publishing and returning another attaches the new credential and
reads the old epoch, is rejected, and skips. -/
def skipEvents : List (RequestEvent Unit) :=
  [.start, .attach 0 (.ok ()), .send 0, .answer 0 (.ok 401), .acquire 0, .compare 0, .publish 0, .start,
    .attach 1 (.ok ()), .send 1, .refreshed 0 (.ok ()), .answer 1 (.ok 401), .acquire 1, .compare 1,
    .attach 1 (.ok ())]

theorem skip_soundness_same : ¬ ∀ (c : Refreshing) (version : Nat) (events : List (RequestEvent Unit))
    (s : Requests Unit) (r credential observed newer : Nat), c.rotates = true →
      Lib.Machine.run (step c) (init version) events = some s →
      s.requests[r]? = some (.resending (some credential) observed true (some newer)) → credential < newer := by
  intro hclaim
  have hrun : ∃ s : Requests Unit, Lib.Machine.run (step ⟨true, true⟩) (init 0) skipEvents = some s ∧
      s.requests[1]? = some (.resending (some 1) 0 true (some 1)) := ⟨_, rfl, rfl⟩
  obtain ⟨s, hs, hskipped⟩ := hrun
  exact Nat.lt_irrefl 1 (hclaim _ 0 skipEvents s 1 1 0 1 rfl hs hskipped)

/-- The other request attaches before anything is published. -/
def retryEvents : List (RequestEvent Unit) :=
  [.send 1, .attach 0 (.ok ()), .send 0, .answer 0 (.ok 401), .acquire 0, .compare 0, .publish 0,
    .refreshed 0 (.ok ()), .answer 1 (.ok 401), .acquire 1, .compare 1, .attach 1 (.ok ())]

theorem skip_soundness_newer : ∃ s₀ s₁ s : Requests Unit,
    Lib.Machine.run (step ⟨true, true⟩) (init 0) [.start, .start] = some s₀ ∧
      step ⟨true, true⟩ s₀ (.attach 1 (.ok ())) = some s₁ ∧
      Lib.Machine.run (step ⟨true, true⟩) s₁ retryEvents = some s ∧
      ∃ newer, some 1 = some newer ∧ 0 ≤ newer ∧ (¬ s₀.Between → 0 < newer) := by
  have hbefore : Lib.Machine.run (step ⟨true, true⟩) (init 0) [.start, .start] =
      some (⟨0, 0, [.building, .building], []⟩ : Requests Unit) := rfl
  have hattach : step ⟨true, true⟩ (⟨0, 0, [.building, .building], []⟩ : Requests Unit) (.attach 1 (.ok ())) =
      some ⟨0, 0, [.building, .attached (some 0)], []⟩ := rfl
  have hduring : ∃ s, Lib.Machine.run (step ⟨true, true⟩)
      (⟨0, 0, [.building, .attached (some 0)], []⟩ : Requests Unit) retryEvents = some s ∧
        s.requests[1]? = some (.resending (some 0) 0 true (some 1)) := ⟨_, rfl, rfl⟩
  obtain ⟨s, hrun, hskipped⟩ := hduring
  have hsound := skip_soundness ⟨true, true⟩ 0 [.start, .start] retryEvents _ _ s 1 0 0 (some 1) rfl hbefore rfl
    hattach hrun hskipped
  exact ⟨_, _, s, hbefore, hattach, hrun, hsound.2.2⟩

end Requests
end Aviso.Client
