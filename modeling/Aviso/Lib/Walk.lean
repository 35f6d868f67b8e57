import Mathlib.Data.Finset.Basic
import Mathlib.Data.List.Chain

namespace Aviso.Lib

/-- What a node shows when it is looked at: it stands for itself, or it holds items, each of which may
fail when it is read. -/
inductive View (ε α : Type) where
  | leaf (verdict : Except ε Unit)
  | inner (items : List (Except ε α))

/-- Why a walk stops early. -/
inductive Fault (ε : Type) where
  | own (e : ε)
  | deep
  | cyclic
  deriving DecidableEq, Repr

namespace Walk

variable {ε α : Type}

/-- The items of a node in order, until one of them stops the walk. -/
def visit (step : Finset α → α → Except (Fault ε) Unit × Finset α) :
    Finset α → List (Except ε α) → Except (Fault ε) Unit × Finset α
  | active, [] => (.ok (), active)
  | active, .error e :: _ => (.error (.own e), active)
  | active, .ok a :: rest =>
    match step active a with
    | (.ok (), active) => visit step active rest
    | (.error f, active) => (.error f, active)

/-- A walk over everything that hangs on a node, at most `limit` nodes that hold items deep. The nodes
it is inside of are `active`. -/
def walk [DecidableEq α] (view : α → View ε α) : Nat → Finset α → α → Except (Fault ε) Unit × Finset α
  | 0, active, a =>
    match view a with
    | .leaf verdict => (verdict.mapError .own, active)
    | .inner _ => (.error .deep, active)
  | limit + 1, active, a =>
    match view a with
    | .leaf verdict => (verdict.mapError .own, active)
    | .inner items =>
      if a ∈ active then (.error .cyclic, active)
      else
        let (result, active) := visit (walk view limit) (insert a active) items
        (result, active.erase a)

variable {view : α → View ε α} {limit n k : Nat} {active : Finset α} {a b c : α} {f : Fault ε} {e : ε}
  {items : List (Except ε α)} {step : Finset α → α → Except (Fault ε) Unit × Finset α}

section Descent

variable (view)

/-- A node that holds items. -/
def Opens (a : α) : Prop := ∃ items, view a = .inner items

def Child (a b : α) : Prop := ∃ items, view a = .inner items ∧ .ok b ∈ items

/-- A failure of a node's own. -/
def Fails (a : α) (e : ε) : Prop :=
  view a = .leaf (.error e) ∨ ∃ items, view a = .inner items ∧ .error e ∈ items

/-- `b` hangs on `a`, this many nodes further down. -/
inductive Below : Nat → α → α → Prop where
  | here (a : α) : Below 0 a a
  | step {n : Nat} {a b c : α} : Child view a b → Below n b c → Below (n + 1) a c

/-- What hangs on a node is sound, and less than `limit` deep where it holds items. -/
def Nested (limit : Nat) (a : α) : Prop :=
  ∀ k b, Below view k a b → (∀ e, ¬Fails view b e) ∧ (Opens view b → k < limit)

variable {view}

theorem Below.trans (h : Below view n a b) (h' : Below view k b c) : Below view (n + k) a c := by
  induction h with
  | here => simpa using h'
  | step hchild _ ih =>
    rw [Nat.add_right_comm]
    exact .step hchild (ih h')

theorem Below.last (h : Below view n a b) (hchild : Child view b c) : Below view (n + 1) a c :=
  h.trans (.step hchild (.here c))

theorem Below.opens (h : Below view (n + 1) a b) : Opens view a := by
  cases h with
  | step hchild _ =>
    obtain ⟨items, hitems, -⟩ := hchild
    exact ⟨items, hitems⟩

/-- Around a cycle one goes down as far as one likes. -/
theorem Below.around (h : Below view (n + 1) a a) (k : Nat) : ∃ m, k ≤ m ∧ Below view m a a := by
  induction k with
  | zero => exact ⟨0, le_rfl, .here a⟩
  | succ k ih =>
    obtain ⟨m, hle, hm⟩ := ih
    exact ⟨n + 1 + m, by omega, h.trans hm⟩

/-- What is nested has no cycle in it. -/
theorem Nested.acyclic (h : Nested view limit a) (hb : Below view k a b) : ¬Below view (n + 1) b b := by
  intro hcycle
  obtain ⟨m, hle, hm⟩ := hcycle.around limit
  have hlt := (h _ b (hb.trans hm)).2 hcycle.opens
  omega

theorem nested_leaf {verdict : Except ε Unit} (hview : view a = .leaf verdict) :
    Nested view limit a ↔ verdict = .ok () := by
  constructor
  · intro h
    cases verdict with
    | ok => rfl
    | error e => exact absurd (.inl hview) ((h 0 a (.here a)).1 e)
  · rintro rfl k b hb
    cases hb with
    | here =>
      refine ⟨?_, ?_⟩
      · rintro e (hfails | ⟨items, hitems, -⟩)
        · cases hview.symm.trans hfails
        · cases hview.symm.trans hitems
      · rintro ⟨items, hitems⟩
        cases hview.symm.trans hitems
    | step hchild _ =>
      obtain ⟨items, hitems, -⟩ := hchild
      cases hview.symm.trans hitems

theorem nested_inner (hview : view a = .inner items) :
    Nested view (limit + 1) a ↔ ∀ item ∈ items, ∃ b, item = .ok b ∧ Nested view limit b := by
  constructor
  · intro h item hitem
    cases item with
    | error e => exact absurd (.inr ⟨items, hview, hitem⟩) ((h 0 a (.here a)).1 e)
    | ok b =>
      refine ⟨b, rfl, ?_⟩
      intro k c hc
      obtain ⟨hsound, hdepth⟩ := h (k + 1) c (.step ⟨items, hview, hitem⟩ hc)
      exact ⟨hsound, fun hopens => Nat.lt_of_succ_lt_succ (hdepth hopens)⟩
  · intro h k c hc
    cases hc with
    | here =>
      refine ⟨?_, fun _ => Nat.succ_pos limit⟩
      rintro e (hfails | ⟨items', hitems, hmem⟩)
      · cases hview.symm.trans hfails
      · cases hview.symm.trans hitems
        obtain ⟨b, hb, -⟩ := h _ hmem
        cases hb
    | step hchild hbelow =>
      obtain ⟨items', hitems, hmem⟩ := hchild
      cases hview.symm.trans hitems
      obtain ⟨b, hb, hnested⟩ := h _ hmem
      cases hb
      obtain ⟨hsound, hdepth⟩ := hnested _ _ hbelow
      exact ⟨hsound, fun hopens => Nat.succ_lt_succ (hdepth hopens)⟩

theorem not_nested_inner (hview : view a = .inner items) : ¬Nested view 0 a :=
  fun h => Nat.not_lt_zero 0 ((h 0 a (.here a)).2 ⟨items, hview⟩)

end Descent

section Visiting

/-- A walk that leaves a node is inside of the same ones as before it. -/
theorem visit_restores (hstep : ∀ active a, (step active a).2 = active) (active : Finset α) (items : List (Except ε α)) :
    (visit step active items).2 = active := by
  induction items generalizing active with
  | nil => rfl
  | cons item items ih =>
    cases item with
    | error e => rfl
    | ok a =>
      have hsame := hstep active a
      rw [visit]
      split
      · rename_i active' heq
        rw [heq] at hsame
        rw [ih]
        exact hsame
      · rename_i f active' heq
        rw [heq] at hsame
        exact hsame

theorem walk_restores [DecidableEq α] (view : α → View ε α) (limit : Nat) (active : Finset α) (a : α) :
    (walk view limit active a).2 = active := by
  induction limit generalizing active a with
  | zero =>
    rw [walk]
    split <;> rfl
  | succ limit ih =>
    rw [walk]
    split
    · rfl
    · split
      · rfl
      · rename_i items _ hfresh
        have hvisit := visit_restores ih (insert a active) items
        dsimp only
        rw [hvisit, Finset.erase_insert hfresh]

theorem visit_ok (hstep : ∀ active a, (step active a).2 = active) (active : Finset α) (items : List (Except ε α)) :
    (visit step active items).1 = .ok () ↔ ∀ item ∈ items, ∃ b, item = .ok b ∧ (step active b).1 = .ok () := by
  induction items with
  | nil => simp [visit]
  | cons item items ih =>
    rw [List.forall_mem_cons, ← ih]
    cases item with
    | error e => simp [visit]
    | ok a =>
      have hsame := hstep active a
      rw [visit]
      cases hresult : step active a with
      | mk result active' =>
        rw [hresult] at hsame
        cases hsame
        cases result <;> simp [hresult]

/-- An item that stops a visit is one that cannot be read, or one at which the walk stops. -/
theorem visit_error (hstep : ∀ active a, (step active a).2 = active) (h : (visit step active items).1 = .error f) :
    (∃ e, f = .own e ∧ .error e ∈ items) ∨ ∃ b, .ok b ∈ items ∧ (step active b).1 = .error f := by
  induction items with
  | nil => cases h
  | cons item items ih =>
    cases item with
    | error e =>
      cases h
      exact .inl ⟨e, rfl, List.mem_cons_self⟩
    | ok a =>
      have hsame := hstep active a
      rw [visit] at h
      cases hresult : step active a with
      | mk result active' =>
        rw [hresult] at hsame h
        cases hsame
        cases result with
        | error f' =>
          cases h
          exact .inr ⟨a, List.mem_cons_self, by rw [hresult]⟩
        | ok =>
          rcases ih h with ⟨e, rfl, hmem⟩ | ⟨b, hmem, hb⟩
          · exact .inl ⟨e, rfl, List.mem_cons_of_mem _ hmem⟩
          · exact .inr ⟨b, List.mem_cons_of_mem _ hmem, hb⟩

end Visiting

section Judging

variable (view active) in
/-- The nodes a walk is inside of are above the one it looks at. -/
def Above (a : α) : Prop := ∀ x ∈ active, ∃ k, Below view (k + 1) x a

variable (view) in
/-- What a walk that stops has found: a node that fails, a node inside itself, or nodes that hold
items, each one in the one before it: `limit` different ones and one more. -/
def Found (limit : Nat) (active : Finset α) (a : α) : Fault ε → Prop
  | .own e => ∃ k b, Below view k a b ∧ Fails view b e
  | .cyclic => ∃ k n b, Below view k a b ∧ Below view (n + 1) b b
  | .deep => ∃ chain last, (chain ++ [last]).head? = some a ∧ (chain ++ [last]).IsChain (Child view) ∧
      (∀ x ∈ chain ++ [last], Opens view x) ∧ chain.length = limit ∧ chain.Nodup ∧ ∀ x ∈ chain, x ∉ active

theorem leaf_error {verdict : Except ε Unit} (hview : view a = .leaf verdict) (h : verdict.mapError Fault.own = .error f) :
    Found view limit active a f := by
  cases verdict with
  | ok => cases h
  | error e =>
    cases h
    exact ⟨0, a, .here a, .inl hview⟩

variable [DecidableEq α]

theorem Above.child (h : Above view active a) (hchild : Child view a b) : Above view (insert a active) b := by
  intro x hx
  rcases Finset.mem_insert.mp hx with rfl | hx
  · exact ⟨0, .step hchild (.here b)⟩
  · obtain ⟨k, hk⟩ := h x hx
    exact ⟨k + 1, hk.last hchild⟩

/-- A walk goes through if and only if what hangs on its node is nested. -/
theorem walk_ok (habove : Above view active a) : (walk view limit active a).1 = .ok () ↔ Nested view limit a := by
  induction limit generalizing active a with
  | zero =>
    cases hview : view a with
    | leaf verdict =>
      rw [nested_leaf hview]
      simp only [walk, hview]
      cases verdict <;> simp [Except.mapError]
    | inner items =>
      simp only [walk, hview]
      exact iff_of_false nofun (not_nested_inner hview)
  | succ limit ih =>
    cases hview : view a with
    | leaf verdict =>
      rw [nested_leaf hview]
      simp only [walk, hview]
      cases verdict <;> simp [Except.mapError]
    | inner items =>
      simp only [walk, hview]
      split
      · rename_i hmem
        obtain ⟨k, hcycle⟩ := habove a hmem
        refine iff_of_false nofun ?_
        exact fun hnested => hnested.acyclic (.here a) hcycle
      · rw [visit_ok (walk_restores view limit), nested_inner hview]
        constructor
        · intro hall item hitem
          obtain ⟨b, rfl, hb⟩ := hall item hitem
          exact ⟨b, rfl, (ih (habove.child ⟨items, hview, hitem⟩)).mp hb⟩
        · intro hall item hitem
          obtain ⟨b, rfl, hb⟩ := hall item hitem
          exact ⟨b, rfl, (ih (habove.child ⟨items, hview, hitem⟩)).mpr hb⟩

theorem Found.child (hchild : Child view a b) (hfresh : a ∉ active) (h : Found view limit (insert a active) b f) :
    Found view (limit + 1) active a f := by
  cases f with
  | own e =>
    obtain ⟨k, c, hbelow, hfails⟩ := h
    exact ⟨k + 1, c, .step hchild hbelow, hfails⟩
  | cyclic =>
    obtain ⟨k, n, c, hbelow, hcycle⟩ := h
    exact ⟨k + 1, n, c, .step hchild hbelow, hcycle⟩
  | deep =>
    obtain ⟨chain, last, hhead, hchain, hopens, hlength, hnodup, hactive⟩ := h
    refine ⟨a :: chain, last, rfl, ?_, ?_, congrArg Nat.succ hlength, ?_, ?_⟩
    · rw [List.cons_append, List.isChain_cons]
      refine ⟨?_, hchain⟩
      intro c hc
      cases hhead.symm.trans hc
      exact hchild
    · obtain ⟨items, hitems, -⟩ := hchild
      exact List.forall_mem_cons.mpr ⟨⟨items, hitems⟩, hopens⟩
    · refine List.nodup_cons.mpr ⟨?_, hnodup⟩
      exact fun hmem => hactive a hmem (Finset.mem_insert_self a active)
    · refine List.forall_mem_cons.mpr ⟨hfresh, ?_⟩
      exact fun x hx hmem => hactive x hx (Finset.mem_insert_of_mem hmem)

theorem walk_error (habove : Above view active a) (h : (walk view limit active a).1 = .error f) :
    Found view limit active a f := by
  induction limit generalizing active a with
  | zero =>
    cases hview : view a with
    | leaf verdict =>
      simp only [walk, hview] at h
      exact leaf_error hview h
    | inner items =>
      simp only [walk, hview] at h
      cases h
      exact ⟨[], a, rfl, by simp, by simpa using ⟨items, hview⟩, rfl, List.nodup_nil, nofun⟩
  | succ limit ih =>
    cases hview : view a with
    | leaf verdict =>
      simp only [walk, hview] at h
      exact leaf_error hview h
    | inner items =>
      simp only [walk, hview] at h
      split at h
      · rename_i hmem
        obtain ⟨k, hcycle⟩ := habove a hmem
        cases h
        exact ⟨0, k, a, .here a, hcycle⟩
      · rename_i hfresh
        rcases visit_error (walk_restores view limit) h with ⟨e, rfl, hmem⟩ | ⟨b, hmem, hb⟩
        · exact ⟨0, a, .here a, .inr ⟨items, hview, hmem⟩⟩
        · have hchild : Child view a b := ⟨items, hview, hmem⟩
          exact Found.child hchild hfresh (ih (habove.child hchild) hb)

end Judging

end Walk

end Aviso.Lib
