import Aviso.Py.Identifier

namespace Aviso.Py.Identifier

open Lib (View Fault)
open Lib.Walk

variable {ο ε : Type} {heap heap' : ο → Object ο ε} {root value : ο} {o : Object ο ε} {r : Refusal ε} {e : ε} {n k : Nat}

/-- What the check sees of every object. -/
def views (heap : ο → Object ο ε) (value : ο) : View (Refusal ε) ο := (heap value).view

/-- `value` is a container that holds `item`. -/
def Holds (heap : ο → Object ο ε) : ο → ο → Prop := Child (views heap)

/-- `item` is found inside `value`, this many containers further in; `value` is inside itself at 0. -/
def Inside (heap : ο → Object ο ε) (k : Nat) (value item : ο) : Prop := Below (views heap) k value item

section Reading

theorem view_eq (o : Object ο ε) : o.view =
    if o.opens then .inner o.items else .leaf (if o.float = some false then .error nonFinite else .ok ()) := by
  unfold Object.view Object.opens
  cases o.float with
  | some finite => cases finite <;> rfl
  | none => cases o.string <;> cases o.bytes <;> cases o.byteArray <;> cases o.isContainer <;> rfl

theorem view_inner {items : List (Except (Refusal ε) ο)} : o.view = .inner items ↔ o.opens = true ∧ o.items = items := by
  rw [view_eq]
  split <;> simp_all

theorem opens_float (h : o.opens = true) : o.float = none := by
  unfold Object.opens at h
  cases hfloat : o.float with
  | some finite => simp [hfloat] at h
  | none => rfl

theorem mapError_error {γ δ : Type} {x : Except γ ο} {f : γ → δ} {y : δ} (h : x.mapError f = .error y) : ∃ e, y = f e := by
  cases x with
  | ok a => cases h
  | error e => exact ⟨e, (Except.error.inj h).symm⟩

/-- An item that cannot be read is one whose reading raises. -/
theorem items_error (h : .error r ∈ o.items) : ∃ e, r = .raised e := by
  have hread {items : List ο} (h : (.error r : Except (Refusal ε) ο) ∈ items.map .ok) : False := by
    obtain ⟨item, -, hitem⟩ := List.mem_map.mp h
    cases hitem
  unfold Object.items at h
  split at h
  · exact (hread h).elim
  · exact (hread h).elim
  · exact (hread h).elim
  · exact ⟨_, Except.error.inj (List.mem_singleton.mp h)⟩
  · obtain ⟨i, -, hitem⟩ := List.mem_map.mp h
    exact mapError_error hitem
  · exact ⟨_, Except.error.inj (List.mem_singleton.mp h)⟩
  · cases h

theorem fails_iff : Fails (views heap) value r ↔
    (r = nonFinite ∧ (heap value).float = some false) ∨ ((heap value).opens = true ∧ .error r ∈ (heap value).items) := by
  unfold Fails views
  rw [view_eq]
  cases hopens : (heap value).opens with
  | true => simp [opens_float hopens]
  | false =>
    by_cases hfloat : (heap value).float = some false
    · simp [hfloat, eq_comm]
    · simp [hfloat]

end Reading

section Validating

/-- The root is inside of nothing. -/
theorem above_root (view : ο → View (Refusal ε) ο) (value : ο) : Above view ∅ value :=
  fun _ hx => absurd hx (Finset.notMem_empty _)

variable [DecidableEq ο]

theorem validateIdentifier_ok : validateIdentifier heap root = .ok () ↔ Nested (views heap) maxIdentifierNesting root := by
  rw [← walk_ok (above_root _ root)]
  unfold validateIdentifier validateIdentifierInner
  change Except.mapError refusal (walk (views heap) maxIdentifierNesting ∅ root).1 = .ok () ↔ _
  cases (walk (views heap) maxIdentifierNesting ∅ root).1 <;> simp [Except.mapError]

theorem validateIdentifier_error (h : validateIdentifier heap root = .error r) :
    ∃ f, r = refusal f ∧ Found (views heap) maxIdentifierNesting ∅ root f := by
  unfold validateIdentifier validateIdentifierInner at h
  change Except.mapError refusal (walk (views heap) maxIdentifierNesting ∅ root).1 = .error r at h
  cases hwalk : (walk (views heap) maxIdentifierNesting ∅ root).1 with
  | ok =>
    rw [hwalk] at h
    cases h
  | error f =>
    rw [hwalk] at h
    cases h
    exact ⟨f, rfl, walk_error (above_root _ root) hwalk⟩

end Validating

/-- Two heaps whose objects show the same, the order of the items aside. -/
def SameUnordered (heap heap' : ο → Object ο ε) : Prop :=
  ∀ value, (heap value).view = (heap' value).view ∨
    ∃ items items', (heap value).view = .inner items ∧ (heap' value).view = .inner items' ∧
      ∀ item, item ∈ items ↔ item ∈ items'

section Unordered

theorem SameUnordered.symm (h : SameUnordered heap heap') : SameUnordered heap' heap := by
  intro value
  rcases h value with heq | ⟨items, items', hview, hview', hmem⟩
  · exact .inl heq.symm
  · exact .inr ⟨items', items, hview', hview, fun item => (hmem item).symm⟩

theorem SameUnordered.item (h : SameUnordered heap heap') {items : List (Except (Refusal ε) ο)}
    (hview : views heap value = .inner items) :
    ∃ items', views heap' value = .inner items' ∧ ∀ item, item ∈ items ↔ item ∈ items' := by
  rcases h value with heq | ⟨own, items', hown, hview', hmem⟩
  · exact ⟨items, heq.symm.trans hview, fun _ => Iff.rfl⟩
  · cases hown.symm.trans hview
    exact ⟨items', hview', hmem⟩

theorem SameUnordered.child (h : SameUnordered heap heap') {item : ο} (hchild : Child (views heap) value item) :
    Child (views heap') value item := by
  obtain ⟨items, hview, hmem⟩ := hchild
  obtain ⟨items', hview', hsame⟩ := h.item hview
  exact ⟨items', hview', (hsame _).mp hmem⟩

theorem SameUnordered.below (h : SameUnordered heap heap') {item : ο} (hbelow : Below (views heap) k value item) :
    Below (views heap') k value item := by
  induction hbelow with
  | here => exact .here _
  | step hchild _ ih => exact .step (h.child hchild) ih

theorem SameUnordered.fails (h : SameUnordered heap heap') (hfails : Fails (views heap) value r) :
    Fails (views heap') value r := by
  rcases hfails with hview | ⟨items, hview, hmem⟩
  · rcases h value with heq | ⟨items, items', hitems, -, -⟩
    · exact .inl (heq.symm.trans hview)
    · cases hitems.symm.trans hview
  · obtain ⟨items', hview', hsame⟩ := h.item hview
    exact .inr ⟨items', hview', (hsame _).mp hmem⟩

theorem SameUnordered.nested (h : SameUnordered heap heap') (hnested : Nested (views heap) n root) :
    Nested (views heap') n root := by
  intro k value hbelow
  obtain ⟨hsound, hdepth⟩ := hnested k value (h.symm.below hbelow)
  refine ⟨fun r hfails => hsound r (h.symm.fails hfails), ?_⟩
  rintro ⟨items', hview'⟩
  obtain ⟨items, hview, -⟩ := h.symm.item hview'
  exact hdepth ⟨items, hview⟩

end Unordered

variable (heap root) in
/-- What the check of an identifier decides, over any objects, cyclic or shared as they may be. An identifier
is accepted if and only if everything inside it can be read and is finite, and no container lies more than
the limit deep; then nothing in it is inside itself, and the order in which its containers show their items
does not matter. A refusal names something that is there. -/
structure Checked [DecidableEq ο] : Prop where
  accepts : validateIdentifier heap root = .ok () ↔ ∀ k value, Inside heap k root value →
    (heap value).float ≠ some false ∧
      ((heap value).opens = true → k < maxIdentifierNesting ∧ ∀ item ∈ (heap value).items, ∃ o, item = .ok o)
  acyclic : validateIdentifier heap root = .ok () → ∀ k value, Inside heap k root value → ∀ n, ¬Inside heap (n + 1) value value
  unordered : ∀ heap', SameUnordered heap heap' →
    (validateIdentifier heap root = .ok () ↔ validateIdentifier heap' root = .ok ())
  refuses : ∀ r, validateIdentifier heap root = .error r →
    (r = nonFinite ∧ ∃ k value, Inside heap k root value ∧ (heap value).float = some false) ∨
    (∃ e k value, r = .raised e ∧ Inside heap k root value ∧ (heap value).opens = true ∧
      .error (.raised e) ∈ (heap value).items) ∨
    (r = cyclic ∧ ∃ k n value, Inside heap k root value ∧ Inside heap (n + 1) value value) ∨
    (r = tooDeep ∧ ∃ containers last, (containers ++ [last]).head? = some root ∧
      (containers ++ [last]).IsChain (Holds heap) ∧ (heap last).opens = true ∧
      containers.length = maxIdentifierNesting ∧ containers.Nodup)

section Checking

variable [DecidableEq ο]

theorem accepts : validateIdentifier heap root = .ok () ↔ ∀ k value, Inside heap k root value →
    (heap value).float ≠ some false ∧
      ((heap value).opens = true → k < maxIdentifierNesting ∧ ∀ item ∈ (heap value).items, ∃ o, item = .ok o) := by
  have hopens (value : ο) : Opens (views heap) value ↔ (heap value).opens = true := by
    simp [Opens, views, view_inner]
  rw [validateIdentifier_ok]
  constructor
  · intro h k value hinside
    obtain ⟨hsound, hdepth⟩ := h k value hinside
    refine ⟨?_, ?_⟩
    · exact fun hfloat => hsound nonFinite (fails_iff.mpr (.inl ⟨rfl, hfloat⟩))
    · intro hvalue
      refine ⟨hdepth ((hopens value).mpr hvalue), ?_⟩
      intro item hitem
      cases item with
      | ok o => exact ⟨o, rfl⟩
      | error r => exact absurd (fails_iff.mpr (.inr ⟨hvalue, hitem⟩)) (hsound r)
  · intro h k value hinside
    obtain ⟨hfloat, hread⟩ := h k value hinside
    refine ⟨?_, fun hvalue => (hread ((hopens value).mp hvalue)).1⟩
    intro r hfails
    rcases fails_iff.mp hfails with ⟨-, hinfinite⟩ | ⟨hvalue, hitem⟩
    · exact hfloat hinfinite
    · obtain ⟨o, ho⟩ := (hread hvalue).2 _ hitem
      cases ho

theorem refuses (h : validateIdentifier heap root = .error r) :
    (r = nonFinite ∧ ∃ k value, Inside heap k root value ∧ (heap value).float = some false) ∨
    (∃ e k value, r = .raised e ∧ Inside heap k root value ∧ (heap value).opens = true ∧
      .error (.raised e) ∈ (heap value).items) ∨
    (r = cyclic ∧ ∃ k n value, Inside heap k root value ∧ Inside heap (n + 1) value value) ∨
    (r = tooDeep ∧ ∃ containers last, (containers ++ [last]).head? = some root ∧
      (containers ++ [last]).IsChain (Holds heap) ∧ (heap last).opens = true ∧
      containers.length = maxIdentifierNesting ∧ containers.Nodup) := by
  obtain ⟨f, rfl, hfound⟩ := validateIdentifier_error h
  cases f with
  | own r =>
    obtain ⟨k, value, hinside, hfails⟩ := hfound
    rcases fails_iff.mp hfails with ⟨rfl, hfloat⟩ | ⟨hopens, hitem⟩
    · exact .inl ⟨rfl, k, value, hinside, hfloat⟩
    · obtain ⟨e, rfl⟩ := items_error hitem
      exact .inr (.inl ⟨e, k, value, rfl, hinside, hopens, hitem⟩)
  | cyclic => exact .inr (.inr (.inl ⟨rfl, hfound⟩))
  | deep =>
    obtain ⟨containers, last, hhead, hchain, hopens, hlength, hnodup, -⟩ := hfound
    obtain ⟨items, hlast⟩ := hopens last (by simp)
    exact .inr (.inr (.inr ⟨rfl, containers, last, hhead, hchain, (view_inner.mp hlast).1, hlength, hnodup⟩))

theorem identifier_law (heap : ο → Object ο ε) (root : ο) : Checked heap root where
  accepts := accepts
  acyclic := fun h _ _ hinside _ => (validateIdentifier_ok.mp h).acyclic hinside
  unordered := by
    intro heap' hsame
    rw [validateIdentifier_ok, validateIdentifier_ok]
    exact ⟨hsame.nested, hsame.symm.nested⟩
  refuses := fun _ => refuses

end Checking

end Aviso.Py.Identifier
