import Mathlib.Data.List.Basic
import Mathlib.Order.Lattice

namespace Aviso.Lib

/-- The letters that give a text its nesting: brackets, a quote that suspends
them, an escape inside quotes, and the separator of the outermost fields. -/
structure Marks (α : Type) where
  opens : α → Bool
  closes : α → Bool
  quote : α
  escape : α
  separator : α
  quote_ne_escape : quote ≠ escape
  opens_quote : opens quote = false
  closes_quote : closes quote = false
  closes_of_opens : opens a = true → closes a = false
  opens_separator : opens separator = false
  closes_separator : closes separator = false
  quote_ne_separator : quote ≠ separator

namespace Marks

variable {α : Type} (m : Marks α)

/-- Where a reader stands: how many brackets are open, and whether it is
inside quotes, right after an escape. -/
structure Place where
  depth : Nat
  quoted : Bool
  escaped : Bool
  deriving DecidableEq, Repr

/-- Outside quotes, with this many brackets open. -/
def Place.at (depth : Nat) : Place := ⟨depth, false, false⟩

/-- What one letter means to the reader. -/
inductive Move where
  | on (next : Place)
  | cut
  | unmatched
  deriving DecidableEq, Repr

variable [DecidableEq α]

/-- One letter, for a reader that counts no more than `cap` open brackets. -/
def move (cap : Nat) (p : Place) (a : α) : Move :=
  if p.quoted then
    if p.escaped then .on { p with escaped := false }
    else if a = m.escape then .on { p with escaped := true }
    else if a = m.quote then .on { p with quoted := false }
    else .on p
  else if a = m.quote then .on { p with quoted := true }
  else if m.opens a then .on { p with depth := min (p.depth + 1) cap }
  else if m.closes a then
    if p.depth = 0 then .unmatched else .on { p with depth := p.depth - 1 }
  else if a = m.separator ∧ p.depth = 0 then .cut
  else .on p

/-- A letter that means nothing outside quotes. -/
def Plain (a : α) : Prop :=
  a ≠ m.quote ∧ m.opens a = false ∧ m.closes a = false ∧ a ≠ m.separator

instance : DecidablePred m.Plain := fun _ => inferInstanceAs (Decidable (_ ∧ _))

/-- What may stand between two quotes. -/
inductive Quotable : List α → Prop
  | nil : Quotable []
  | letter : a ≠ m.quote → a ≠ m.escape → Quotable text → Quotable (a :: text)
  | escaped : Quotable text → Quotable (m.escape :: a :: text)

/-- Texts whose brackets and quotes are closed again, nested at most so deep.
The flag says whether the separator may stand outside the brackets. -/
inductive Balanced : Bool → Nat → List α → Prop
  | nil : Balanced sep n []
  | plain : m.Plain a → Balanced sep n text → Balanced sep n (a :: text)
  | separator : Balanced true n text → Balanced true n (m.separator :: text)
  | quoted : m.Quotable body → Balanced sep n text →
      Balanced sep n (m.quote :: (body ++ m.quote :: text))
  | bracketed : m.opens a = true → m.closes b = true → Balanced true n content →
      Balanced sep (n + 1) text → Balanced sep (n + 1) (a :: (content ++ b :: text))

variable {m}

omit [DecidableEq α] in
theorem Quotable.append (h : m.Quotable s) (h' : m.Quotable t) : m.Quotable (s ++ t) := by
  induction h with
  | nil => exact h'
  | letter hquote hescape _ ih => exact .letter hquote hescape ih
  | escaped _ ih => exact .escaped ih

omit [DecidableEq α] in
theorem Balanced.append (h : m.Balanced sep n s) (h' : m.Balanced sep n t) :
    m.Balanced sep n (s ++ t) := by
  induction h with
  | nil => exact h'
  | plain hplain _ ih => exact .plain hplain (ih h')
  | separator _ ih => exact .separator (ih h')
  | quoted hbody _ ih => simpa using Balanced.quoted hbody (ih h')
  | bracketed ha hb hcontent _ _ ih => simpa using Balanced.bracketed ha hb hcontent (ih h')

omit [DecidableEq α] in
theorem Balanced.deepen (h : m.Balanced sep n t) (hle : n ≤ k) : m.Balanced sep k t := by
  induction h generalizing k with
  | nil => exact .nil
  | plain hplain _ ih => exact .plain hplain (ih hle)
  | separator _ ih => exact .separator (ih hle)
  | quoted hbody _ ih => exact .quoted hbody (ih hle)
  | bracketed ha hb _ _ ihcontent ih =>
    obtain ⟨k, rfl⟩ : ∃ j, k = j + 1 := ⟨k - 1, by omega⟩
    exact .bracketed ha hb (ihcontent (by omega)) (ih hle)

omit [DecidableEq α] in
theorem Balanced.loosen (h : m.Balanced false n t) : m.Balanced true n t := by
  generalize hsep : false = sep at h
  induction h with
  | nil => exact .nil
  | plain hplain _ ih => exact .plain hplain (ih hsep)
  | separator => cases hsep
  | quoted hbody _ ih => exact .quoted hbody (ih hsep)
  | bracketed ha hb hcontent _ _ ih => exact .bracketed ha hb hcontent (ih hsep)

omit [DecidableEq α] in
theorem balanced_of_plain (h : ∀ a ∈ t, m.Plain a) : m.Balanced sep n t := by
  induction t with
  | nil => exact .nil
  | cons a t ih =>
    exact .plain (h a List.mem_cons_self) (ih fun b hb => h b (List.mem_cons_of_mem a hb))

/-- The reader over a text that it neither cuts nor rejects. -/
inductive Walk (m : Marks α) (cap : Nat) : Place → List α → Place → Prop
  | nil : Walk m cap p [] p
  | cons : m.move cap p a = .on q → Walk m cap q text r → Walk m cap p (a :: text) r

theorem Walk.append (h : Walk m cap p s q) (h' : Walk m cap q t r) : Walk m cap p (s ++ t) r := by
  induction h with
  | nil => exact h'
  | cons hmove _ ih => exact .cons hmove (ih h')

/-- Inside quotes a reader comes back to where it was. -/
theorem Quotable.walk (h : m.Quotable t) (cap depth : Nat) :
    Walk m cap ⟨depth, true, false⟩ t ⟨depth, true, false⟩ := by
  induction h with
  | nil => exact .nil
  | letter hquote hescape _ ih => exact .cons (by simp [move, hquote, hescape]) ih
  | escaped _ ih =>
    have hopened : m.move cap ⟨depth, true, false⟩ m.escape = .on ⟨depth, true, true⟩ := by
      simp [move]
    exact .cons hopened (.cons (by simp [move]) ih)

/-- Over a balanced text the reader comes back to the depth it started from.
The separators it meets on the way are all inside brackets. -/
theorem Balanced.walk (h : m.Balanced sep n t) (hcap : depth + n ≤ cap)
    (hsep : sep = true → 0 < depth) : Walk m cap (.at depth) t (.at depth) := by
  induction h generalizing depth with
  | nil => exact .nil
  | plain hplain _ ih =>
    obtain ⟨hquote, hopens, hcloses, hseparator⟩ := hplain
    refine .cons ?_ (ih hcap hsep)
    simp [move, Place.at, hquote, hopens, hcloses, hseparator]
  | separator _ ih =>
    refine .cons ?_ (ih hcap hsep)
    have hdepth : depth ≠ 0 := Nat.ne_of_gt (hsep rfl)
    simp [move, Place.at, m.quote_ne_separator.symm, m.opens_separator, m.closes_separator, hdepth]
  | quoted hbody _ ih =>
    have hopened : m.move cap (.at depth) m.quote = .on ⟨depth, true, false⟩ := by
      simp [move, Place.at]
    have hclosed : m.move cap ⟨depth, true, false⟩ m.quote = .on (.at depth) := by
      simp [move, Place.at, m.quote_ne_escape]
    exact .cons hopened ((hbody.walk cap depth).append (.cons hclosed (ih hcap hsep)))
  | @bracketed a b n content _ _ ha hb _ _ ihcontent ih =>
    have hne : a ≠ m.quote := by
      rintro rfl
      rw [m.opens_quote] at ha
      cases ha
    have hne' : b ≠ m.quote := by
      rintro rfl
      rw [m.closes_quote] at hb
      cases hb
    have hb' : m.opens b = false := by
      by_contra hopens
      rw [m.closes_of_opens (by simpa using hopens)] at hb
      cases hb
    have hopened : m.move cap (.at depth) a = .on (.at (depth + 1)) := by
      have hroom : min (depth + 1) cap = depth + 1 := by omega
      simp [move, Place.at, hne, ha, hroom]
    have hclosed : m.move cap (.at (depth + 1)) b = .on (.at depth) := by
      simp [move, Place.at, hne', hb', hb]
    have hcontent : Walk m cap (.at (depth + 1)) content (.at (depth + 1)) :=
      ihcontent (by omega) fun _ => Nat.succ_pos depth
    exact .cons hopened (hcontent.append (.cons hclosed (ih hcap hsep)))

end Marks
end Aviso.Lib
