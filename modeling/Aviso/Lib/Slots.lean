import Aviso.Lib.Scan

namespace Aviso.Lib

/-- An element of a text, or a place in it that is filled with another text. -/
inductive Piece (α κ : Type) where
  | char (c : α)
  | slot (key : κ)
  deriving DecidableEq, Repr

namespace Piece

variable {α β κ : Type}

def spell (fill : κ → List α) : Piece α κ → List α
  | .char c => [c]
  | .slot key => fill key

/-- Whether a piece is an element with a property; a place is none. -/
def is (p : α → Bool) : Piece α κ → Bool
  | .char c => p c
  | .slot _ => false

/-- Rewriting the elements leaves the places where they are. -/
def flatMap (g : α → List β) : Piece α κ → List (Piece β κ)
  | .char c => (g c).map .char
  | .slot key => [.slot key]

end Piece

section Spelling

variable {α β κ : Type} {fill : κ → List α} {p : α → Bool}

/-- The text with its places filled. -/
def spell (fill : κ → List α) (text : List (Piece α κ)) : List α := text.flatMap (Piece.spell fill)

@[simp] theorem spell_nil : spell fill ([] : List (Piece α κ)) = [] := rfl

@[simp] theorem spell_char (c : α) (text : List (Piece α κ)) :
    spell fill (.char c :: text) = c :: spell fill text := rfl

@[simp] theorem spell_slot (key : κ) (text : List (Piece α κ)) :
    spell fill (.slot key :: text) = fill key ++ spell fill text := rfl

@[simp] theorem spell_append (x y : List (Piece α κ)) :
    spell fill (x ++ y) = spell fill x ++ spell fill y :=
  List.flatMap_append

@[simp] theorem spell_chars (l : List α) : spell fill (l.map .char) = l := by
  induction l with
  | nil => rfl
  | cons c l ih => rw [List.map_cons, spell_char, ih]

/-- The text of pieces with no place among them. -/
def literal : List (Piece α κ) → Option (List α)
  | [] => some []
  | .char c :: text => (literal text).map (c :: ·)
  | .slot _ :: _ => none

theorem literal_eq_some {x : List (Piece α κ)} {s : List α} (h : literal x = some s) :
    x = s.map .char := by
  induction x generalizing s with
  | nil =>
    cases h
    rfl
  | cons piece x ih =>
    cases piece with
    | char c =>
      obtain ⟨s', hs', rfl⟩ := Option.map_eq_some_iff.mp h
      rw [List.map_cons, ← ih hs']
    | slot key => cases h

@[simp] theorem literal_chars (l : List α) : literal (l.map (.char : α → Piece α κ)) = some l := by
  induction l with
  | nil => rfl
  | cons c l ih => rw [List.map_cons, literal, ih, Option.map_some]

/-- Nothing that fills a place has the property. -/
def Unseen (p : α → Bool) (fill : κ → List α) : Prop := ∀ key, ∀ c ∈ fill key, p c = false

theorem spell_filter (hfill : Unseen p fill) (x : List (Piece α κ)) :
    (spell fill x).filter (!p ·) = spell fill (x.filter (!Piece.is p ·)) := by
  induction x with
  | nil => rfl
  | cons piece x ih =>
    cases piece with
    | char c =>
      rw [spell_char]
      cases hc : p c with
      | true => simpa [hc, Piece.is] using ih
      | false => simpa [hc, Piece.is] using ih
    | slot key =>
      have hkey : (fill key).filter (!p ·) = fill key :=
        List.filter_eq_self.mpr fun c hc => by simp [hfill key c hc]
      rw [spell_slot, List.filter_append, hkey, ih]
      simp [Piece.is]

theorem spell_flatMap {fill' : κ → List β} {g : α → List β} (hfill : ∀ key, (fill key).flatMap g = fill' key)
    (x : List (Piece α κ)) : (spell fill x).flatMap g = spell fill' (x.flatMap (Piece.flatMap g)) := by
  induction x with
  | nil => rfl
  | cons piece x ih =>
    cases piece with
    | char c => rw [spell_char, List.flatMap_cons, List.flatMap_cons, spell_append, ih, Piece.flatMap, spell_chars]
    | slot key => rw [spell_slot, List.flatMap_append, List.flatMap_cons, spell_append, ih, hfill, Piece.flatMap,
        spell_slot, spell_nil, List.append_nil]

/-- A scan passes the places and stops at the same element. -/
theorem spell_scan (hfill : Unseen p fill) (x : List (Piece α κ)) :
    (spell fill x).takeWhile (!p ·) = spell fill (x.takeWhile (!Piece.is p ·)) ∧
      ((x.dropWhile (!Piece.is p ·) = [] ∧ (spell fill x).dropWhile (!p ·) = []) ∨
        ∃ c x', x.dropWhile (!Piece.is p ·) = .char c :: x' ∧
          (spell fill x).dropWhile (!p ·) = c :: spell fill x') := by
  induction x with
  | nil => exact ⟨rfl, .inl ⟨rfl, rfl⟩⟩
  | cons piece x ih =>
    cases piece with
    | char c =>
      cases hc : p c with
      | true => exact ⟨by simp [Piece.is, hc], .inr ⟨c, x, by simp [Piece.is, hc], by simp [hc]⟩⟩
      | false => simpa [Piece.is, hc] using ih
    | slot key =>
      have hpass : ∀ c ∈ fill key, (!p c) = true := fun c hc => by simp [hfill key c hc]
      rw [spell_slot, List.takeWhile_append_of_pos hpass, List.dropWhile_append_of_pos hpass]
      simpa [Piece.is] using ih

end Spelling

section Reads

variable {α β κ : Type} {T : List (Piece α κ) → Prop} {fill : κ → List α} {p : α → Bool}
  {x : List (Piece α κ)} {s : List α}

/-- `s` is the text that `x` spells, or what is left of it where the end, from before a
place on, was cut off. -/
def Reads (T : List (Piece α κ) → Prop) (fill : κ → List α) (x : List (Piece α κ)) (s : List α) : Prop :=
  ∃ y z, x = y ++ z ∧ s = spell fill y ∧ T z ∧ (z ≠ [] → ∃ key, .slot key ∈ z)

namespace Reads

theorem spelled (hT : T []) (x : List (Piece α κ)) : Reads T fill x (spell fill x) :=
  ⟨x, [], (List.append_nil x).symm, rfl, hT, fun h => absurd rfl h⟩

theorem chars (hT : T []) (s : List α) : Reads T fill (s.map .char) s := by
  have h : Reads T fill (s.map .char) (spell fill (s.map .char)) := spelled hT _
  rwa [spell_chars] at h

theorem prepend (l : List α) (h : Reads T fill x s) : Reads T fill (l.map .char ++ x) (l ++ s) := by
  obtain ⟨y, z, rfl, rfl, hz, hslot⟩ := h
  exact ⟨l.map .char ++ y, z, by rw [List.append_assoc], by rw [spell_append, spell_chars], hz, hslot⟩

theorem cons (c : α) (h : Reads T fill x s) : Reads T fill (.char c :: x) (c :: s) := h.prepend [c]

/-- A text without places is read whole. -/
theorem of_literal {l : List α} (h : Reads T fill x s) (hx : literal x = some l) : s = l := by
  obtain ⟨y, z, rfl, rfl, -, hslot⟩ := h
  have hchars := literal_eq_some hx
  have hz : z = [] := by
    by_contra hne
    obtain ⟨key, hkey⟩ := hslot hne
    have hmem : Piece.slot key ∈ l.map Piece.char := hchars ▸ List.mem_append_right y hkey
    obtain ⟨c, -, hc⟩ := List.mem_map.mp hmem
    cases hc
  rw [hz, List.append_nil] at hchars
  rw [hchars, spell_chars]

theorem flatMap {T' : List (Piece β κ) → Prop} {fill' : κ → List β} {g : α → List β}
    (hT : ∀ z, T z → T' (z.flatMap (Piece.flatMap g))) (hfill : ∀ key, (fill key).flatMap g = fill' key)
    (h : Reads T fill x s) : Reads T' fill' (x.flatMap (Piece.flatMap g)) (s.flatMap g) := by
  obtain ⟨y, z, rfl, rfl, hz, hslot⟩ := h
  refine ⟨y.flatMap (Piece.flatMap g), z.flatMap (Piece.flatMap g), List.flatMap_append,
    spell_flatMap hfill y, hT z hz, ?_⟩
  intro hne
  have hz' : z ≠ [] := by
    rintro rfl
    exact hne rfl
  obtain ⟨key, hkey⟩ := hslot hz'
  exact ⟨key, List.mem_flatMap.mpr ⟨_, hkey, List.mem_singleton.mpr rfl⟩⟩

theorem filter {T' : List (Piece α κ) → Prop} (hT : ∀ z, T z → T' (z.filter (!Piece.is p ·)))
    (hfill : Unseen p fill) (h : Reads T fill x s) :
    Reads T' fill (x.filter (!Piece.is p ·)) (s.filter (!p ·)) := by
  obtain ⟨y, z, rfl, rfl, hz, hslot⟩ := h
  refine ⟨y.filter (!Piece.is p ·), z.filter (!Piece.is p ·), List.filter_append _ _, spell_filter hfill y,
    hT z hz, ?_⟩
  intro hne
  have hz' : z ≠ [] := by
    rintro rfl
    exact hne rfl
  obtain ⟨key, hkey⟩ := hslot hz'
  exact ⟨key, List.mem_filter.mpr ⟨hkey, rfl⟩⟩

/-- A scan that passes the places, and what may be cut off, stops at the same element. -/
theorem scan (hT : T []) (hp : ∀ z, T z → ∀ piece ∈ z, Piece.is p piece = false) (hfill : Unseen p fill)
    (h : Reads T fill x s) :
    Reads T fill (x.takeWhile (!Piece.is p ·)) (s.takeWhile (!p ·)) ∧
      ((x.dropWhile (!Piece.is p ·) = [] ∧ s.dropWhile (!p ·) = []) ∨
        ∃ c x' s', x.dropWhile (!Piece.is p ·) = .char c :: x' ∧ s.dropWhile (!p ·) = c :: s' ∧
          Reads T fill x' s') := by
  obtain ⟨y, z, rfl, rfl, hz, hslot⟩ := h
  obtain ⟨htake, hdrop⟩ := spell_scan hfill y
  have hpass : ∀ piece ∈ z, (!Piece.is p piece) = true := by
    intro piece hpiece
    rw [hp z hz piece hpiece]
    rfl
  rcases hdrop with ⟨hy, hs⟩ | ⟨c, y', hy, hs⟩
  · have hall := List.dropWhile_eq_nil_iff.mp hy
    rw [List.takeWhile_append_of_pos hall, List.dropWhile_append_of_pos hall,
      List.takeWhile_eq_self_iff.mpr hpass, List.dropWhile_eq_nil_iff.mpr hpass,
      htake, List.takeWhile_eq_self_iff.mpr hall]
    exact ⟨⟨y, z, rfl, rfl, hz, hslot⟩, .inl ⟨rfl, hs⟩⟩
  · have hstop : ∃ piece ∈ y, (!Piece.is p piece) = false := by
      by_contra hnone
      have hnil : y.dropWhile (!Piece.is p ·) = [] :=
        List.dropWhile_eq_nil_iff.mpr fun piece hpiece => by
          by_contra hne
          exact hnone ⟨piece, hpiece, Bool.eq_false_of_not_eq_true hne⟩
      rw [hnil] at hy
      cases hy
    rw [takeWhile_stop hstop, dropWhile_stop hstop, htake, hy]
    exact ⟨spelled hT _, .inr ⟨c, y' ++ z, spell fill y', rfl, hs, y', z, rfl, rfl, hz, hslot⟩⟩

/-- A text is split where its outline is. -/
theorem splitOnP (hT : T []) (hp : ∀ z, T z → ∀ piece ∈ z, Piece.is p piece = false) (hfill : Unseen p fill)
    (h : Reads T fill x s) : List.Forall₂ (Reads T fill) (x.splitOnP (Piece.is p)) (s.splitOnP p) := by
  induction hn : x.length using Nat.strong_induction_on generalizing x s with
  | _ n ih =>
    obtain ⟨hhead, hrest⟩ := h.scan hT hp hfill
    rw [splitOnP_scan (Piece.is p) x, splitOnP_scan p s]
    rcases hrest with ⟨hx, hs⟩ | ⟨c, x', s', hx, hs, hreads⟩
    · rw [hx, hs]
      exact .cons hhead .nil
    · rw [hx, hs]
      refine .cons hhead (ih x'.length ?_ hreads rfl)
      have hlength := (List.dropWhile_suffix (l := x) (!Piece.is p ·)).length_le
      rw [hx, List.length_cons] at hlength
      omega

end Reads

end Reads

end Aviso.Lib
