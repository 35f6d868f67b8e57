import Aviso.Cli.Notify
import Aviso.Lib.Nesting

namespace Aviso.Cli
open Aviso.Template Lib.Marks

/-- The letters `split_parameters` looks at. -/
def marks : Lib.Marks Char where
  opens c := c == '\x7b' || c == '['
  closes c := c == '\x7d' || c == ']'
  quote := '"'
  escape := '\\'
  separator := ','
  quote_ne_escape := by decide
  opens_quote := by decide
  closes_quote := by decide
  closes_of_opens := by
    intro a h
    rw [Bool.or_eq_true, beq_iff_eq, beq_iff_eq] at h
    rcases h with rfl | rfl <;> decide
  opens_separator := by decide
  closes_separator := by decide
  quote_ne_separator := by decide

/-- The most brackets the splitter's `u32` counts. -/
def depthMax : Nat := 2 ^ 32 - 1

abbrev Splitter.place (st : Splitter) : Place := ⟨st.depth, st.inString, st.escape⟩

/-- The splitter `t` further on in its slice, standing at `p`. -/
def Splitter.past (st : Splitter) (t : Text) (p : Place) : Splitter :=
  { st with
    depth := p.depth, inString := p.quoted, escape := p.escaped
    slice := st.slice ++ t, i := st.i + t.len }

theorem Splitter.past_nil (st : Splitter) : st.past [] st.place = st := by
  simp [past, Text.len]

theorem Splitter.past_past (st : Splitter) (t u : Text) (p q : Place) :
    (st.past t p).past u q = st.past (t ++ u) q := by
  simp [past, Text.len, Nat.add_assoc]

theorem opens_iff (c : Char) : marks.opens c = true ↔ c = '\x7b' ∨ c = '[' := by
  simp [marks]

theorem closes_iff (c : Char) : marks.closes c = true ↔ c = '\x7d' ∨ c = ']' := by
  simp [marks]

/-- The splitter's turn is the reader's move. -/
theorem Splitter.step_on {st : Splitter} {ch : Char} (h : marks.move depthMax st.place ch = .on q) :
    st.step s ch = .ok (st.past [ch] q) := by
  have hquote : marks.quote = '"' := rfl
  have hescape : marks.escape = '\\' := rfl
  have hseparator : marks.separator = ',' := rfl
  simp only [Lib.Marks.move, place, opens_iff, closes_iff, hquote, hescape, hseparator] at h
  simp only [Splitter.step, take, past]
  split_ifs at h ⊢ <;> cases h <;> simp_all [saturatingSucc32, depthMax, Text.len]

theorem Splitter.walk {st : Splitter} (h : Walk marks depthMax p t q) (hp : st.place = p) :
    t.foldlM (Splitter.step s) st = .ok (st.past t q) := by
  induction h generalizing st with
  | nil =>
    subst hp
    rw [Splitter.past_nil]
    rfl
  | @cons p a q t r hmove _ ih =>
    subst hp
    rw [List.foldlM_cons, Splitter.step_on hmove]
    change t.foldlM (Splitter.step s) (st.past [a] q) = _
    rw [ih rfl, Splitter.past_past]
    rfl

/-- A field: balanced, with its separators in brackets or quotes. -/
abbrev Field (t : Text) : Prop := marks.Balanced false depthMax t

theorem Splitter.field {st : Splitter} (h : Field t) (hp : st.place = .at 0) :
    t.foldlM (Splitter.step s) st = .ok (st.past t (.at 0)) := by
  have hwalk : Walk marks depthMax (.at 0) t (.at 0) := h.walk (by omega) (by rintro ⟨⟩)
  exact Splitter.walk hwalk hp

theorem Splitter.step_cut {st : Splitter} (hp : st.place = .at 0) :
    st.step s ',' = (pushKv st.entries st.slice).map fun entries =>
      { st.take ',' with entries, slice := [] } := by
  obtain ⟨entries, depth, inString, escape, slice, i⟩ := st
  cases hp
  simp only [step]
  cases pushKv entries slice <;> rfl

theorem Splitter.finish_outside {st : Splitter} (hp : st.place = .at 0) :
    st.finish s = pushKv st.entries st.slice := by
  obtain ⟨entries, depth, inString, escape, slice, i⟩ := st
  cases hp
  cases slice <;> rfl

theorem Splitter.fields {st : Splitter} (h : ∀ t ∈ texts, Field t) (hp : st.place = .at 0)
    (hslice : st.slice = []) :
    ((List.intercalate [','] texts).foldlM (Splitter.step s) st >>= Splitter.finish s) =
      texts.foldlM pushKv st.entries := by
  induction texts generalizing st with
  | nil =>
    change st.finish s = .ok st.entries
    rw [Splitter.finish_outside hp, hslice]
    rfl
  | cons t texts ih =>
    have hfield := Splitter.field (s := s) (h t List.mem_cons_self) hp
    have hgrown : (st.past t (.at 0)).slice = t := by simp [past, hslice]
    cases texts with
    | nil =>
      rw [List.intercalate_singleton, hfield]
      change (st.past t (.at 0)).finish s = _
      rw [Splitter.finish_outside rfl, hgrown]
      change pushKv st.entries t = pushKv st.entries t >>= pure
      exact (bind_pure _).symm
    | cons u texts =>
      rw [List.intercalate_cons_cons, List.append_assoc, List.foldlM_append, hfield]
      change ((st.past t (.at 0)).step s ',' >>= _) >>= _ = _
      rw [Splitter.step_cut rfl, hgrown, List.foldlM_cons]
      change (((pushKv st.entries t).map _ >>= _) >>= _) = pushKv st.entries t >>= _
      cases pushKv st.entries t with
      | error e => rfl
      | ok entries => exact ih (fun w hw => h w (List.mem_cons_of_mem t hw)) rfl rfl

/-- Fields joined with commas are cut apart again. -/
theorem splitParameters_fields (texts : List Text) (h : ∀ t ∈ texts, Field t) :
    splitParameters (List.intercalate [','] texts) = texts.foldlM pushKv [] :=
  Splitter.fields h rfl rfl

end Aviso.Cli
