import Mathlib.Data.List.DropRight
import Mathlib.Data.List.TakeWhile
import Aviso.Json.Compact
import Aviso.Proofs.Splitting

namespace Aviso.Cli
open Aviso.Template Aviso.Json Lib.Marks

theorem plain_of_number {c : Char} (h : isNumberChar c = true) : marks.Plain c := by
  refine ⟨?_, ?_, ?_, ?_⟩
  · rintro rfl
    exact absurd h (by decide)
  · by_contra hopens
    rcases (opens_iff c).mp (by simpa using hopens) with rfl | rfl <;> exact absurd h (by decide)
  · by_contra hcloses
    rcases (closes_iff c).mp (by simpa using hcloses) with rfl | rfl <;> exact absurd h (by decide)
  · rintro rfl
    exact absurd h (by decide)

theorem plain_of_all {t : Text} (h : t.all (fun c => decide (marks.Plain c)) = true) :
    ∀ c ∈ t, marks.Plain c := fun c hc => of_decide_eq_true (List.all_eq_true.mp h c hc)

theorem number_not_blank {c : Char} (h : isNumberChar c = true) : isWhitespace c = false := by
  rcases Bool.or_eq_true .. |>.mp h with hdigit | hsign
  · have hrange := Bool.and_eq_true .. |>.mp hdigit
    have hzero : (48 : UInt32) ≤ c.val := by simpa using hrange.1
    have hnine : c.val ≤ (57 : UInt32) := by simpa using hrange.2
    have hlow : 48 ≤ c.toNat := UInt32.le_iff_toNat_le.mp hzero
    have hhigh : c.toNat ≤ 57 := UInt32.le_iff_toNat_le.mp hnine
    simp [isWhitespace]
    omega
  · have hmember : c ∈ ['-', '+', '.', 'e', 'E'] := by simpa using hsign
    have hall : ['-', '+', '.', 'e', 'E'].all (!isWhitespace ·) = true := by decide
    simpa using List.all_eq_true.mp hall c hmember

theorem text_number {n : JsonNumber} (h : n.WellFormed) :
    n.text ≠ [] ∧ ∀ c ∈ n.text, isNumberChar c = true := by
  have hnat : ∀ k : Nat, (toString k).toList ≠ [] ∧
      ∀ c ∈ (toString k).toList, isNumberChar c = true := by
    intro k
    rw [Nat.toString_eq_repr, Nat.repr_eq_ofList_toDigits, String.toList_ofList]
    refine ⟨Nat.toDigits_ne_nil, fun c hc => ?_⟩
    have hdigit : c.isDigit = true := Nat.isDigit_of_mem_toDigits (by decide) (by decide) hc
    simp [isNumberChar, hdigit]
  cases n with
  | posInt n => exact hnat n
  | negInt n =>
    rw [JsonNumber.text, Int.toString_eq_repr, Int.repr_eq_if]
    split_ifs
    · exact hnat n.toNat
    · rw [String.toList_append]
      refine ⟨List.append_ne_nil_of_right_ne_nil _ (hnat _).1, fun c hc => ?_⟩
      rcases List.mem_append.mp hc with hc | hc
      · rw [List.mem_singleton.mp hc]
        decide
      · exact (hnat _).2 c hc
  | float text => exact ⟨h.1, List.all_eq_true.mp h.2⟩

theorem hexDigit_quotable (n : Nat) : hexDigit n ≠ '"' ∧ hexDigit n ≠ '\\' := by
  have hmember : hexDigit n ∈ hexDigits := by
    rw [hexDigit, List.getD_eq_getElem?_getD]
    cases hget : hexDigits[n]? with
    | none => decide
    | some c => exact List.mem_of_getElem? hget
  constructor
  · intro hquote
    rw [hquote] at hmember
    exact absurd hmember (by decide)
  · intro hback
    rw [hback] at hmember
    exact absurd hmember (by decide)

theorem escapeChar_quotable (c : Char) : marks.Quotable (escapeChar c) := by
  have hescaped : ∀ a, marks.Quotable ['\\', a] := fun _ => .escaped .nil
  unfold escapeChar
  split_ifs with hquote hback
  all_goals try exact hescaped _
  · have hzero : '0' ≠ '"' ∧ '0' ≠ '\\' := by decide
    have hhigh := hexDigit_quotable (c.toNat / 16)
    have hlow := hexDigit_quotable (c.toNat % 16)
    exact .escaped (.letter hzero.1 hzero.2 (.letter hzero.1 hzero.2
      (.letter hhigh.1 hhigh.2 (.letter hlow.1 hlow.2 .nil))))
  · exact .letter hquote hback .nil

theorem escaped_quotable (s : Text) : marks.Quotable (s.flatMap escapeChar) := by
  induction s with
  | nil => exact .nil
  | cons c s ih => exact (escapeChar_quotable c).append ih

theorem quote_balanced (s : Text) : marks.Balanced sep n (Json.quote s) :=
  .quoted (escaped_quotable s) .nil

theorem bracketed_balanced {a b : Char} (ha : marks.opens a = true) (hb : marks.closes b = true)
    (h : marks.Balanced true n content) : marks.Balanced sep (n + 1) (a :: (content ++ [b])) :=
  .bracketed ha hb h .nil

mutual

/-- Compact text closes what it opens, and keeps its commas in brackets or quotes. -/
theorem compact_balanced : (v : Json) → v.WellFormed → marks.Balanced false v.depth (compact v)
  | .null, _ => balanced_of_plain (plain_of_all rfl)
  | .bool true, _ => balanced_of_plain (plain_of_all rfl)
  | .bool false, _ => balanced_of_plain (plain_of_all rfl)
  | .number _, h => balanced_of_plain fun c hc => plain_of_number ((text_number h).2 c hc)
  | .string s, _ => quote_balanced s
  | .array [], _ => bracketed_balanced rfl rfl .nil
  | .array (v :: rest), h => by
    obtain ⟨hv, hrest⟩ := h
    have hcontent := ((compact_balanced v hv).loosen.deepen (Nat.le_max_left _ _)).append
      ((compactItems_balanced rest hrest).deepen (Nat.le_max_right _ _))
    have hall : marks.Balanced false _ ('[' :: (_ ++ [']'])) := bracketed_balanced rfl rfl hcontent
    simpa [compact, Json.depth, depthItems] using hall
  | .object [], _ => bracketed_balanced rfl rfl .nil
  | .object ((k, v) :: rest), h => by
    obtain ⟨-, hv, hrest⟩ := h
    have hvalue := ((compact_balanced v hv).loosen.deepen (Nat.le_max_left _ _)).append
      ((compactEntries_balanced rest hrest).deepen (Nat.le_max_right _ _))
    have hcontent := (quote_balanced k).append (Balanced.plain (a := ':') (by decide) hvalue)
    have hall : marks.Balanced false _ ('\x7b' :: (_ ++ ['\x7d'])) :=
      bracketed_balanced rfl rfl hcontent
    simpa [compact, Json.depth, depthEntries] using hall

theorem compactItems_balanced : (items : List Json) → WellFormedItems items →
    marks.Balanced true (depthItems items) (compactItems items)
  | [], _ => .nil
  | v :: rest, h => by
    obtain ⟨hv, hrest⟩ := h
    exact .separator (((compact_balanced v hv).loosen.deepen (Nat.le_max_left _ _)).append
      ((compactItems_balanced rest hrest).deepen (Nat.le_max_right _ _)))

theorem compactEntries_balanced : (entries : List (Text × Json)) → WellFormedEntries entries →
    marks.Balanced true (depthEntries entries) (compactEntries entries)
  | [], _ => .nil
  | (k, v) :: rest, h => by
    obtain ⟨hv, hrest⟩ := h
    have hvalue := ((compact_balanced v hv).loosen.deepen (Nat.le_max_left _ _)).append
      ((compactEntries_balanced rest hrest).deepen (Nat.le_max_right _ _))
    exact .separator ((quote_balanced k).append (.plain (by decide) hvalue))

end

/-- Neither end of a text is white space. -/
structure Tight (t : Text) : Prop where
  nonempty : t ≠ []
  head : ∀ c ∈ t.head?, isWhitespace c = false
  last : ∀ c ∈ t.getLast?, isWhitespace c = false

theorem Tight.trim (h : Tight t) : trim t = t := by
  have hfront : t.dropWhile isWhitespace = t := by
    cases t with
    | nil => rfl
    | cons c t => exact List.dropWhile_cons_of_neg (by simp [h.head c rfl])
  have hback : t.rdropWhile isWhitespace = t := by
    refine List.rdropWhile_eq_self_iff.mpr fun hne => ?_
    simp [h.last _ (List.getLast?_eq_getLast_of_ne_nil hne)]
  rw [Template.trim, hfront]
  exact hback

theorem tight_of_trim (hne : t ≠ []) (h : Template.trim t = t) : Tight t := by
  have hlength : (t.dropWhile isWhitespace).length = t.length := by
    refine Nat.le_antisymm (List.length_dropWhile_le _ _) ?_
    conv_lhs => rw [← h]
    simpa [Template.trim] using List.length_dropWhile_le isWhitespace (t.dropWhile isWhitespace).reverse
  have hfront : t.dropWhile isWhitespace = t := (List.dropWhile_suffix _).eq_of_length hlength
  have hback : t.rdropWhile isWhitespace = t := by
    rw [Template.trim, hfront] at h
    exact h
  refine ⟨hne, fun c hc => ?_, fun c hc => ?_⟩
  · obtain ⟨rest, rfl⟩ := List.head?_eq_some_iff.mp hc
    simpa using List.dropWhile_eq_self_iff.mp hfront (Nat.succ_pos _)
  · obtain ⟨start, rfl⟩ := List.getLast?_eq_some_iff.mp hc
    simpa using List.rdropWhile_eq_self_iff.mp hback hne

/-- A text whose ends come from two tight ones. -/
theorem Tight.join (h : Tight s) (h' : Tight t) (middle : Text) : Tight (s ++ (middle ++ t)) := by
  refine ⟨?_, ?_, ?_⟩
  · simp [h.nonempty]
  · intro c hc
    rw [List.head?_append_of_ne_nil _ h.nonempty] at hc
    exact h.head c hc
  · intro c hc
    rw [← List.append_assoc, List.getLast?_append_of_ne_nil _ h'.nonempty] at hc
    exact h'.last c hc

theorem tight_enclosed {a b : Char} (ha : isWhitespace a = false) (hb : isWhitespace b = false)
    (content : Text) : Tight (a :: (content ++ [b])) := by
  refine ⟨by simp, ?_, ?_⟩
  · rintro c ⟨⟩
    exact ha
  · intro c hc
    rw [← List.cons_append, List.getLast?_concat] at hc
    cases hc
    exact hb

theorem tight_compact (v : Json) (h : v.WellFormed) : Tight (compact v) := by
  have hletters : ∀ t : Text, t ≠ [] → (∀ c ∈ t, isWhitespace c = false) → Tight t := fun t hne hall =>
    ⟨hne, fun c hc => hall c (List.mem_of_mem_head? hc), fun c hc => hall c (List.mem_of_getLast? hc)⟩
  cases v with
  | null => exact tight_of_trim (by decide) rfl
  | bool b => cases b <;> exact tight_of_trim (by decide) rfl
  | number n =>
    obtain ⟨hne, hchars⟩ := text_number h
    exact hletters _ hne fun c hc => number_not_blank (hchars c hc)
  | string s => exact tight_enclosed rfl rfl _
  | array items =>
    cases items with
    | nil => exact tight_enclosed rfl rfl []
    | cons v rest =>
      rw [compact, ← List.append_assoc]
      exact tight_enclosed rfl rfl _
  | object entries =>
    cases entries with
    | nil => exact tight_enclosed rfl rfl []
    | cons e rest =>
      obtain ⟨k, v⟩ := e
      simp only [compact, ← List.append_assoc, ← List.cons_append]
      exact tight_enclosed rfl rfl _

theorem structured_head (v : Json) (h : v.isStructured = true) :
    (compact v).head? = some '[' ∨ (compact v).head? = some '\x7b' := by
  cases v with
  | array items => cases items <;> exact .inl rfl
  | object entries =>
    rcases entries with _ | ⟨⟨k, v⟩, rest⟩ <;> exact .inr rfl
  | _ => cases h

end Aviso.Cli
