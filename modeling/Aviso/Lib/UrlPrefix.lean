import Aviso.Lib.Url
import Aviso.Lib.Scan

namespace Aviso.Lib.Url

section Clean

/-- What is left of a text without its tabs and newlines. -/
def untab (text : List Char) : List Char := text.filter (!isTabOrNewline ·)

theorem isTabOrNewline_blank {c : Char} (h : isBlank c = false) : isTabOrNewline c = false := by
  unfold isTabOrNewline
  simp only [Bool.or_eq_false_iff, decide_eq_false_iff_not]
  refine ⟨⟨?_, ?_⟩, ?_⟩ <;>
  · rintro rfl
    cases h

theorem dropWhile_mark {before after : List Char} {c : Char} (hc : isBlank c = false) :
    (before ++ c :: after).dropWhile isBlank = before.dropWhile isBlank ++ c :: after := by
  induction before with
  | nil => simp [hc]
  | cons d before ih =>
    cases hd : isBlank d with
    | true => simpa [hd] using ih
    | false => simp [hd]

/-- What is cleaned before and after a character that is kept. -/
theorem clean_mark {before after : List Char} {c : Char} (hc : isBlank c = false) :
    clean (before ++ c :: after) =
      untab (before.dropWhile isBlank) ++ c :: untab (after.rdropWhile isBlank) := by
  rw [clean, dropWhile_mark hc, rdropWhile_stop c hc, List.filter_append, List.filter_cons_of_pos]
  · rfl
  · simp [isTabOrNewline_blank hc]

/-- The last character of a text that is not blank, if there is one. -/
theorem last_mark {text : List Char} (h : ∃ c ∈ text, isBlank c = false) :
    ∃ before c after, text = before ++ c :: after ∧ isBlank c = false ∧ ∀ d ∈ after, isBlank d = true := by
  induction text using List.reverseRecOn with
  | nil => exact absurd h (by simp)
  | append_singleton text d ih =>
    cases hd : isBlank d with
    | false => exact ⟨text, d, [], rfl, hd, nofun⟩
    | true =>
      obtain ⟨c, hc, hblank⟩ := h
      have hmem : c ∈ text := by
        rcases List.mem_append.mp hc with hc | hc
        · exact hc
        · rw [List.mem_singleton.mp hc, hd] at hblank
          cases hblank
      obtain ⟨before, e, after, rfl, he, hafter⟩ := ih ⟨c, hmem, hblank⟩
      refine ⟨before, e, after ++ [d], by simp, he, ?_⟩
      intro x hx
      rcases List.mem_append.mp hx with hx | hx
      · exact hafter x hx
      · exact List.mem_singleton.mp hx ▸ hd

/-- What a text followed by another is cleaned to: only its blanks at the end depend on
the other. -/
theorem clean_append {lead : List Char} (hlead : ∃ c ∈ lead, isBlank c = false) :
    ∃ after, (∀ d ∈ after, isBlank d = true) ∧
      untab (lead.dropWhile isBlank) = clean lead ++ untab after ∧ ∀ rest,
        clean (lead ++ rest) = clean lead ++ untab ((after ++ rest).rdropWhile isBlank) := by
  obtain ⟨before, c, after, rfl, hc, hafter⟩ := last_mark hlead
  have hclean : clean (before ++ c :: after) = untab (before.dropWhile isBlank) ++ [c] := by
    rw [clean_mark hc, List.rdropWhile_eq_nil_iff.mpr hafter]
    rfl
  refine ⟨after, hafter, ?_, ?_⟩
  · rw [hclean, dropWhile_mark hc]
    simp [untab, isTabOrNewline_blank hc]
  · intro rest
    rw [hclean, List.append_assoc, List.cons_append, clean_mark hc]
    simp

end Clean

section Inert

theorem inert_nonblank {c : Char} (h : isInert c = true) : isBlank c = false := by
  have hall : ∀ n < 0x21, isInert (Char.ofNat n) = false := by
    decide
  by_contra hblank
  have hlow : c.toNat ≤ 0x20 := by simpa [isBlank] using hblank
  have hnot := hall c.toNat (by omega)
  rw [Char.ofNat_toNat, h] at hnot
  cases hnot

theorem inert_ne {c d : Char} (h : isInert c = true) (hd : isInert d = false) : c ≠ d := by
  rintro rfl
  rw [h] at hd
  cases hd

theorem inert_inside {c : Char} (h : isInert c = true) :
    isSlash c = false ∧ endsAuthority true c = false := by
  simp [isSlash, endsAuthority, inert_ne h (d := '/') rfl, inert_ne h (d := '\\') rfl,
    inert_ne h (d := '?') rfl, inert_ne h (d := '#') rfl]

theorem blank_inside {c : Char} (h : isBlank c = true) :
    isSlash c = false ∧ endsAuthority true c = false := by
  have hne (d : Char) (hd : isBlank d = false) : c ≠ d := by
    rintro rfl
    rw [h] at hd
    cases hd
  simp [isSlash, endsAuthority, hne '/' rfl, hne '\\' rfl, hne '?' rfl, hne '#' rfl]

/-- Cutting blanks off the end does not reach into inert text. -/
theorem rdropWhile_inert {value : List Char} (hne : value ≠ []) (hvalue : ∀ c ∈ value, isInert c = true)
    (before after : List Char) :
    (before ++ (value ++ after)).rdropWhile isBlank = before ++ (value ++ after.rdropWhile isBlank) := by
  rcases value.eq_nil_or_concat' with rfl | ⟨init, last, rfl⟩
  · exact absurd rfl hne
  · have hlast := inert_nonblank (hvalue last (by simp))
    rw [show before ++ (init ++ [last] ++ after) = (before ++ init) ++ last :: after by simp,
      rdropWhile_stop last hlast]
    simp

theorem untab_inert {value : List Char} (hvalue : ∀ c ∈ value, isInert c = true) : untab value = value := by
  refine List.filter_eq_self.mpr ?_
  intro c hc
  simp [isTabOrNewline_blank (inert_nonblank (hvalue c hc))]

/-- The slashes before inert text are skipped, and the text is not. -/
theorem dropSlashes_inert {value : List Char} (hne : value ≠ []) (hvalue : ∀ c ∈ value, isInert c = true)
    (before after : List Char) :
    (before ++ (value ++ after)).dropWhile isSlash = before.dropWhile isSlash ++ (value ++ after) := by
  induction before with
  | nil =>
    cases value with
    | nil => exact absurd rfl hne
    | cons c value => simp [(inert_inside (hvalue c (by simp))).1]
  | cons c before ih =>
    cases hc : isSlash c with
    | true => simpa [hc] using ih
    | false => simp [hc]

end Inert

section Cutting

theorem splitScheme_append {text rest : List Char} (h : ':' ∈ text) :
    splitScheme (text ++ rest) = (splitScheme text).map fun (scheme, after) => (scheme, after ++ rest) := by
  have hstop : ∃ c ∈ text, decide (c ≠ ':') = false := ⟨':', h, by simp⟩
  unfold splitScheme
  rw [takeWhile_stop hstop, dropWhile_stop hstop]
  obtain ⟨c, after, hafter, -⟩ := dropWhile_head hstop
  rw [hafter]
  cases text.takeWhile (· ≠ ':') with
  | nil => rfl
  | cons first scheme =>
    dsimp only [List.cons_append]
    split <;> rfl

/-- A text that decides where an authority after a scheme begins and where it ends. -/
structure Decides (kind : Kind) (rest : List Char) : Prop where
  mark : ∃ c ∈ rest.drop 2, endsAuthority false c = true
  server : ∀ port, kind = .server port → ∃ c ∈ rest.dropWhile isSlash, endsAuthority true c = true

theorem endsAuthority_special {c : Char} (h : endsAuthority false c = true) :
    endsAuthority true c = true := by
  unfold endsAuthority at *
  simp only [Bool.false_and, Bool.or_false] at h
  simp [h]

theorem stops_of_ends {special : Bool} {text : List Char} (h : ∃ c ∈ text, endsAuthority special c = true) :
    ∃ c ∈ text, (!endsAuthority special c) = false := by
  obtain ⟨c, hc, hends⟩ := h
  exact ⟨c, hc, by simp [hends]⟩

/-- What is appended to a text that decides it is no part of the authority. -/
theorem cutAuthority_append {kind : Kind} {rest : List Char} (h : Decides kind rest) (more : List Char) :
    cutAuthority kind (rest ++ more) =
      ((cutAuthority kind rest).1, (cutAuthority kind rest).2.1, (cutAuthority kind rest).2.2 ++ more) := by
  obtain ⟨c, hc, hends⟩ := h.mark
  have hspecial : ∀ text, text = rest.drop 2 → ∃ c ∈ text, (!endsAuthority true c) = false := by
    rintro text rfl
    exact ⟨c, hc, by simp [endsAuthority_special hends]⟩
  have hother : ∀ text, text = rest.drop 2 → ∃ c ∈ text, (!endsAuthority false c) = false := by
    rintro text rfl
    exact ⟨c, hc, by simp [hends]⟩
  cases kind with
  | server port =>
    have hstop := stops_of_ends (h.server port rfl)
    have hslash : ∃ c ∈ rest, isSlash c = false := by
      by_contra hall
      have hnil : rest.dropWhile isSlash = [] :=
        List.dropWhile_eq_nil_iff.mpr fun c hc => by
          by_contra hne
          exact hall ⟨c, hc, Bool.eq_false_of_not_eq_true hne⟩
      obtain ⟨c, hc, -⟩ := hstop
      rw [hnil] at hc
      cases hc
    simp only [cutAuthority]
    rw [dropWhile_stop hslash, takeWhile_stop hstop, dropWhile_stop hstop]
  | file =>
    match rest with
    | [] => cases hc
    | [_] => cases hc
    | first :: second :: text =>
      have hstop := hspecial text rfl
      simp only [cutAuthority, List.cons_append]
      rw [takeWhile_stop hstop, dropWhile_stop hstop]
      split
      · split <;> rfl
      · split <;> rfl
  | other =>
    match rest with
    | [] => cases hc
    | [_] => cases hc
    | first :: second :: text =>
      have hstop := hother text rfl
      by_cases hfirst : first = '/'
      · subst hfirst
        by_cases hsecond : second = '/'
        · subst hsecond
          simp only [cutAuthority, List.cons_append]
          rw [takeWhile_stop hstop, dropWhile_stop hstop]
        · simp [cutAuthority, hsecond]
      · simp [cutAuthority, hfirst]

/-- A path that starts after an authority starts at the character that ends it. -/
theorem cutAuthority_start {kind : Kind} {rest : List Char} (h : Decides kind rest)
    (hmode : (cutAuthority kind rest).2.1 = .start) : (cutAuthority kind rest).2.2 ≠ [] := by
  have hstop {special : Bool} {text : List Char} (htext : ∃ c ∈ text, endsAuthority special c = true) :
      text.dropWhile (!endsAuthority special ·) ≠ [] := by
    obtain ⟨c, rest, hrest, -⟩ := dropWhile_head (stops_of_ends htext)
    rw [hrest]
    exact List.cons_ne_nil c rest
  obtain ⟨c, hc, hends⟩ := h.mark
  cases kind with
  | server port => exact hstop (h.server port rfl)
  | file =>
    match rest with
    | [] => cases hc
    | [_] => cases hc
    | first :: second :: text =>
      have htext := hstop ⟨c, hc, endsAuthority_special hends⟩
      cases hfirst : isSlash first with
      | false => simp [cutAuthority, hfirst] at hmode
      | true =>
        cases hsecond : isSlash second with
        | false => simp [cutAuthority, hfirst, hsecond] at hmode
        | true =>
          cases hdrive : isDriveLetter (text.takeWhile (!endsAuthority true ·)) with
          | true => simp [cutAuthority, hfirst, hsecond, hdrive] at hmode
          | false => simpa [cutAuthority, hfirst, hsecond, hdrive] using htext
  | other =>
    match rest with
    | [] => cases hc
    | [_] => cases hc
    | first :: second :: text =>
      have htext := hstop ⟨c, hc, hends⟩
      by_cases hfirst : first = '/'
      · subst hfirst
        by_cases hsecond : second = '/'
        · subst hsecond
          exact htext
        · simp [cutAuthority, hsecond] at hmode
      · simp [cutAuthority, hfirst] at hmode

theorem splitScheme_eq {text scheme rest : List Char} (h : splitScheme text = some (scheme, rest)) :
    ∃ lead, text = lead ++ ':' :: rest ∧ ':' ∉ lead := by
  unfold splitScheme at h
  split at h
  · rename_i first name c after htake hdrop
    split at h
    · cases h
      refine ⟨text.takeWhile (· ≠ ':'), ?_, ?_⟩
      · have hc : c = ':' := by
          have hhead := List.head?_dropWhile_not (· ≠ ':') text
          rw [hdrop] at hhead
          simpa using hhead
        calc text = text.takeWhile (· ≠ ':') ++ text.dropWhile (· ≠ ':') :=
              List.takeWhile_append_dropWhile.symm
          _ = text.takeWhile (· ≠ ':') ++ ':' :: rest := by rw [hdrop, hc]
      · intro hmem
        have hne := List.mem_takeWhile_imp hmem
        simp at hne
    · cases h
  · cases h

/-- Where a text after a scheme is still to be read two characters on. -/
theorem mark_after {lead rest before after more : List Char} {mark : Char}
    (h : before ++ ':' :: '/' :: '/' :: (after ++ mark :: more) = lead ++ ':' :: rest)
    (hlead : ':' ∉ lead) : mark ∈ rest.drop 2 := by
  rcases List.append_eq_append_iff.mp h with ⟨extra, rfl, hextra⟩ | ⟨extra, rfl, hextra⟩
  · cases extra with
    | nil =>
      cases hextra
      simp
    | cons c extra =>
      obtain ⟨rfl, -⟩ := List.cons.inj hextra
      exact absurd (by simp) hlead
  · cases extra with
    | nil =>
      cases hextra
      simp
    | cons c extra =>
      obtain ⟨-, hrest⟩ := List.cons.inj hextra
      have hsplit : rest = (extra ++ [':', '/', '/'] ++ after) ++ mark :: more := by
        rw [hrest]
        simp
      rw [hsplit, List.drop_append_of_le_length (by simp; omega)]
      simp

/-- A text in which the separator of a scheme is followed by the end of an authority. -/
def HasPath (text : List Char) : Prop :=
  ∃ lead between mark rest, text = lead ++ ':' :: '/' :: '/' :: (between ++ mark :: rest) ∧
    endsAuthority false mark = true

theorem endsAuthority_nonblank {c : Char} (h : endsAuthority false c = true) : isBlank c = false := by
  simp only [endsAuthority, Bool.false_and, Bool.or_false, Bool.or_eq_true, decide_eq_true_eq] at h
  rcases h with (rfl | rfl) | rfl <;> rfl

theorem HasPath.nonblank (h : HasPath text) : ∃ c ∈ text, isBlank c = false := by
  obtain ⟨lead, between, mark, rest, rfl, hmark⟩ := h
  exact ⟨mark, by simp, endsAuthority_nonblank hmark⟩

theorem HasPath.clean (h : HasPath text) : HasPath (clean text) := by
  obtain ⟨lead, between, mark, rest, rfl, hmark⟩ := h
  have hblank := endsAuthority_nonblank hmark
  refine ⟨untab (lead.dropWhile isBlank), untab between, mark, untab (rest.rdropWhile isBlank), ?_, hmark⟩
  rw [clean_mark (c := ':') rfl]
  rw [show '/' :: '/' :: (between ++ mark :: rest) = ('/' :: '/' :: between) ++ mark :: rest by rfl,
    rdropWhile_stop mark hblank]
  simp [untab, isTabOrNewline_blank hblank, show isTabOrNewline '/' = false by rfl]

/-- A lead after which the authority is over, whatever follows. -/
def Closed (lead : List Char) : Prop :=
  ∀ scheme rest port, splitScheme (clean lead) = some (scheme, rest) → kindOf scheme = .server port →
    ∃ c ∈ rest.dropWhile isSlash, endsAuthority true c = true

/-- The scheme and the authority of a closed lead are the same whatever follows it. -/
theorem lead_append {lead scheme rest : List Char} (hpath : HasPath lead) (hclosed : Closed lead)
    (hscheme : splitScheme (clean lead) = some (scheme, rest)) (more : List Char) :
    splitScheme (clean lead ++ more) = some (scheme, rest ++ more) ∧
      cutAuthority (kindOf scheme) (rest ++ more) =
        ((cutAuthority (kindOf scheme) rest).1, (cutAuthority (kindOf scheme) rest).2.1,
          (cutAuthority (kindOf scheme) rest).2.2 ++ more) ∧
      ((cutAuthority (kindOf scheme) rest).2.1 = .start → (cutAuthority (kindOf scheme) rest).2.2 ≠ []) := by
  obtain ⟨before, between, mark, after, hclean, hmark⟩ := hpath.clean
  obtain ⟨name, hname, hcolon⟩ := splitScheme_eq hscheme
  have hdecides : Decides (kindOf scheme) rest :=
    ⟨⟨mark, mark_after (hclean.symm.trans hname) hcolon, hmark⟩,
      fun port hport => hclosed scheme rest port hscheme hport⟩
  refine ⟨?_, cutAuthority_append hdecides more, cutAuthority_start hdecides⟩
  rw [splitScheme_append (by rw [hclean]; simp), hscheme]
  rfl

/-- What follows a closed lead is read after the authority, which the lead alone decides. -/
theorem cut_append {lead : List Char} (hpath : HasPath lead) (hclosed : Closed lead) :
    ∃ blanks, (∀ c ∈ blanks, isBlank c = true) ∧
      untab (lead.dropWhile isBlank) = clean lead ++ untab blanks ∧ ∀ more,
        cut (lead ++ more) = (splitScheme (clean lead)).map fun (scheme, rest) =>
          let kind := kindOf scheme
          let (authority, mode, text) := cutAuthority kind rest
          ⟨scheme, authority, cutTail kind.isSpecial mode
            (text ++ untab ((blanks ++ more).rdropWhile isBlank))⟩ := by
  obtain ⟨blanks, hblanks, hlead, happend⟩ := clean_append hpath.nonblank
  refine ⟨blanks, hblanks, hlead, ?_⟩
  intro more
  rw [cut, happend]
  cases hscheme : splitScheme (clean lead) with
  | none =>
    obtain ⟨before, between, mark, after, hclean, -⟩ := hpath.clean
    rw [splitScheme_append (by rw [hclean]; simp), hscheme]
    rfl
  | some split =>
    obtain ⟨scheme, rest⟩ := split
    obtain ⟨hsplit, hauthority, -⟩ := lead_append hpath hclosed hscheme
      (untab ((blanks ++ more).rdropWhile isBlank))
    rw [hsplit, Option.map_some, Option.map_some]
    simp only
    rw [hauthority]

end Cutting

end Aviso.Lib.Url
