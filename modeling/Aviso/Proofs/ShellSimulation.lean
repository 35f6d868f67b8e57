import Mathlib.Data.List.Induction
import Aviso.Proofs.ShellReading

namespace Aviso.Template
open ShellTracker
open Posix (Frame Position Ahead Lexer)

variable {t : ShellTracker} {l : Lexer}

/-! ### One character -/

/-- Where the tracker reads a character as the shell does not. -/
inductive Posix.Slip (l : Lexer) (c : Char) : Prop where
  /-- A `#` inside `${ }`, with only ordinary text before it, is taken for a comment. -/
  | hash : l.frame.context = .bare → l.frame.opener = .brace → l.position = .braces true → l.ahead = .none →
      l.escaped = false → c = '#' → Posix.Slip l c
  /-- A `$(` whose first character is escaped is not opened. -/
  | escaped : l.ahead = .dollarParen → l.escaped = true → c ≠ '\n' → Posix.Slip l c
  /-- A comment where the operand of a redirection should stand is taken for the operand. -/
  | operand : l.frame.context = .bare → l.position = .operand → l.escaped = false → c = '#' → Posix.Slip l c
  /-- A `$'`, which has escapes of its own, is taken for a `$` and single quotes. -/
  | dollarQuote : l.frame.context = .bare → l.ahead = .dollar → l.escaped = false → c = '\'' → Posix.Slip l c
  /-- A `((` is taken for two groups. -/
  | doubled : l.frame.context = .bare → l.position = .opened → l.escaped = false → c = '(' → Posix.Slip l c

open Posix (Slip)

theorem flag_ne_none (t : ShellTracker) (construct : String) : (t.flag construct).unsupportedConstruct ≠ none := by
  unfold flag
  cases t.unsupportedConstruct <;> simp

theorem Follows.frame (h : Follows t l) : t.level.frame = l.frame := (List.cons.inj h.frames).1

/-- A backslash comes between both and what they wait for. -/
theorem Follows.withEscape (h : Follows t l) {token : Token} (hpending : t.pending = pendingAs l.escaped token)
    (escaped : Bool) (hcontext : l.frame.context = .bare ∨ l.frame.context = .doubleQuoted) :
    Follows { t with pending := pendingAs escaped token } { l with escaped := escaped } := by
  have hsame : ∀ token', t.pending = pendingAs l.escaped token' → token' = token := by
    intro token' htoken'
    have hboth := htoken'.symm.trans hpending
    unfold pendingAs at hboth
    cases hescaped : l.escaped <;> simpa [hescaped] using hboth
  refine ⟨h.frames, h.nested, ?_⟩
  cases h.reading with
  | single hc =>
    rcases hcontext with hc' | hc' <;> cases hc.symm.trans hc'
  | comment hc =>
    rcases hcontext with hc' | hc' <;> cases hc.symm.trans hc'
  | double hc hposition hless hp =>
    refine .double hc hposition hless ?_
    rw [← hsame _ hp]
  | bare _ hc hp hstanding =>
    have htoken := hsame _ hp
    subst htoken
    exact .bare _ hc rfl hstanding

/-- Both read on after `$` or `$(`. -/
structure Expanding (t : ShellTracker) (l : Lexer) : Prop where
  frames : t.frames = l.frames
  nested : Nested l.frame l.outer
  context : l.frame.context = .bare ∨ l.frame.context = .doubleQuoted
  position : l.position = l.frame.inside
  wordStart : l.frame.context = .bare → t.wordStart = false
  pending : t.pending = .token .none
  escaped : l.escaped = false

theorem Expanding.ready (h : Expanding t l) (hstart : t.wordStart = false) (hahead : l.ahead = .none) : Ready t l := by
  refine ⟨h.frames, h.nested, h.pending, hahead, h.escaped, ?_⟩
  rcases h.context with hc | hc
  · have hposition := h.position
    unfold Frame.inside at hposition
    by_cases ho : l.frame.opener = .brace
    · rw [if_pos ho] at hposition
      exact .braces hc ho hposition hstart
    · rw [if_neg ho] at hposition
      exact .word hc ho hposition hstart (by rintro _ ⟨⟩)
  · exact .double hc h.position

theorem isParameterChar_eq (c : Char) :
    isParameterChar c = (Lexer.startsName c || Lexer.isParameter c) := by
  unfold Lexer.startsName Lexer.isParameter isParameterChar Char.isAlphanum
  rw [Bool.eq_iff_iff]
  simp
  tauto

/-- The characters of a name are none that the shell reads as its own. -/
theorem continuesName_plain {c : Char} (h : Lexer.continuesName c = true) :
    c ∉ ['$', '`', '\'', '"', '<', '>', '(', ')', ' ', '\t', '\n', ';', '&', '|', '#', '\x7d'] := by
  intro hspecial
  have hnames : ['$', '`', '\'', '"', '<', '>', '(', ')', ' ', '\t', '\n', ';', '&', '|', '#', '\x7d'].all
      (fun special => !Lexer.continuesName special) = true := rfl
  have hnot := List.all_eq_true.mp hnames c hspecial
  rw [h] at hnot
  cases hnot

/-- The rest of a parameter's name is text to the tracker. -/
theorem stepChar_continuesName {c : Char} (h : Lexer.continuesName c = true) (ht : Readable t) :
    (t.stepChar c).frames = t.frames ∧ (t.stepChar c).pending = t.pending ∧
      (t.wordStart = false → (t.stepChar c).wordStart = false) := by
  have hplain := continuesName_plain h
  simp only [List.mem_cons, List.not_mem_nil, or_false, not_or] at hplain
  obtain ⟨h₁, h₂, h₃, h₄, h₅, h₆, h₇, h₈, h₉, h₁₀, h₁₁, h₁₂, h₁₃, h₁₄, h₁₅, h₁₆⟩ := hplain
  have hsame : t.frames = t.frames ∧ t.pending = t.pending ∧ (t.wordStart = false → t.wordStart = false) :=
    ⟨rfl, rfl, id⟩
  rcases ht with hc | hc
  · by_cases ho : t.opener = .brace
    · have hstep : t.stepChar c = t := by
        simp [stepChar, hc, ho, h₁, h₂, h₃, h₄, h₅, h₆, h₁₅, h₁₆]
      rw [hstep]
      exact hsame
    · rw [stepChar_plain hc ho (by simp [h₁, h₂, h₃, h₄, h₅, h₆, h₇, h₈, h₉, h₁₀, h₁₁, h₁₂, h₁₃, h₁₄])
        fun hc' => absurd hc' h₁₅]
      exact ⟨rfl, rfl, fun _ => rfl⟩
  · have hstep : t.stepChar c = t := by
      simp [stepChar, hc, h₁, h₂, h₄]
    rw [hstep]
    exact hsame

/-- Inside a word or braces, no operand, comment or group is about to start. -/
theorem inside_ne (frame : Frame) :
    frame.inside ≠ .operand ∧ frame.inside ≠ .braces true ∧ frame.inside ≠ .opened := by
  unfold Frame.inside
  split <;> exact ⟨by rintro ⟨⟩, by rintro ⟨⟩, by rintro ⟨⟩⟩

theorem Expanding.stepToken_dollar (h : Expanding t l) (hahead : l.ahead = .dollar) {c : Char}
    (hslip : c = '\'' → l.frame.context ≠ .bare)
    (hnone : (t.stepToken .dollar c).unsupportedConstruct = none) :
    ∃ l', l.readAhead c = some l' ∧ Follows (t.stepToken .dollar c) l' := by
  unfold stepToken at hnone ⊢
  unfold Lexer.readAhead
  rw [hahead]
  dsimp only at hnone ⊢
  have htc : t.context = l.frame.context := congrArg Frame.context (List.cons.inj h.frames).1
  by_cases hparen : c = '('
  · rw [if_pos hparen, if_pos hparen]
    refine ⟨_, rfl, follows_inside h.frames h.nested h.context h.position h.wordStart (by rintro ⟨⟩) ?_⟩
    change Pending.token .dollarParen = pendingAs l.escaped .dollarParen
    rw [h.escaped]
    rfl
  rw [if_neg hparen] at hnone ⊢
  rw [if_neg hparen]
  by_cases hbrace : c = '\x7b'
  · rw [if_pos hbrace] at hnone ⊢
    rw [if_pos hbrace]
    rcases h.context with hc | hc
    · rw [if_neg (by rw [hc]; decide), if_neg (by rw [htc, hc]; decide)]
      refine ⟨_, rfl, ?_, h.nested.openFrame (.inl hc) _ (by rintro ⟨⟩), ?_⟩
      · rw [frames_openLevel, h.frames]
        rfl
      · refine .bare .none rfl ?_ (.braces true)
        exact h.pending
    · rw [if_pos (htc.trans hc)] at hnone
      exact absurd hnone (flag_ne_none t _)
  rw [if_neg hbrace] at hnone ⊢
  rw [isParameterChar_eq] at hnone ⊢
  rw [if_neg hbrace]
  have hexpanding : Expanding { t with wordStart := false, word := { t.word with isOpaque := true } }
      { l with ahead := .none } :=
    ⟨h.frames, h.nested, h.context, h.position, fun _ => rfl, h.pending, h.escaped⟩
  have hready := hexpanding.ready rfl rfl
  obtain ⟨hoperand, hbraces, hopened⟩ := h.position ▸ inside_ne l.frame
  by_cases hname : Lexer.startsName c = true
  · have heither : (Lexer.startsName c || Lexer.isParameter c) = true := by simp [hname]
    rw [if_pos hname, if_pos heither]
    refine ⟨_, rfl, follows_inside h.frames h.nested h.context h.position (fun _ => rfl) (by rintro ⟨⟩) ?_⟩
    change t.pending = pendingAs l.escaped .none
    rw [h.pending, h.escaped]
    rfl
  rw [if_neg hname]
  by_cases hparameter : Lexer.isParameter c = true
  · have heither : (Lexer.startsName c || Lexer.isParameter c) = true := by simp [hparameter]
    rw [if_pos hparameter, if_pos heither]
    exact ⟨_, rfl, hready.follows fun _ => hoperand⟩
  · have hneither : ¬(Lexer.startsName c || Lexer.isParameter c) = true := by
      rw [Bool.or_eq_true]
      exact not_or.mpr ⟨hname, hparameter⟩
    rw [if_neg hneither] at hnone ⊢
    have hplain : ¬(c = '\'' && l.frame.context = .bare) = true := by
      intro hboth
      obtain ⟨hquote, hbare⟩ := Bool.and_eq_true_iff.mp hboth
      exact hslip (of_decide_eq_true hquote) (of_decide_eq_true hbare)
    rw [if_neg hparameter, if_neg hplain]
    exact hready.stepChar (fun hop => absurd hop hoperand) (fun _ _ => ⟨hoperand, hbraces⟩) (fun _ _ => hopened) hnone

/-- The tracker reads the rest of a parameter's name, and what ends it, as any text. -/
theorem Expanding.stepToken_name (h : Expanding t l) (hahead : l.ahead = .name) {c : Char}
    (hnone : (t.stepChar c).unsupportedConstruct = none) :
    ∃ l', l.readAhead c = some l' ∧ Follows (t.stepChar c) l' := by
  unfold Lexer.readAhead
  rw [hahead]
  dsimp only
  by_cases hname : Lexer.continuesName c = true
  · rw [if_pos hname]
    have htc : t.context = l.frame.context := congrArg Frame.context (List.cons.inj h.frames).1
    have hread : Readable t := by
      unfold Readable
      rw [htc]
      exact h.context
    obtain ⟨hframes, hpending, hstart⟩ := stepChar_continuesName hname hread
    refine ⟨_, rfl, follows_inside (hframes.trans h.frames) h.nested h.context h.position
      (fun hc => hstart (h.wordStart hc)) ?_ ?_⟩
    · rw [hahead]
      decide
    · rw [hpending, h.pending, h.escaped, hahead]
      rfl
  · rw [if_neg hname]
    obtain ⟨hoperand, hbraces, hopened⟩ := h.position ▸ inside_ne l.frame
    have hready : Ready t { l with ahead := .none } := by
      refine ⟨h.frames, h.nested, h.pending, rfl, h.escaped, ?_⟩
      rcases h.context with hc | hc
      · have hexpanding : Expanding t { l with ahead := .none } :=
          ⟨h.frames, h.nested, h.context, h.position, h.wordStart, h.pending, h.escaped⟩
        exact (hexpanding.ready (h.wordStart hc) rfl).place
      · exact .double hc h.position
    exact hready.stepChar (fun hop => absurd hop hoperand) (fun _ _ => ⟨hoperand, hbraces⟩) (fun _ _ => hopened) hnone

theorem Expanding.stepToken_dollarParen (h : Expanding t l) (hahead : l.ahead = .dollarParen) {c : Char}
    (hnone : (t.stepToken .dollarParen c).unsupportedConstruct = none) :
    ∃ l', l.readAhead c = some l' ∧ Follows (t.stepToken .dollarParen c) l' := by
  unfold stepToken at hnone ⊢
  unfold Lexer.readAhead
  rw [hahead]
  dsimp only at hnone ⊢
  by_cases hparen : c = '('
  · rw [if_pos hparen] at hnone
    exact absurd hnone (flag_ne_none t _)
  rw [if_neg hparen] at hnone ⊢
  rw [if_neg hparen]
  have hready : Ready (t.openLevel .substitution) (l.openFrame .substitution) := by
    refine ⟨?_, h.nested.openFrame h.context _ (by rintro ⟨⟩), h.pending, rfl, rfl, .fresh rfl ?_ (.inl rfl) rfl⟩
    · rw [frames_openLevel, h.frames]
      rfl
    · rintro ⟨⟩
  exact hready.stepChar (by rintro ⟨⟩) (fun _ _ => ⟨by rintro ⟨⟩, by rintro ⟨⟩⟩) (fun _ _ => by rintro ⟨⟩) hnone

/-- Both wait for the operand of a redirection, or take `<` and `>` in braces for text. -/
inductive Redirecting (t : ShellTracker) (l : Lexer) : Prop where
  | command : l.frame.opener ≠ .brace → l.position = .operand → Redirecting t l
  | braces : l.frame.opener = .brace → l.position = .braces false → t.wordStart = false → Redirecting t l

theorem Redirecting.stepRedirect (h : Redirecting t l) (hframes : t.frames = l.frames) (hnested : Nested l.frame l.outer)
    (hc : l.frame.context = .bare) (hpending : t.pending = .token .none) (hahead : l.ahead = .none)
    (hescaped : l.escaped = false) {c : Char} (hslip : c = '#' → l.position ≠ .operand)
    (hnone : (t.stepRedirect c).unsupportedConstruct = none) :
    ∃ l', l.read c = some l' ∧ Follows (t.stepRedirect c) l' := by
  unfold ShellTracker.stepRedirect at hnone ⊢
  by_cases hwaits : (c = '>' || c = ' ' || c = '\t') = true
  · rw [if_pos hwaits]
    have hc' : c = '>' ∨ c = ' ' ∨ c = '\t' := by simpa [or_assoc] using hwaits
    cases h with
    | command ho hposition =>
      have hread : l.read c = some { l with position := .operand } := by
        rcases hc' with rfl | rfl | rfl <;> simp [Lexer.read, Lexer.readCommand, hc, ho, hposition]
      exact ⟨_, hread, follows_operand hframes hnested hc ho rfl (.inr ⟨rfl, hahead⟩) rfl hescaped⟩
    | braces ho hposition hstart =>
      have hread : l.read c = some { l with position := .braces false } := by
        rcases hc' with rfl | rfl | rfl <;> simp [Lexer.read, Lexer.wordChar, hc, ho, hposition]
      refine ⟨_, hread, hframes, hnested, .bare .redirect hc ?_ ?_⟩
      · change Pending.token .redirect = pendingAs l.escaped .redirect
        rw [hescaped]
        rfl
      · change Standing t.wordStart t.word.text l.frame.opener (.braces false) l.ahead .redirect
        rw [hstart, ho, hahead]
        exact .bracesRedirect (.inr rfl)
  · rw [if_neg hwaits] at hnone ⊢
    simp only [Bool.or_eq_true, decide_eq_true_eq, not_or] at hwaits
    have hready : Ready { t with word := { Word.empty with redirectOperand := true }, wordStart := false } l := by
      refine ⟨hframes, hnested, hpending, hahead, hescaped, ?_⟩
      cases h with
      | command ho hposition => exact .operand hc ho hposition rfl rfl
      | braces ho hposition => exact .braces hc ho hposition rfl
    refine hready.stepChar (fun _ => ⟨hwaits.1.2, hwaits.2⟩) (fun hc' _ => ⟨hslip hc', ?_⟩) (fun _ _ => ?_) hnone
    · cases h with
      | command _ hposition => rw [hposition]; rintro ⟨⟩
      | braces _ hposition => rw [hposition]; rintro ⟨⟩
    · cases h with
      | command _ hposition => rw [hposition]; rintro ⟨⟩
      | braces _ hposition => rw [hposition]; rintro ⟨⟩

/-- A token that the character finishes is the one the shell finishes. -/
theorem Follows.stepToken (h : Follows t l) (hcontext : l.frame.context = .bare ∨ l.frame.context = .doubleQuoted)
    (hescaped : l.escaped = false) {token : Token} (hpending : t.pending = .token token) {c : Char}
    (hslip : ¬Slip l c) (hnone : ({ t with pending := .token .none }.stepToken token c).unsupportedConstruct = none) :
    ∃ l', l.readAhead c = some l' ∧ Follows ({ t with pending := .token .none }.stepToken token c) l' := by
  have hsame : ∀ token', t.pending = pendingAs l.escaped token' → token' = token := by
    intro token' htoken'
    rw [hescaped, hpending] at htoken'
    exact (Pending.token.inj htoken').symm
  have hoperand : l.frame.context = .bare → c = '#' → l.position ≠ .operand :=
    fun hc hc' hposition => hslip (.operand hc hposition hescaped hc')
  have hdollar (hahead : l.ahead = .dollar) : c = '\'' → l.frame.context ≠ .bare :=
    fun hc' hc => hslip (.dollarQuote hc hahead hescaped hc')
  have hidle : l.ahead = .none → l.readAhead c = l.read c := by
    intro hahead
    unfold Lexer.readAhead
    rw [hahead]
  have hready : ∀ hahead : l.ahead = .none, Place { t with pending := .token .none } l → l.position ≠ .operand →
      token = .none → ∃ l', l.readAhead c = some l' ∧
        Follows ({ t with pending := .token .none }.stepToken token c) l' := by
    intro hahead hplace hposition htoken
    subst htoken
    have hready : Ready { t with pending := .token .none } l := ⟨h.frames, h.nested, rfl, hahead, hescaped, hplace⟩
    rw [hidle hahead]
    refine hready.stepChar (fun hoperand => absurd hoperand hposition) (fun hc' hc => ⟨hposition, fun hbraces => ?_⟩)
      (fun hc' hc hopened => hslip (.doubled hc hopened hescaped hc')) hnone
    cases hplace with
    | double hdouble => cases hc.symm.trans hdouble
    | fresh _ _ hfresh =>
      rw [hbraces] at hfresh
      rcases hfresh with hfresh | hfresh <;> cases hfresh
    | operand _ _ hop => cases hbraces.symm.trans hop
    | word _ _ hword => cases hbraces.symm.trans hword
    | braces _ ho => exact hslip (.hash hc ho hbraces hahead hescaped hc')
  have hexpanding : l.position = l.frame.inside → (l.frame.context = .bare → t.wordStart = false) →
      Expanding { t with pending := .token .none } l :=
    fun hposition hstart => ⟨h.frames, h.nested, hcontext, hposition, hstart, rfl, hescaped⟩
  cases h.reading with
  | single hc => rcases hcontext with hc' | hc' <;> cases hc.symm.trans hc'
  | comment hc => rcases hcontext with hc' | hc' <;> cases hc.symm.trans hc'
  | double hc hposition hless hp =>
    have htoken := hsame _ hp
    have hstart : l.frame.context = .bare → t.wordStart = false := fun hbare => by cases hc.symm.trans hbare
    cases hahead : l.ahead with
    | none =>
      rw [hahead] at htoken
      have hinside : l.position ≠ .operand := hposition ▸ (inside_ne l.frame).1
      exact hready hahead (.double hc hposition) hinside htoken.symm
    | dollar =>
      rw [hahead] at htoken
      subst htoken
      exact (hexpanding hposition hstart).stepToken_dollar hahead (hdollar hahead) hnone
    | dollarParen =>
      rw [hahead] at htoken
      subst htoken
      exact (hexpanding hposition hstart).stepToken_dollarParen hahead hnone
    | name =>
      rw [hahead] at htoken
      subst htoken
      exact (hexpanding hposition hstart).stepToken_name hahead hnone
    | less => exact absurd hahead hless
  | bare token' hc hp hstanding =>
    have htoken := hsame _ hp
    subst htoken
    obtain ⟨wordStart, hstart⟩ : ∃ wordStart, t.wordStart = wordStart := ⟨_, rfl⟩
    obtain ⟨text, htext⟩ : ∃ text, t.word.text = text := ⟨_, rfl⟩
    obtain ⟨opener, hopener⟩ : ∃ opener, l.frame.opener = opener := ⟨_, rfl⟩
    obtain ⟨position, hposition⟩ : ∃ position, l.position = position := ⟨_, rfl⟩
    obtain ⟨ahead, hahead⟩ : ∃ ahead, l.ahead = ahead := ⟨_, rfl⟩
    rw [hstart, htext, hopener, hposition, hahead] at hstanding
    cases hstanding with
    | fresh ho hfresh =>
      refine hready hahead (.fresh hc (hopener ▸ ho) (hposition ▸ hfresh) hstart) ?_ rfl
      rcases hfresh with rfl | rfl <;> rw [hposition] <;> rintro ⟨⟩
    | word ho hknows =>
      exact hready hahead (.word hc (hopener ▸ ho) hposition hstart (htext ▸ hknows)) (by rw [hposition]; rintro ⟨⟩) rfl
    | braces plain =>
      exact hready hahead (.braces hc hopener hposition hstart) (by rw [hposition]; rintro ⟨⟩) rfl
    | redirect ho =>
      rw [hidle hahead]
      have hredirecting : Redirecting { t with pending := .token .none } l := .command (hopener ▸ ho) hposition
      exact hredirecting.stepRedirect h.frames h.nested hc rfl hahead hescaped (hoperand hc) hnone
    | less ho =>
      have hredirecting : Redirecting { t with pending := .token .none } { l with ahead := .none } :=
        .command (hopener ▸ ho) hposition
      unfold ShellTracker.stepToken at hnone ⊢
      unfold Lexer.readAhead
      rw [hahead]
      dsimp only at hnone ⊢
      by_cases hless : c = '<'
      · rw [if_pos hless] at hnone
        exact absurd hnone (flag_ne_none _ _)
      · rw [if_neg hless] at hnone ⊢
        rw [if_neg hless]
        exact hredirecting.stepRedirect h.frames h.nested hc rfl rfl hescaped (hoperand hc) hnone
    | bracesRedirect htoken =>
      rw [hidle hahead]
      have hredirecting : Redirecting { t with pending := .token .none } l := .braces hopener hposition hstart
      rcases htoken with rfl | rfl
      · unfold ShellTracker.stepToken at hnone ⊢
        dsimp only at hnone ⊢
        by_cases hless : c = '<'
        · rw [if_pos hless] at hnone
          exact absurd hnone (flag_ne_none _ _)
        · rw [if_neg hless] at hnone ⊢
          exact hredirecting.stepRedirect h.frames h.nested hc rfl hahead hescaped (hoperand hc) hnone
      · exact hredirecting.stepRedirect h.frames h.nested hc rfl hahead hescaped (hoperand hc) hnone
    | @expansion _ frame ahead hbegun hless =>
      have hinside : l.position = l.frame.inside := by
        rw [hposition]
        unfold Frame.inside
        rw [hopener]
      cases ahead with
      | none => exact absurd rfl hbegun
      | dollar => exact (hexpanding hinside fun _ => hstart).stepToken_dollar hahead (hdollar hahead) hnone
      | dollarParen => exact (hexpanding hinside fun _ => hstart).stepToken_dollarParen hahead hnone
      | name => exact (hexpanding hinside fun _ => hstart).stepToken_name hahead hnone
      | less => exact absurd rfl hless

/-- An escaped character is text in both, unless it starts a `$( )`. -/
theorem Follows.literal (h : Follows t l) (hcontext : l.frame.context = .bare ∨ l.frame.context = .doubleQuoted)
    (hahead : l.ahead ≠ .dollarParen) :
    Follows { t with pending := .token .none, wordStart := false, word := { t.word with isOpaque := true } } l.literal := by
  unfold Lexer.literal
  rw [if_neg hahead]
  exact follows_inside h.frames h.nested hcontext rfl (fun _ => rfl) (by rintro ⟨⟩) rfl

/-- What each waits for is the same token, escaped or not. -/
theorem Follows.pending (h : Follows t l) (hcontext : l.frame.context = .bare ∨ l.frame.context = .doubleQuoted) :
    ∃ token, t.pending = pendingAs l.escaped token := by
  cases h.reading with
  | single hc => rcases hcontext with hc' | hc' <;> cases hc.symm.trans hc'
  | comment hc => rcases hcontext with hc' | hc' <;> cases hc.symm.trans hc'
  | double _ _ _ hp => exact ⟨_, hp⟩
  | bare _ _ hp => exact ⟨_, hp⟩

/-- One character leads the tracker and the shell to the same place, unless the tracker slips. -/
theorem Follows.step (h : Follows t l) {c : Char} (hslip : ¬Slip l c) (hnone : (t.step c).unsupportedConstruct = none) :
    ∃ l', l.step c = some l' ∧ Follows (t.step c) l' := by
  have htc := h.context
  cases hc : l.frame.context with
  | singleQuoted =>
    rw [step_singleQuoted (htc.trans hc)]
    unfold Lexer.step
    rw [hc]
    refine ⟨_, rfl, ?_⟩
    by_cases hquote : c = '\''
    · rw [if_pos hquote, if_pos hquote]
      cases h.reading with
      | single _ hpending hahead hescaped =>
        refine follows_inside ?_ (h.nested.setContext _) (.inl rfl) rfl (fun _ => rfl) ?_ ?_
        · exact frames_setContext h.frames .bare
        · change l.ahead ≠ .less
          rw [hahead]
          decide
        · change t.pending = pendingAs l.escaped l.ahead.token
          rw [hpending, hescaped, hahead]
          rfl
      | comment hc' | double hc' | bare _ hc' => cases hc.symm.trans hc'
    · rw [if_neg hquote, if_neg hquote]
      exact h
  | comment =>
    rw [step_comment (htc.trans hc)]
    unfold Lexer.step
    rw [hc]
    refine ⟨_, rfl, ?_⟩
    by_cases hline : c = '\n'
    · rw [if_pos hline, if_pos hline]
      cases h.reading with
      | comment _ ho hpending hahead hescaped =>
        refine follows_fresh ?_ (h.nested.setContext .bare) rfl ho (.inl rfl) rfl hpending hahead hescaped
        exact frames_setContext h.frames .bare
      | single hc' | double hc' | bare _ hc' => cases hc.symm.trans hc'
    · rw [if_neg hline, if_neg hline]
      exact h
  | bare | doubleQuoted =>
    have hcontext : l.frame.context = .bare ∨ l.frame.context = .doubleQuoted := by simp [hc]
    have hread : Readable t := by
      unfold Readable
      rw [htc]
      exact hcontext
    obtain ⟨token, hpending⟩ := h.pending hcontext
    rw [step_readable hread] at hnone ⊢
    unfold Lexer.step
    rw [hc]
    dsimp only
    cases hescaped : l.escaped with
    | true =>
      have hp : t.pending = .escape token := by
        rw [hpending, hescaped]
        rfl
      rw [hp]
      dsimp only
      rw [if_pos rfl]
      refine ⟨_, rfl, ?_⟩
      by_cases hline : c = '\n'
      · rw [if_pos hline, if_pos hline]
        exact h.withEscape hpending false hcontext
      · rw [if_neg hline, if_neg hline]
        exact h.literal hcontext fun hahead => hslip (.escaped hahead hescaped hline)
    | false =>
      have hp : t.pending = .token token := by
        rw [hpending, hescaped]
        rfl
      rw [hp] at hnone ⊢
      dsimp only at hnone ⊢
      rw [if_neg (by decide)]
      by_cases hback : c = '\\'
      · rw [if_pos hback, if_pos hback]
        exact ⟨_, rfl, h.withEscape hpending true hcontext⟩
      · rw [if_neg hback] at hnone ⊢
        rw [if_neg hback]
        exact h.stepToken hcontext hescaped hp hslip hnone

/-! ### Where the tracker slips -/

/-- The same levels are open, and the innermost text is quoted alike. -/
def Agrees (t : ShellTracker) (l : Lexer) : Prop :=
  (t.level :: t.outer).map Level.opener = l.frames.map Frame.opener ∧ t.context = l.frame.context

theorem Follows.agrees (h : Follows t l) : Agrees t l := by
  refine ⟨?_, h.context⟩
  rw [← h.frames]
  unfold ShellTracker.frames
  rw [List.map_map]
  rfl

theorem Standing.plain {wordStart : Bool} {text : Text} {opener : Opener} {position : Position} {ahead : Ahead}
    {token : Token} (h : Standing wordStart text opener position ahead token) (hposition : position = .braces true)
    (hahead : ahead = .none) : wordStart = true ∧ token = .none := by
  cases h with
  | braces plain =>
    cases hposition
    exact ⟨rfl, rfl⟩
  | fresh _ hfresh =>
    rw [hposition] at hfresh
    rcases hfresh with hfresh | hfresh <;> cases hfresh
  | less | redirect | word | bracesRedirect => cases hposition
  | expansion hbegun => exact absurd hahead hbegun

theorem Standing.operand {wordStart : Bool} {text : Text} {opener : Opener} {position : Position} {ahead : Ahead}
    {token : Token} (h : Standing wordStart text opener position ahead token) (hposition : position = .operand) :
    opener ≠ .brace ∧ (token = .less ∧ ahead = .less ∨ token = .redirect ∧ ahead = .none) := by
  cases h with
  | less ho => exact ⟨ho, .inl ⟨rfl, rfl⟩⟩
  | redirect ho => exact ⟨ho, .inr ⟨rfl, rfl⟩⟩
  | fresh _ hfresh =>
    rw [hposition] at hfresh
    rcases hfresh with hfresh | hfresh <;> cases hfresh
  | word | braces | bracesRedirect => cases hposition
  | @expansion _ frame => exact absurd hposition (inside_ne frame).1

/-- Right after the `(` of a group nothing is waited for. -/
theorem Standing.opened {wordStart : Bool} {text : Text} {opener : Opener} {position : Position} {ahead : Ahead}
    {token : Token} (h : Standing wordStart text opener position ahead token) (hposition : position = .opened) :
    opener ≠ .brace ∧ ahead = .none := by
  cases h with
  | fresh ho => exact ⟨ho, rfl⟩
  | less | redirect | word | braces | bracesRedirect => cases hposition
  | @expansion _ frame => exact absurd hposition (inside_ne frame).2.2

theorem Follows.slip_hash (h : Follows t l) (hc : l.frame.context = .bare) (ho : l.frame.opener = .brace)
    (hposition : l.position = .braces true) (hahead : l.ahead = .none) (hescaped : l.escaped = false) {l' : Lexer}
    (hl : l.step '#' = some l') : ¬Agrees (t.step '#') l' := by
  obtain ⟨token, hpending, hstanding⟩ := h.standing hc
  obtain ⟨hstart, rfl⟩ := hstanding.plain hposition hahead
  have htc : t.context = .bare := h.context.trans hc
  have hp : t.pending = .token .none := by
    rw [hpending, hescaped]
    rfl
  have hcomment : t.step '#' = { t with pending := .token .none }.setContext .comment := by
    rw [step_readable (.inl htc), hp]
    have hbare : ShellTracker.context { t with pending := .token .none } ≠ .doubleQuoted := by
      change t.context ≠ .doubleQuoted
      rw [htc]
      decide
    change { t with pending := .token .none }.stepChar '#' = _
    unfold stepChar
    rw [if_neg (by decide), if_neg (by decide), if_neg hbare, if_pos (by simpa using hstart)]
  have hbrace : l.step '#' = some (l.wordChar '#') := by
    simp [Lexer.step, Lexer.readAhead, Lexer.read, hc, ho, hahead, hescaped]
  rw [hbrace] at hl
  cases hl
  rw [hcomment]
  rintro ⟨_, hcontext⟩
  cases hcontext.trans hc

theorem Follows.slip_escaped (h : Follows t l) (hahead : l.ahead = .dollarParen) (hescaped : l.escaped = true) {c : Char}
    (hline : c ≠ '\n') {l' : Lexer} (hl : l.step c = some l') : ¬Agrees (t.step c) l' := by
  have hcontext : l.frame.context = .bare ∨ l.frame.context = .doubleQuoted := by
    cases h.reading with
    | single _ _ hidle => cases hahead.symm.trans hidle
    | comment _ _ _ hidle => cases hahead.symm.trans hidle
    | double hc => exact .inr hc
    | bare _ hc => exact .inl hc
  obtain ⟨token, hpending⟩ := h.pending hcontext
  have hread : Readable t := by
    unfold Readable
    rw [h.context]
    exact hcontext
  have htracker : (t.step c).level = t.level ∧ (t.step c).outer = t.outer := by
    rw [step_readable hread, hpending, hescaped]
    change (ite (c = '\n') _ _ : ShellTracker).level = _ ∧ (ite (c = '\n') _ _ : ShellTracker).outer = _
    rw [if_neg hline]
    exact ⟨rfl, rfl⟩
  have hlexer : l.step c = some l.literal := by
    unfold Lexer.step
    rcases hcontext with hc | hc
    all_goals
      rw [hc]
      dsimp only
      rw [if_pos hescaped, if_neg hline]
  rw [hlexer] at hl
  cases hl
  rintro ⟨hopeners, _⟩
  have hlength := congrArg List.length hopeners
  have hframes := congrArg List.length h.frames
  unfold Lexer.literal at hlength
  rw [if_pos hahead] at hlength
  rw [htracker.2] at hlength
  simp [ShellTracker.frames, Posix.Lexer.frames, Lexer.openFrame] at hlength hframes
  omega

theorem Follows.slip_operand (h : Follows t l) (hc : l.frame.context = .bare) (hposition : l.position = .operand)
    (hescaped : l.escaped = false) {l' : Lexer} (hl : l.step '#' = some l') : ¬Agrees (t.step '#') l' := by
  obtain ⟨token, hpending, hstanding⟩ := h.standing hc
  obtain ⟨ho, htoken⟩ := hstanding.operand hposition
  have htc : t.context = .bare := h.context.trans hc
  have hto : t.opener ≠ .brace := by
    rw [show t.opener = l.frame.opener from congrArg Frame.opener h.frame]
    exact ho
  have hp : t.pending = .token token := by
    rw [hpending, hescaped]
    rfl
  have hword : (t.step '#').context = .bare := by
    have hredirect : t.step '#' = { t with pending := .token .none }.stepRedirect '#' := by
      rw [step_readable (.inl htc), hp]
      rcases htoken with ⟨rfl, _⟩ | ⟨rfl, _⟩ <;> rfl
    rw [hredirect]
    have hplain :=
      stepChar_plain (t := { t with
        pending := .token .none
        word := { Word.empty with redirectOperand := true }
        wordStart := false }) htc hto (c := '#') (by decide) fun _ => rfl
    unfold stepRedirect
    rw [if_neg (by decide)]
    exact (congrArg ShellTracker.context hplain).trans htc
  have hcomment : ∃ l₀ : Lexer, l.step '#' = some l₀.comment := by
    rcases htoken with ⟨_, hahead⟩ | ⟨_, hahead⟩
    · exact ⟨{ l with ahead := .none }, by
        simp [Lexer.step, Lexer.readAhead, Lexer.read, Lexer.readCommand, hc, ho, hahead, hescaped, hposition,
          Position.startsToken]⟩
    · exact ⟨l, by
        simp [Lexer.step, Lexer.readAhead, Lexer.read, Lexer.readCommand, hc, ho, hahead, hescaped, hposition,
          Position.startsToken]⟩
  obtain ⟨l₀, hcomment⟩ := hcomment
  rw [hcomment] at hl
  cases hl
  rintro ⟨_, hcontext⟩
  cases hword.symm.trans hcontext

/-- The lexer leaves its fragment at a `$'` and at a `((`. -/
theorem step_dollarQuote (hc : l.frame.context = .bare) (hahead : l.ahead = .dollar) (hescaped : l.escaped = false) :
    l.step '\'' = none := by
  have hname : Lexer.startsName '\'' = false := by decide
  have hparameter : Lexer.isParameter '\'' = false := by decide
  simp [Lexer.step, Lexer.readAhead, hc, hahead, hescaped, hname, hparameter]

theorem Follows.step_doubled (h : Follows t l) (hc : l.frame.context = .bare) (hposition : l.position = .opened)
    (hescaped : l.escaped = false) : l.step '(' = none := by
  obtain ⟨token, _, hstanding⟩ := h.standing hc
  obtain ⟨ho, hahead⟩ := hstanding.opened hposition
  simp [Lexer.step, Lexer.readAhead, Lexer.read, Lexer.readCommand, hc, ho, hahead, hescaped, hposition]

/-- A slip is seen at once: the tracker and the shell are in different places after it. -/
theorem Follows.slip (h : Follows t l) {c : Char} (hslip : Slip l c) {l' : Lexer} (hl : l.step c = some l') :
    ¬Agrees (t.step c) l' := by
  cases hslip with
  | hash hc ho hposition hahead hescaped hc' =>
    subst hc'
    exact h.slip_hash hc ho hposition hahead hescaped hl
  | escaped hahead hescaped hline => exact h.slip_escaped hahead hescaped hline hl
  | operand hc hposition hescaped hc' =>
    subst hc'
    exact h.slip_operand hc hposition hescaped hl
  | dollarQuote hc hahead hescaped hc' =>
    subst hc'
    rw [step_dollarQuote hc hahead hescaped] at hl
    cases hl
  | doubled hc hposition hescaped hc' =>
    subst hc'
    rw [h.step_doubled hc hposition hescaped] at hl
    cases hl

/-! ### A text -/

/-- What the tracker has flagged stays flagged. -/
theorem unflagged_stepChar {c : Char} (h : (t.stepChar c).unsupportedConstruct = none) :
    t.unsupportedConstruct = none := by
  revert h
  have hflag : ∀ (t : ShellTracker) construct, (t.flag construct).unsupportedConstruct = none → t.unsupportedConstruct = none :=
    fun t construct h => absurd h (flag_ne_none t construct)
  have hclosed : ∀ t : ShellTracker, t.closeLevel.2.unsupportedConstruct = t.unsupportedConstruct := by
    intro t
    unfold closeLevel
    split <;> rfl
  have hended : ∀ b, (t.endWord b).unsupportedConstruct = none → t.unsupportedConstruct = none :=
    fun b h => ((wordEnded t b).flagged h).1
  let Kept (t' : ShellTracker) : Prop := t'.unsupportedConstruct = none → t.unsupportedConstruct = none
  change Kept (t.stepChar c)
  unfold stepChar
  refine iteInduction (motive := Kept) (fun _ h => h) fun _ => ?_
  refine iteInduction (motive := Kept) (fun _ => hflag t _) fun _ => ?_
  refine iteInduction (motive := Kept) (fun _ => ?_) fun _ => ?_
  · exact iteInduction (motive := Kept) (fun _ h => h) fun _ h => h
  refine iteInduction (motive := Kept) (fun _ h => h) fun _ => ?_
  refine iteInduction (motive := Kept) (fun _ h => h) fun _ => ?_
  refine iteInduction (motive := Kept) (fun _ h => h) fun _ => ?_
  refine iteInduction (motive := Kept) (fun _ h => h) fun _ => ?_
  refine iteInduction (motive := Kept) (fun _ h => h) fun _ => ?_
  refine iteInduction (motive := Kept) (fun _ => ?_) fun _ => ?_
  · exact iteInduction (motive := Kept) (fun _ h => (hclosed t).symm.trans h) fun _ h => h
  refine iteInduction (motive := Kept) (fun _ => hended true) fun _ => ?_
  refine iteInduction (motive := Kept) (fun _ h => hended true ((hclosed _).symm.trans h)) fun _ => ?_
  refine iteInduction (motive := Kept) (fun _ => hended false) fun _ => ?_
  exact iteInduction (motive := Kept) (fun _ => hended true) fun _ h => h

theorem unflagged_stepRedirect {c : Char} (h : (t.stepRedirect c).unsupportedConstruct = none) :
    t.unsupportedConstruct = none := by
  unfold stepRedirect at h
  split at h
  · exact h
  · have hkept := unflagged_stepChar h
    exact hkept

theorem unflagged_stepToken {token : Token} {c : Char} (h : (t.stepToken token c).unsupportedConstruct = none) :
    t.unsupportedConstruct = none := by
  cases token with
  | dollar =>
    unfold stepToken at h
    dsimp only at h
    split at h
    · exact h
    · split at h
      · split at h
        · exact absurd h (flag_ne_none t _)
        · exact h
      · split at h
        · exact h
        · have hkept := unflagged_stepChar h
          exact hkept
  | dollarParen =>
    unfold stepToken at h
    dsimp only at h
    split at h
    · exact absurd h (flag_ne_none t _)
    · have hkept := unflagged_stepChar h
      exact hkept
  | less =>
    unfold stepToken at h
    dsimp only at h
    split at h
    · exact absurd h (flag_ne_none t _)
    · exact unflagged_stepRedirect h
  | redirect => exact unflagged_stepRedirect h
  | none => exact unflagged_stepChar h

theorem unflagged_step {c : Char} (h : (t.step c).unsupportedConstruct = none) : t.unsupportedConstruct = none := by
  cases hc : t.context with
  | singleQuoted =>
    rw [step_singleQuoted hc] at h
    split at h <;> exact h
  | comment =>
    rw [step_comment hc] at h
    split at h <;> exact h
  | bare | doubleQuoted =>
    have hread : Readable t := by simp [Readable, hc]
    rw [step_readable hread] at h
    split at h
    · split at h <;> exact h
    · split at h
      · exact h
      · exact unflagged_stepToken (t := { t with pending := .token .none }) h

/-- The tracker has flagged nothing up to the end of the text. -/
def Followed (text : Text) : Prop := (ShellTracker.new.advance text).unsupportedConstruct = none

theorem advance_concat (text : Text) (c : Char) :
    ShellTracker.new.advance (text ++ [c]) = (ShellTracker.new.advance text).step c := by
  rw [advance_append]
  rfl

theorem lex_concat (text : Text) (c : Char) :
    Lexer.lex (text ++ [c]) = (Lexer.lex text).bind fun l => l.step c := by
  unfold Lexer.lex
  rw [List.foldlM_append]
  cases List.foldlM Lexer.step Lexer.new text with
  | none => rfl
  | some l => simp

theorem Followed.of_concat {text : Text} {c : Char} (h : Followed (text ++ [c])) : Followed text := by
  unfold Followed at h
  rw [advance_concat] at h
  exact unflagged_step h

/-- Somewhere in the text the tracker slips. -/
def Slips (text : Text) : Prop :=
  ∃ before c rest, text = before ++ c :: rest ∧ ∃ l, Lexer.lex before = some l ∧ Slip l c

theorem slips_concat {text : Text} {c : Char} :
    Slips (text ++ [c]) ↔ Slips text ∨ ∃ l, Lexer.lex text = some l ∧ Slip l c := by
  constructor
  · rintro ⟨before, c', rest, htext, hslip⟩
    rcases List.eq_nil_or_concat rest with rfl | ⟨rest', last, rfl⟩
    · obtain ⟨rfl, hlast⟩ := List.append_inj' htext rfl
      cases hlast
      exact .inr hslip
    · have hsplit : text ++ [c] = (before ++ c' :: rest') ++ [last] := by
        rw [htext]
        simp
      obtain ⟨rfl, _⟩ := List.append_inj' hsplit rfl
      exact .inl ⟨before, c', rest', rfl, hslip⟩
  · rintro (⟨before, c', rest, rfl, hslip⟩ | hslip)
    · exact ⟨before, c', rest ++ [c], by simp, hslip⟩
    · exact ⟨text, c, [], rfl, hslip⟩

/-- The tracker and the shell read a text alike while the tracker does not slip. -/
theorem follows_text {text : Text} (hfollowed : Followed text) (hslips : ¬Slips text) :
    ∃ l, Lexer.lex text = some l ∧ Follows (ShellTracker.new.advance text) l := by
  induction text using List.reverseRecOn with
  | nil => exact ⟨.new, rfl, follows_new⟩
  | append_singleton text c ih =>
    obtain ⟨l, hl, hfollows⟩ := ih hfollowed.of_concat fun hslip => hslips (slips_concat.mpr (.inl hslip))
    unfold Followed at hfollowed
    rw [advance_concat] at hfollowed ⊢
    obtain ⟨l', hl', hfollows'⟩ := hfollows.step (fun hslip => hslips (slips_concat.mpr (.inr ⟨l, hl, hslip⟩))) hfollowed
    refine ⟨l', ?_, hfollows'⟩
    rw [lex_concat, hl]
    exact hl'

/-- At every point up to which nothing is flagged, the tracker is where the shell is. -/
def Simulates (text : Text) : Prop :=
  ∀ p, p <+: text → Followed p → ∃ l, Lexer.lex p = some l ∧ Agrees (ShellTracker.new.advance p) l

/-- Where the tracker agrees with the shell all along, it has not slipped. -/
theorem Simulates.not_slips {text : Text} (h : Simulates text) (hfollowed : Followed text) : ¬Slips text := by
  induction text using List.reverseRecOn with
  | nil =>
    rintro ⟨before, c, rest, htext, _⟩
    simp at htext
  | append_singleton text c ih =>
    have hslips := ih (fun p hp => h p (hp.trans (List.prefix_append text [c]))) hfollowed.of_concat
    rw [slips_concat]
    rintro (hslip | ⟨l, hl, hslip⟩)
    · exact hslips hslip
    · obtain ⟨l₀, hl₀, hfollows⟩ := follows_text hfollowed.of_concat hslips
      cases hl.symm.trans hl₀
      obtain ⟨l', hl', hagrees⟩ := h _ List.prefix_rfl hfollowed
      rw [lex_concat, hl] at hl'
      rw [advance_concat] at hagrees
      exact hfollows.slip hslip hl' hagrees

/-- The tracker simulates the shell on exactly the texts in which it does not slip before it flags
a construct. -/
theorem tracker_simulates (text : Text) :
    Simulates text ↔ ∀ p, p <+: text → Followed p → ¬Slips p := by
  constructor
  · intro h p hp hfollowed
    have hprefix : Simulates p := fun q hq => h q (hq.trans hp)
    exact hprefix.not_slips hfollowed
  · intro h p hp hfollowed
    obtain ⟨l, hl, hfollows⟩ := follows_text hfollowed (h p hp hfollowed)
    exact ⟨l, hl, hfollows.agrees⟩

/-- The length of a parameter is read as a comment. -/
theorem tracker_simulates_length : ¬Simulates "$\x7b#x\x7d".toList := by
  intro h
  have hfollowed : Followed "$\x7b#".toList := by
    unfold Followed
    decide
  obtain ⟨l, hl, _, hcontext⟩ := h "$\x7b#".toList (by decide) hfollowed
  have hlexer : (Lexer.lex "$\x7b#".toList).map (fun l => l.frame.context) = some .bare := by decide
  rw [hl] at hlexer
  have htracker : (ShellTracker.new.advance "$\x7b#".toList).context = .comment := by decide
  cases htracker.symm.trans (hcontext.trans (Option.some.inj hlexer))

end Aviso.Template
