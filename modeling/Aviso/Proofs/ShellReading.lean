import Aviso.Template.PosixLexer

namespace Aviso.Template
open ShellTracker
open Posix (Frame Position Ahead Lexer)

variable {t : ShellTracker} {l : Lexer}

/-! ### The tracker's state in the shell's terms -/

def Level.frame (level : Level) : Frame := ⟨level.opener, level.context⟩

def ShellTracker.frames (t : ShellTracker) : List Frame := (t.level :: t.outer).map Level.frame

def Posix.Lexer.frames (l : Lexer) : List Frame := l.frame :: l.outer

def Posix.Ahead.token : Ahead → Token
  | .none => .none
  | .dollar => .dollar
  | .dollarParen => .dollarParen
  | .name => .none
  | .less => .less

/-- Around a `( )` is a command, around an expansion anything but single quotes and comments,
and around the outermost command nothing. -/
def Nested : Frame → List Frame → Prop
  | frame, [] => frame.opener = .none
  | frame, around :: outer =>
    (around.context = .bare ∨ around.context = .doubleQuoted) ∧
      (frame.opener = .group → around.context = .bare ∧ around.opener ≠ .brace) ∧ Nested around outer

/-- The word as the tracker records it. -/
def recorded (text : Text) : Text := (text.foldl Word.push Word.empty).text

/-- The tracker's text is the word read so far, if all of it is bare. -/
def Knows (text : Text) (known : Option Text) : Prop := ∀ bare, known = some bare → text = recorded bare

/-- Where a tracker with this word-start flag and text stands in unquoted text, with the token
it waits to finish. -/
inductive Standing : Bool → Text → Opener → Position → Ahead → Token → Prop where
  | fresh {text : Text} {opener : Opener} {position : Position} : opener ≠ .brace →
      position = .fresh ∨ position = .opened → Standing true text opener position .none .none
  | less {wordStart : Bool} {text : Text} {opener : Opener} : opener ≠ .brace →
      Standing wordStart text opener .operand .less .less
  | redirect {wordStart : Bool} {text : Text} {opener : Opener} : opener ≠ .brace →
      Standing wordStart text opener .operand .none .redirect
  | word {text : Text} {opener : Opener} {known : Option Text} : opener ≠ .brace → Knows text known →
      Standing false text opener (.word known) .none .none
  | braces {text : Text} (plain : Bool) : Standing plain text .brace (.braces plain) .none .none
  | bracesRedirect {text : Text} {token : Token} : token = .less ∨ token = .redirect →
      Standing false text .brace (.braces false) .none token
  | expansion {text : Text} {frame : Frame} {ahead : Ahead} : ahead ≠ .none → ahead ≠ .less →
      Standing false text frame.opener frame.inside ahead ahead.token

/-- What is pending while a backslash may have been read. -/
def pendingAs (escaped : Bool) (token : Token) : Pending := if escaped then .escape token else .token token

/-- How the tracker and the lexer read on, by the quoting they are in. -/
inductive Reading (t : ShellTracker) (l : Lexer) : Prop where
  | single : l.frame.context = .singleQuoted → t.pending = .token .none → l.ahead = .none →
      l.escaped = false → Reading t l
  | comment : l.frame.context = .comment → l.frame.opener ≠ .brace → t.pending = .token .none →
      l.ahead = .none → l.escaped = false → Reading t l
  | double : l.frame.context = .doubleQuoted → l.position = l.frame.inside → l.ahead ≠ .less →
      t.pending = pendingAs l.escaped l.ahead.token → Reading t l
  | bare (token : Token) : l.frame.context = .bare → t.pending = pendingAs l.escaped token →
      Standing t.wordStart t.word.text l.frame.opener l.position l.ahead token → Reading t l

/-- The tracker is where the shell is. -/
structure Follows (t : ShellTracker) (l : Lexer) : Prop where
  frames : t.frames = l.frames
  nested : Nested l.frame l.outer
  reading : Reading t l

theorem follows_new : Follows .new .new where
  frames := rfl
  nested := rfl
  reading := .bare .none rfl rfl (.fresh (by decide) (.inl rfl))

theorem Follows.context (h : Follows t l) : t.context = l.frame.context := by
  have hframe := (List.cons.inj h.frames).1
  exact congrArg Frame.context hframe

theorem Follows.single (h : Follows t l) (hc : l.frame.context = .singleQuoted) :
    t.pending = .token .none ∧ l.ahead = .none ∧ l.escaped = false := by
  cases h.reading with
  | single _ hp hahead hescaped => exact ⟨hp, hahead, hescaped⟩
  | comment hc' | double hc' | bare _ hc' => cases hc.symm.trans hc'

theorem Follows.comment (h : Follows t l) (hc : l.frame.context = .comment) :
    l.frame.opener ≠ .brace ∧ t.pending = .token .none ∧ l.ahead = .none ∧ l.escaped = false := by
  cases h.reading with
  | comment _ hbrace hp hahead hescaped => exact ⟨hbrace, hp, hahead, hescaped⟩
  | single hc' | double hc' | bare _ hc' => cases hc.symm.trans hc'

theorem Follows.double (h : Follows t l) (hc : l.frame.context = .doubleQuoted) :
    l.position = l.frame.inside ∧ l.ahead ≠ .less ∧ t.pending = pendingAs l.escaped l.ahead.token := by
  cases h.reading with
  | double _ hposition hless hp => exact ⟨hposition, hless, hp⟩
  | single hc' | comment hc' | bare _ hc' => cases hc.symm.trans hc'

theorem Follows.standing (h : Follows t l) (hc : l.frame.context = .bare) :
    ∃ token, t.pending = pendingAs l.escaped token ∧
      Standing t.wordStart t.word.text l.frame.opener l.position l.ahead token := by
  cases h.reading with
  | bare _ _ hp hstanding => exact ⟨_, hp, hstanding⟩
  | single hc' | comment hc' | double hc' => cases hc.symm.trans hc'

/-! ### One ordinary character -/

/-- Where both read an ordinary character: nothing is pending, and a redirection has its operand. -/
inductive Place (t : ShellTracker) (l : Lexer) : Prop where
  | double : l.frame.context = .doubleQuoted → l.position = l.frame.inside → Place t l
  | fresh : l.frame.context = .bare → l.frame.opener ≠ .brace → l.position = .fresh ∨ l.position = .opened →
      t.wordStart = true → Place t l
  | operand : l.frame.context = .bare → l.frame.opener ≠ .brace → l.position = .operand →
      t.wordStart = false → t.word.text = [] → Place t l
  | word {known : Option Text} : l.frame.context = .bare → l.frame.opener ≠ .brace → l.position = .word known →
      t.wordStart = false → Knows t.word.text known → Place t l
  | braces {plain : Bool} : l.frame.context = .bare → l.frame.opener = .brace → l.position = .braces plain →
      t.wordStart = plain → Place t l

theorem Place.context (h : Place t l) : l.frame.context = .bare ∨ l.frame.context = .doubleQuoted := by
  cases h with
  | double hc => exact .inr hc
  | fresh hc | operand hc | word hc | braces hc => exact .inl hc

structure Ready (t : ShellTracker) (l : Lexer) : Prop where
  frames : t.frames = l.frames
  nested : Nested l.frame l.outer
  pending : t.pending = .token .none
  ahead : l.ahead = .none
  escaped : l.escaped = false
  place : Place t l

theorem Ready.level (h : Ready t l) : t.level.frame = l.frame := (List.cons.inj h.frames).1

theorem Ready.context (h : Ready t l) : t.context = l.frame.context := congrArg Frame.context h.level

theorem Ready.opener (h : Ready t l) : t.opener = l.frame.opener := congrArg Frame.opener h.level

theorem Ready.outer (h : Ready t l) : t.outer.map Level.frame = l.outer := (List.cons.inj h.frames).2

/-- Where the operand of a redirection is not about to start, both wait for what comes. -/
theorem Ready.follows (h : Ready t l) (hoperand : l.frame.context = .bare → l.position ≠ .operand) :
    Follows t l := by
  refine ⟨h.frames, h.nested, ?_⟩
  have hpending : t.pending = pendingAs l.escaped l.ahead.token := by rw [h.pending, h.escaped, h.ahead]; rfl
  have hless : l.ahead ≠ .less := by rw [h.ahead]; decide
  cases h.place with
  | double hc hposition => exact .double hc hposition hless hpending
  | fresh hc hopener hposition hstart =>
    refine .bare _ hc hpending ?_
    rw [h.ahead, hstart]
    exact .fresh hopener hposition
  | operand hc _ hposition => exact absurd hposition (hoperand hc)
  | word hc hopener hposition hstart hknows =>
    refine .bare _ hc hpending ?_
    rw [hposition, h.ahead, hstart]
    exact .word hopener hknows
  | @braces plain hc hopener hposition hstart =>
    refine .bare _ hc hpending ?_
    rw [hposition, hopener, h.ahead, hstart]
    exact .braces plain

theorem standing_inside (text : Text) (frame : Frame) :
    Standing false text frame.opener frame.inside .none .none := by
  unfold Frame.inside
  by_cases hopener : frame.opener = .brace
  · rw [if_pos hopener, hopener]
    exact .braces false
  · rw [if_neg hopener]
    exact .word hopener (by rintro _ ⟨⟩)

/-- After a quote, an escape or the name of a parameter both are inside a word or braces. -/
theorem follows_inside (hframes : t.frames = l.frames) (hnested : Nested l.frame l.outer)
    (hcontext : l.frame.context = .bare ∨ l.frame.context = .doubleQuoted) (hposition : l.position = l.frame.inside)
    (hstart : l.frame.context = .bare → t.wordStart = false) (hahead : l.ahead ≠ .less)
    (hpending : t.pending = pendingAs l.escaped l.ahead.token) : Follows t l := by
  refine ⟨hframes, hnested, ?_⟩
  rcases hcontext with hc | hc
  · refine .bare _ hc hpending ?_
    rw [hposition, hstart hc]
    by_cases hidle : l.ahead = .none
    · rw [hidle]
      exact standing_inside _ _
    · exact .expansion hidle hahead
  · exact .double hc hposition hahead hpending

theorem frames_openLevel (t : ShellTracker) (opener : Opener) :
    (t.openLevel opener).frames = ⟨opener, .bare⟩ :: t.frames := rfl

theorem frames_setContext (h : t.frames = l.frames) (context : Context) :
    (t.setContext context).frames = ⟨l.frame.opener, context⟩ :: l.outer := by
  obtain ⟨hlevel, houter⟩ := List.cons.inj h
  rw [← hlevel, ← houter]
  rfl

/-- Another quoting of the innermost text nests as before. -/
theorem Nested.setContext {frame : Frame} {outer : List Frame} (h : Nested frame outer) (context : Context) :
    Nested { frame with context := context } outer := by
  cases outer with
  | nil => exact h
  | cons around outer => exact h

theorem Nested.openFrame (h : Nested l.frame l.outer) (hcontext : l.frame.context = .bare ∨ l.frame.context = .doubleQuoted)
    (opener : Opener) (hgroup : opener = .group → l.frame.context = .bare ∧ l.frame.opener ≠ .brace) :
    Nested (l.openFrame opener).frame (l.openFrame opener).outer :=
  ⟨hcontext, hgroup, h⟩

/-! #### In double quotes -/

theorem Ready.stepChar_double (h : Ready t l) (hc : l.frame.context = .doubleQuoted) {c : Char} (hdollar : c ≠ '$')
    (htick : c ≠ '`') : ∃ l', l.read c = some l' ∧ Follows (t.stepChar c) l' := by
  have htc : t.context = .doubleQuoted := h.context.trans hc
  unfold Lexer.read ShellTracker.stepChar
  rw [if_neg hdollar, if_neg htick, if_pos hc, if_neg hdollar, if_neg htick, if_pos htc]
  refine ⟨_, rfl, ?_⟩
  by_cases hquote : c = '"'
  · rw [if_pos hquote, if_pos hquote]
    refine follows_inside ?_ (h.nested.setContext _) (.inl rfl) rfl (fun _ => rfl) ?_ ?_
    · exact frames_setContext h.frames .bare
    · exact h.ahead ▸ by decide
    · change t.pending = pendingAs l.escaped l.ahead.token
      rw [h.pending, h.escaped, h.ahead]
      rfl
  · rw [if_neg hquote, if_neg hquote]
    exact h.follows fun hbare => by cases hc.symm.trans hbare

/-! #### In quotes and braces -/

/-- A quote opens alike in a command and in `${ }`. -/
theorem Ready.opensQuote (h : Ready t l) {t' : ShellTracker} {context : Context}
    (hcontext : context = .singleQuoted ∨ context = .doubleQuoted)
    (hframes : t'.frames = ⟨l.frame.opener, context⟩ :: l.outer) (hpending : t'.pending = t.pending) :
    Follows t' (l.quote context) := by
  have hidle : t'.pending = .token .none := hpending.trans h.pending
  refine ⟨hframes, h.nested.setContext context, ?_⟩
  rcases hcontext with rfl | rfl
  · exact .single rfl hidle h.ahead h.escaped
  · refine .double rfl rfl ?_ ?_
    · exact h.ahead ▸ by decide
    · change t'.pending = pendingAs l.escaped l.ahead.token
      rw [hidle, h.escaped, h.ahead]
      rfl

/-- A `$` waits for the character that names the expansion. -/
theorem Ready.stepChar_dollar (h : Ready t l) (hcontext : l.frame.context = .bare ∨ l.frame.context = .doubleQuoted) :
    ∃ l', l.read '$' = some l' ∧ Follows (t.stepChar '$') l' := by
  refine ⟨_, if_pos rfl, ?_⟩
  have hstep : t.stepChar '$' = { t with
      pending := .token .dollar
      wordStart := false
      word := { t.word with isOpaque := true } } := if_pos rfl
  rw [hstep]
  refine follows_inside h.frames h.nested hcontext rfl (fun _ => rfl) (by rintro ⟨⟩) ?_
  change Pending.token .dollar = pendingAs l.escaped .dollar
  rw [h.escaped]
  rfl

/-- What the tracker does with the end of a level. -/
theorem closeLevel_cons {around : Frame} {outer : List Frame} (h : t.outer.map Level.frame = around :: outer) :
    t.closeLevel.1 = some t.level ∧ t.closeLevel.2.frames = around :: outer ∧
      t.closeLevel.2.unsupportedConstruct = t.unsupportedConstruct := by
  unfold closeLevel
  cases houter : t.outer with
  | nil =>
    rw [houter] at h
    cases h
  | cons level rest =>
    rw [houter] at h
    exact ⟨rfl, h, rfl⟩

theorem closeLevel_nil (h : t.outer = []) : t.closeLevel = (none, t) := by
  unfold closeLevel
  rw [h]

theorem closeFrame_cons {around : Frame} {outer : List Frame} (h : l.outer = around :: outer) :
    l.closeFrame =
      { l with
        frame := around
        outer := outer
        position := if l.frame.opener = .group then .fresh else around.inside } := by
  unfold Lexer.closeFrame
  rw [h]

/-- The end of an expansion goes on with the word around it. -/
theorem Ready.closesExpansion (h : Ready t l) {around : Frame} {outer : List Frame} (houter : l.outer = around :: outer)
    (hgroup : l.frame.opener ≠ .group) {t' : ShellTracker} (hframes : t'.frames = around :: outer)
    (hstart : t'.wordStart = false) (hpending : t'.pending = .token .none) : Follows t' l.closeFrame := by
  have hnested := h.nested
  rw [houter] at hnested
  rw [closeFrame_cons houter, if_neg hgroup]
  refine follows_inside hframes hnested.2.2 hnested.1 rfl (fun _ => hstart) ?_ ?_
  · change l.ahead ≠ .less
    rw [h.ahead]
    decide
  · change t'.pending = pendingAs l.escaped l.ahead.token
    rw [hpending, h.escaped, h.ahead]
    rfl

theorem Ready.stepChar_braces (h : Ready t l) (hc : l.frame.context = .bare) (hopener : l.frame.opener = .brace)
    {plain : Bool} (hposition : l.position = .braces plain) (hstart : t.wordStart = plain) {c : Char}
    (hdollar : c ≠ '$') (htick : c ≠ '`') (hslip : c = '#' → plain = false) :
    ∃ l', l.read c = some l' ∧ Follows (t.stepChar c) l' := by
  have htc : t.context ≠ .doubleQuoted := by rw [h.context, hc]; decide
  have hlc : l.frame.context ≠ .doubleQuoted := by rw [hc]; decide
  have hto : t.opener = .brace := h.opener.trans hopener
  have hhash : ¬(c = '#' && t.wordStart) = true := by
    rw [hstart]
    intro hboth
    obtain ⟨hc', hplain⟩ := Bool.and_eq_true_iff.mp hboth
    rw [hslip (of_decide_eq_true hc')] at hplain
    cases hplain
  unfold Lexer.read ShellTracker.stepChar
  rw [if_neg hdollar, if_neg htick, if_neg hlc, if_neg hdollar, if_neg htick, if_neg htc, if_neg hhash]
  by_cases hsingle : c = '\''
  · rw [if_pos hsingle, if_pos hsingle]
    exact ⟨_, rfl, h.opensQuote (.inl rfl) (frames_setContext h.frames _) rfl⟩
  rw [if_neg hsingle, if_neg hsingle]
  by_cases hdouble : c = '"'
  · rw [if_pos hdouble, if_pos hdouble]
    exact ⟨_, rfl, h.opensQuote (.inr rfl) (frames_setContext h.frames _) rfl⟩
  rw [if_neg hdouble, if_neg hdouble, if_pos hopener]
  have hword : (l.wordChar c).position = .braces (plain && c ≠ '<' && c ≠ '>') := by
    unfold Lexer.wordChar
    rw [hposition]
  have hredirect : ∀ token, token = .less ∨ token = .redirect → c = '<' ∨ c = '>' →
      Follows { t with pending := .token token, wordStart := false } (l.wordChar c) := by
    intro token htoken hc'
    refine ⟨h.frames, h.nested, .bare token hc ?_ ?_⟩
    · change Pending.token token = pendingAs l.escaped token
      rw [h.escaped]
      rfl
    · have hbroken : (l.wordChar c).position = .braces false := by
        rw [hword]
        rcases hc' with rfl | rfl <;> simp
      rw [hbroken, show (l.wordChar c).ahead = .none from h.ahead,
        show (l.wordChar c).frame.opener = .brace from hopener]
      exact .bracesRedirect htoken
  by_cases hless : c = '<'
  · rw [if_pos hless, if_neg (by rw [hless]; decide)]
    exact ⟨_, rfl, hredirect .less (.inl rfl) (.inl hless)⟩
  rw [if_neg hless]
  by_cases hgreater : c = '>'
  · rw [if_pos hgreater, if_neg (by rw [hgreater]; decide)]
    exact ⟨_, rfl, hredirect .redirect (.inr rfl) (.inr hgreater)⟩
  rw [if_neg hgreater, if_pos hto]
  by_cases hclose : c = '\x7d'
  · rw [if_pos hclose, if_pos hclose]
    refine ⟨_, rfl, ?_⟩
    cases houter : l.outer with
    | nil =>
      have hnested := h.nested
      rw [houter] at hnested
      cases hopener.symm.trans hnested
    | cons around outer =>
      have hclosed := closeLevel_cons (h.outer.trans houter)
      refine h.closesExpansion houter (by rw [hopener]; decide) ?_ rfl ?_
      · exact hclosed.2.1
      · exact (pending_closeLevel t).trans h.pending
  · rw [if_neg hclose, if_neg hclose]
    refine ⟨_, rfl, h.frames, h.nested, .bare .none hc ?_ ?_⟩
    · change t.pending = pendingAs l.escaped .none
      rw [h.pending, h.escaped]
      rfl
    · have hkept : (l.wordChar c).position = .braces plain := by
        rw [hword]
        simp [hless, hgreater]
      rw [hkept, show (l.wordChar c).ahead = .none from h.ahead,
        show (l.wordChar c).frame.opener = .brace from hopener, hstart]
      exact .braces plain

/-! #### In a command -/

/-- A command goes on at the start of a token. -/
theorem follows_fresh (hframes : t.frames = l.frames) (hnested : Nested l.frame l.outer)
    (hcontext : l.frame.context = .bare) (hopener : l.frame.opener ≠ .brace)
    (hposition : l.position = .fresh ∨ l.position = .opened) (hstart : t.wordStart = true) (hpending : t.pending = .token .none) (hahead : l.ahead = .none)
    (hescaped : l.escaped = false) : Follows t l := by
  refine ⟨hframes, hnested, .bare .none hcontext ?_ ?_⟩
  · rw [hpending, hescaped]
    rfl
  · rw [hahead, hstart]
    exact .fresh hopener hposition

/-- A redirection waits for its operand. -/
theorem follows_operand {token : Token} (hframes : t.frames = l.frames) (hnested : Nested l.frame l.outer)
    (hcontext : l.frame.context = .bare) (hopener : l.frame.opener ≠ .brace) (hposition : l.position = .operand)
    (htoken : token = .less ∧ l.ahead = .less ∨ token = .redirect ∧ l.ahead = .none)
    (hpending : t.pending = .token token) (hescaped : l.escaped = false) : Follows t l := by
  refine ⟨hframes, hnested, .bare token hcontext ?_ ?_⟩
  · rw [hpending, hescaped]
    rfl
  · rw [hposition]
    rcases htoken with ⟨rfl, hahead⟩ | ⟨rfl, hahead⟩
    · rw [hahead]
      exact .less hopener
    · rw [hahead]
      exact .redirect hopener

theorem recorded_concat (text : Text) (w : Word) (c : Char) (h : w.text = recorded text) :
    (w.push c).text = recorded (text ++ [c]) := by
  have hpush : ∀ w₁ w₂ : Word, w₁.text = w₂.text → (w₁.push c).text = (w₂.push c).text := by
    intro w₁ w₂ htext
    unfold Word.push
    by_cases heq : c = '='
    · rw [if_pos heq, if_pos heq]
      dsimp only
      rw [htext]
      split
      · rfl
      · split <;> rfl
    · rw [if_neg heq, if_neg heq]
      dsimp only
      rw [htext]
      split
      · rfl
      · split
        · rfl
        · exact htext
  unfold recorded
  rw [List.foldl_append]
  exact hpush _ _ h

/-- An ordinary character of a command. -/
theorem stepChar_plain (hc : t.context = .bare) (ho : t.opener ≠ .brace) {c : Char}
    (hplain : c ∉ ['$', '`', '\'', '"', '<', '>', '(', ')', ' ', '\t', '\n', ';', '&', '|'])
    (hhash : c = '#' → t.wordStart = false) :
    t.stepChar c = { t.noteWordChar c with wordStart := false } := by
  simp only [List.mem_cons, List.not_mem_nil, or_false, not_or] at hplain
  obtain ⟨h₁, h₂, h₃, h₄, h₅, h₆, h₇, h₈, h₉, h₁₀, h₁₁, h₁₂, h₁₃, h₁₄⟩ := hplain
  have hcomment : ¬(c = '#' && t.wordStart) = true := by
    intro hboth
    obtain ⟨hc', hstart⟩ := Bool.and_eq_true_iff.mp hboth
    rw [hhash (of_decide_eq_true hc')] at hstart
    cases hstart
  unfold stepChar
  rw [if_neg h₁, if_neg h₂, if_neg (by rw [hc]; decide), if_neg hcomment, if_neg h₃, if_neg h₄, if_neg h₅,
    if_neg h₆, if_neg ho, if_neg h₇, if_neg h₈, if_neg (by simp [h₉, h₁₀]), if_neg (by simp [h₁₁, h₁₂, h₁₃, h₁₄])]

theorem read_word (hc : l.frame.context = .bare) (ho : l.frame.opener ≠ .brace) {c : Char}
    (hplain : c ∉ ['$', '`', '\'', '"', '<', '>', '(', ')', ' ', '\t', '\n', ';', '&', '|'])
    (hhash : c = '#' → l.position.startsToken = false) : l.read c = some (l.wordChar c) := by
  simp only [List.mem_cons, List.not_mem_nil, or_false, not_or] at hplain
  obtain ⟨h₁, h₂, h₃, h₄, h₅, h₆, h₇, h₈, h₉, h₁₀, h₁₁, h₁₂, h₁₃, h₁₄⟩ := hplain
  have hcomment : ¬(c = '#' && l.position.startsToken) = true := by
    intro hboth
    obtain ⟨hc', hposition⟩ := Bool.and_eq_true_iff.mp hboth
    rw [hhash (of_decide_eq_true hc')] at hposition
    cases hposition
  unfold Lexer.read Lexer.readCommand
  rw [if_neg h₁, if_neg h₂, if_neg (by rw [hc]; decide), if_neg h₃, if_neg h₄, if_neg ho, if_neg h₇, if_neg h₈,
    if_neg h₅, if_neg h₆, if_neg (by simp [h₉, h₁₀]), if_neg (by simp [h₁₁, h₁₂, h₁₃, h₁₄]), if_neg hcomment]

theorem frames_endWord (t : ShellTracker) (separatorStartsCommand : Bool) :
    (t.endWord separatorStartsCommand).frames = t.frames := by
  have hended := wordEnded t separatorStartsCommand
  unfold ShellTracker.frames
  rw [hended.level, hended.outer]

/-- The end of a token, read alike where the tracker has not seen the word `case`. -/
theorem Ready.endsToken (h : Ready t l) (hc : l.frame.context = .bare) (ho : l.frame.opener ≠ .brace)
    (separatorStartsCommand : Bool) {t' : ShellTracker} (hframes : t'.frames = (t.endWord separatorStartsCommand).frames)
    (hpending : t'.pending = (t.endWord separatorStartsCommand).pending) (hstart : t'.wordStart = true) :
    Follows t' { l with position := .fresh } := by
  have hended := wordEnded t separatorStartsCommand
  refine follows_fresh (l := { l with position := .fresh }) ?_ h.nested hc ho (.inl rfl) hstart ?_ h.ahead h.escaped
  · exact hframes.trans ((frames_endWord t _).trans h.frames)
  · rw [hpending, hended.pending, h.pending]

theorem Ready.stepChar_open (h : Ready t l) (hc : l.frame.context = .bare) (ho : l.frame.opener ≠ .brace)
    (hopened : l.position ≠ .opened) :
    ∃ l', l.read '(' = some l' ∧ Follows (t.stepChar '(') l' := by
  have hstep : t.stepChar '(' = (t.endWord true).openLevel .group := by
    simp [stepChar, h.context, h.opener, hc, ho]
  have hread : l.read '(' = some (l.openFrame .group) := by
    simp [Lexer.read, Lexer.readCommand, hc, ho, hopened]
  rw [hstep]
  refine ⟨_, hread, follows_fresh ?_ ?_ rfl ?_ (.inr rfl) rfl ?_ rfl rfl⟩
  · rw [frames_openLevel, frames_endWord, h.frames]
    rfl
  · exact h.nested.openFrame (.inl hc) _ fun _ => ⟨hc, ho⟩
  · rintro ⟨⟩
  · exact (wordEnded t true).pending.trans h.pending

theorem stepChar_closing (hc : t.context = .bare) (ho : t.opener ≠ .brace) :
    t.stepChar ')' =
      { (t.endWord true).closeLevel.2 with
        wordStart := (t.endWord true).closeLevel.1.all fun level => level.opener = .group
        commandWord := ((t.endWord true).closeLevel.1.all fun level => level.opener = .group) ||
          (t.endWord true).closeLevel.2.commandWord } := by
  simp [stepChar, hc, ho]

theorem Ready.stepChar_close (h : Ready t l) (hc : l.frame.context = .bare) (ho : l.frame.opener ≠ .brace) :
    ∃ l', l.read ')' = some l' ∧ Follows (t.stepChar ')') l' := by
  have hread : l.read ')' = some l.closeFrame := by
    simp [Lexer.read, Lexer.readCommand, hc, ho]
  have hended := wordEnded t true
  have hidle : (t.endWord true).pending = .token .none := hended.pending.trans h.pending
  refine ⟨_, hread, ?_⟩
  rw [stepChar_closing (h.context.trans hc) (h.opener ▸ ho)]
  have houter : (t.endWord true).outer.map Level.frame = l.outer := by rw [hended.outer, h.outer]
  cases hcons : l.outer with
  | nil =>
    rw [hcons] at houter
    rw [closeLevel_nil (List.map_eq_nil_iff.mp houter)]
    have hbottom : l.closeFrame = { l with position := .fresh } := by
      unfold Lexer.closeFrame
      rw [hcons]
    rw [hbottom]
    exact h.endsToken hc ho true rfl rfl rfl
  | cons around outer =>
    obtain ⟨hclosed, hframes, _⟩ := closeLevel_cons (houter.trans hcons)
    have hopener : (t.endWord true).level.opener = l.frame.opener := by
      rw [hended.level]
      exact h.opener
    have hpending : (t.endWord true).closeLevel.2.pending = .token .none := (pending_closeLevel _).trans hidle
    rw [hclosed]
    by_cases hgroup : l.frame.opener = .group
    · have hnested := h.nested
      rw [hcons] at hnested
      have haround := hnested.2.1 hgroup
      rw [closeFrame_cons hcons, if_pos hgroup]
      refine follows_fresh ?_ hnested.2.2 haround.1 haround.2 (.inl rfl) ?_ hpending h.ahead h.escaped
      · exact hframes
      · simp [hopener, hgroup]
    · refine h.closesExpansion hcons hgroup ?_ ?_ hpending
      · exact hframes
      · simp [hopener, hgroup]

/-- A word goes on, or starts, with an ordinary character. -/
theorem Ready.stepChar_word (h : Ready t l) (hc : l.frame.context = .bare) (ho : l.frame.opener ≠ .brace) {c : Char}
    (hplain : c ∉ ['$', '`', '\'', '"', '<', '>', '(', ')', ' ', '\t', '\n', ';', '&', '|'])
    (hhash : c = '#' → t.wordStart = false ∧ l.position.startsToken = false) :
    ∃ l', l.read c = some l' ∧ Follows (t.stepChar c) l' := by
  refine ⟨_, read_word hc ho hplain fun hc' => (hhash hc').2, ?_⟩
  rw [stepChar_plain (h.context.trans hc) (h.opener ▸ ho) hplain fun hc' => (hhash hc').1]
  have hword : ∀ known, (l.wordChar c).position = .word known → Knows (t.noteWordChar c).word.text known →
      Follows { t.noteWordChar c with wordStart := false } (l.wordChar c) := by
    intro known hposition hknows
    refine ⟨h.frames, h.nested, .bare .none hc ?_ ?_⟩
    · change t.pending = pendingAs l.escaped .none
      rw [h.pending, h.escaped]
      rfl
    · rw [hposition, show (l.wordChar c).ahead = .none from h.ahead]
      exact .word ho hknows
  cases h.place with
  | double hdouble => cases hc.symm.trans hdouble
  | braces _ hbrace => exact absurd hbrace ho
  | fresh _ _ hposition hstart =>
    refine hword (some [c]) ?_ ?_
    · unfold Lexer.wordChar
      rcases hposition with hposition | hposition <;> rw [hposition]
    · rintro _ ⟨⟩
      unfold noteWordChar
      rw [if_pos hstart]
      exact recorded_concat [] Word.empty c rfl
  | operand _ _ hposition hstart htext =>
    refine hword (some [c]) ?_ ?_
    · unfold Lexer.wordChar
      rw [hposition]
    · rintro _ ⟨⟩
      unfold noteWordChar
      rw [if_neg (by simp [hstart])]
      exact recorded_concat [] t.word c htext
  | @word known _ _ hposition hstart hknows =>
    refine hword (known.map (· ++ [c])) ?_ ?_
    · unfold Lexer.wordChar
      rw [hposition]
    · intro text htext
      obtain ⟨before, hbefore, rfl⟩ := Option.map_eq_some_iff.mp htext
      unfold noteWordChar
      rw [if_neg (by simp [hstart])]
      exact recorded_concat before t.word c (hknows before hbefore)

/-- A blank ends a token, and a word that the tracker knows to be `case` is flagged. -/
theorem Ready.stepChar_blank (h : Ready t l) (hc : l.frame.context = .bare) (ho : l.frame.opener ≠ .brace) {c : Char}
    (hc' : c = ' ' ∨ c = '\t') (hoperand : l.position ≠ .operand)
    (hnone : (t.stepChar c).unsupportedConstruct = none) :
    ∃ l', l.read c = some l' ∧ Follows (t.stepChar c) l' := by
  have hstep : t.stepChar c = { t.endWord false with wordStart := true } := by
    rcases hc' with rfl | rfl <;> simp [stepChar, h.context, h.opener, hc, ho]
  rw [hstep] at hnone ⊢
  have hcase : l.position ≠ .word (some "case".toList) := by
    intro hposition
    have htext := ((wordEnded t false).flagged hnone).2
    cases h.place with
    | double hdouble => cases hc.symm.trans hdouble
    | braces _ hbrace => exact ho hbrace
    | fresh _ _ hfresh =>
      rw [hposition] at hfresh
      rcases hfresh with hfresh | hfresh <;> cases hfresh
    | operand _ _ hoperand' => exact hoperand hoperand'
    | word _ _ hword _ hknows =>
      cases hposition.symm.trans hword
      exact htext (hknows _ rfl)
  have hread : l.read c = l.readCommand c := by
    rcases hc' with rfl | rfl <;> simp [Lexer.read, hc, ho]
  have hblank : (c = ' ' || c = '\t') = true := by simpa using hc'
  refine ⟨{ l with position := .fresh }, ?_, h.endsToken hc ho false rfl rfl rfl⟩
  rw [hread]
  unfold Lexer.readCommand
  rcases hc' with rfl | rfl
  all_goals
    rw [if_neg (by decide), if_neg (by decide), if_neg (by decide), if_neg (by decide), if_pos hblank,
      if_neg hcase, if_neg hoperand]

theorem Ready.stepChar_separator (h : Ready t l) (hc : l.frame.context = .bare) (ho : l.frame.opener ≠ .brace) {c : Char}
    (hc' : c ∈ ['\n', ';', '&', '|']) : ∃ l', l.read c = some l' ∧ Follows (t.stepChar c) l' := by
  simp only [List.mem_cons, List.not_mem_nil, or_false] at hc'
  have hstep : t.stepChar c = { t.endWord true with wordStart := true } := by
    obtain rfl | rfl | rfl | rfl := hc' <;> simp [stepChar, h.context, h.opener, hc, ho]
  rw [hstep]
  refine ⟨{ l with position := .fresh }, ?_, h.endsToken hc ho true rfl rfl rfl⟩
  obtain rfl | rfl | rfl | rfl := hc' <;> simp [Lexer.read, Lexer.readCommand, hc, ho]

/-- A `#` at the start of a token comments out the rest of the line. -/
theorem Ready.stepChar_hash (h : Ready t l) (hc : l.frame.context = .bare) (ho : l.frame.opener ≠ .brace)
    (hoperand : l.position ≠ .operand) : ∃ l', l.read '#' = some l' ∧ Follows (t.stepChar '#') l' := by
  cases h.place with
  | double hdouble => cases hc.symm.trans hdouble
  | braces _ hbrace => exact absurd hbrace ho
  | operand _ _ hoperand' => exact absurd hoperand' hoperand
  | fresh _ _ hfresh hstart =>
    have hstep : t.stepChar '#' = t.setContext .comment := by
      simp [stepChar, h.context, hc, hstart]
    rw [hstep]
    have hstarts : l.position.startsToken = true := by
      rcases hfresh with hfresh | hfresh <;> rw [hfresh] <;> rfl
    refine ⟨l.comment, by simp [Lexer.read, Lexer.readCommand, hc, ho, hstarts], ?_, h.nested.setContext _, ?_⟩
    · exact frames_setContext h.frames .comment
    · exact .comment rfl ho h.pending h.ahead h.escaped
  | word _ _ hword hstart _ =>
    refine h.stepChar_word hc ho (by decide) fun _ => ⟨hstart, ?_⟩
    rw [hword]
    rfl

theorem Ready.stepChar_redirect (h : Ready t l) (hc : l.frame.context = .bare) (ho : l.frame.opener ≠ .brace) :
    (∃ l', l.read '<' = some l' ∧ Follows (t.stepChar '<') l') ∧
      ∃ l', l.read '>' = some l' ∧ Follows (t.stepChar '>') l' := by
  have hless : t.stepChar '<' = { t with pending := .token .less, wordStart := false } := by
    simp [stepChar, h.context, hc]
  have hgreater : t.stepChar '>' = { t with pending := .token .redirect, wordStart := false } := by
    simp [stepChar, h.context, hc]
  rw [hless, hgreater]
  refine ⟨⟨{ l with position := .operand, ahead := .less }, ?_, ?_⟩, ⟨{ l with position := .operand }, ?_, ?_⟩⟩
  · simp [Lexer.read, Lexer.readCommand, hc, ho]
  · exact follows_operand h.frames h.nested hc ho rfl (.inl ⟨rfl, rfl⟩) rfl h.escaped
  · simp [Lexer.read, Lexer.readCommand, hc, ho]
  · exact follows_operand h.frames h.nested hc ho rfl (.inr ⟨rfl, h.ahead⟩) rfl h.escaped

theorem Ready.stepChar_quote (h : Ready t l) (hc : l.frame.context = .bare) :
    (∃ l', l.read '\'' = some l' ∧ Follows (t.stepChar '\'') l') ∧
      ∃ l', l.read '"' = some l' ∧ Follows (t.stepChar '"') l' := by
  have hsingle : t.stepChar '\'' = { t.setContext .singleQuoted with word := { t.word with isOpaque := true } } := by
    simp [stepChar, h.context, hc]
  have hdouble : t.stepChar '"' = { t.setContext .doubleQuoted with word := { t.word with isOpaque := true } } := by
    simp [stepChar, h.context, hc]
  rw [hsingle, hdouble]
  refine ⟨⟨l.quote .singleQuoted, ?_, ?_⟩, ⟨l.quote .doubleQuoted, ?_, ?_⟩⟩
  · simp [Lexer.read, hc]
  · exact h.opensQuote (.inl rfl) (frames_setContext h.frames _) rfl
  · simp [Lexer.read, hc]
  · exact h.opensQuote (.inr rfl) (frames_setContext h.frames _) rfl

theorem Ready.stepChar_command (h : Ready t l) (hc : l.frame.context = .bare) (ho : l.frame.opener ≠ .brace) {c : Char}
    (hdollar : c ≠ '$') (htick : c ≠ '`') (hblank : l.position = .operand → c ≠ ' ' ∧ c ≠ '\t')
    (hslip : c = '#' → l.position ≠ .operand) (hopened : c = '(' → l.position ≠ .opened)
    (hnone : (t.stepChar c).unsupportedConstruct = none) :
    ∃ l', l.read c = some l' ∧ Follows (t.stepChar c) l' := by
  by_cases hspecial : c ∈ ['$', '`', '\'', '"', '<', '>', '(', ')', ' ', '\t', '\n', ';', '&', '|']
  · simp only [List.mem_cons, List.not_mem_nil, or_false] at hspecial
    obtain rfl | rfl | rfl | rfl | rfl | rfl | rfl | rfl | hc' | hc' | hsep := hspecial
    · exact absurd rfl hdollar
    · exact absurd rfl htick
    · exact (h.stepChar_quote hc).1
    · exact (h.stepChar_quote hc).2
    · exact (h.stepChar_redirect hc ho).1
    · exact (h.stepChar_redirect hc ho).2
    · exact h.stepChar_open hc ho (hopened rfl)
    · exact h.stepChar_close hc ho
    · exact h.stepChar_blank hc ho (.inl hc') (fun hoperand => (hblank hoperand).1 hc') hnone
    · exact h.stepChar_blank hc ho (.inr hc') (fun hoperand => (hblank hoperand).2 hc') hnone
    · exact h.stepChar_separator hc ho (by simpa using hsep)
  · by_cases hhash : c = '#'
    · rw [hhash]
      exact h.stepChar_hash hc ho (hslip hhash)
    · exact h.stepChar_word hc ho hspecial fun hc' => absurd hc' hhash

/-- An ordinary character leaves both in the same place, unless a `#` slips by or a `((` is read. -/
theorem Ready.stepChar (h : Ready t l) {c : Char} (hblank : l.position = .operand → c ≠ ' ' ∧ c ≠ '\t')
    (hslip : c = '#' → l.frame.context = .bare → l.position ≠ .operand ∧ l.position ≠ .braces true)
    (hopened : c = '(' → l.frame.context = .bare → l.position ≠ .opened)
    (hnone : (t.stepChar c).unsupportedConstruct = none) :
    ∃ l', l.read c = some l' ∧ Follows (t.stepChar c) l' := by
  by_cases hdollar : c = '$'
  · rw [hdollar]
    refine h.stepChar_dollar ?_
    cases h.place with
    | double hc => exact .inr hc
    | fresh hc | operand hc | word hc | braces hc => exact .inl hc
  have htick : c ≠ '`' := by
    rintro rfl
    have hstep : t.stepChar '`' = t.flag "backticks" := by simp [ShellTracker.stepChar]
    rw [hstep] at hnone
    unfold flag at hnone
    cases hflag : t.unsupportedConstruct <;> simp [hflag] at hnone
  cases h.place with
  | double hc => exact h.stepChar_double hc hdollar htick
  | braces hc ho hposition hstart =>
    refine h.stepChar_braces hc ho hposition hstart hdollar htick fun hc' => ?_
    have hbroken := (hslip hc' hc).2
    rw [hposition] at hbroken
    simpa using hbroken
  | fresh hc ho | operand hc ho | word hc ho =>
    exact h.stepChar_command hc ho hdollar htick hblank (fun hc' => (hslip hc' hc).1) (fun hc' => hopened hc' hc) hnone

end Aviso.Template
