import Aviso.Proofs.CommandPosition

namespace Aviso.Template
open ShellTracker
open Posix

variable {commandWord reparsing waits waits' : Bool} {word word' : Word} {r : Command} {t t' : ShellTracker} {l : Lexer}
  {cs : Commands}

/-- The operand of a redirection has not started. -/
def ShellTracker.awaitsOperand (t : ShellTracker) : Bool :=
  match t.pending with
  | .token token | .escape token => token = .less || token = .redirect

theorem awaits_idle (h : t.pending = .token .none) : t.awaitsOperand = false := by
  unfold ShellTracker.awaitsOperand
  rw [h]
  decide

theorem stacked_context (level : Level) (context : Context) (levels : List Level) (rs : List Command)
    (h : Stacked level levels rs) : Stacked { level with context := context } levels rs := by
  cases levels with
  | nil => cases rs <;> exact h
  | cons around rest =>
    cases rs with
    | nil => exact h
    | cons r outer => exact ⟨⟨h.1.expanded, h.1.guards⟩, h.2⟩

/-- What is read at one level does not touch what is kept of those around it. -/
theorem Guarded.reads (h : Guarded t waits cs) (context : Context)
    (hlevel : t'.level = { t.level with context := context })
    (houter : t'.outer = t.outer) (hreparsing : t.reparsingCommand = true → t'.reparsingCommand = true)
    (hguards : Guards t'.commandWord t'.reparsingCommand waits' t'.word r)
    (hnested : cs.command = .nested → r = .nested)
    (henclosed : context = .singleQuoted ∨ context = .doubleQuoted → r.quote [] = r)
    (hcleared : context = .comment ∨ context = .bare ∧ t'.wordStart = true →
      { t'.word with isOpaque := false } = Word.empty ∧ r.word = .new) : Guarded t' waits' ⟨r, cs.outer⟩ := by
  have hopener : t'.opener = t.opener := by
    unfold ShellTracker.opener
    rw [hlevel]
  have hcontext : t'.context = context := by
    unfold ShellTracker.context
    rw [hlevel]
  refine ⟨hguards, fun hbrace => hnested (h.braces (hopener ▸ hbrace)), ?_, ?_, ?_, ?_⟩
  · rw [hcontext]
    exact henclosed
  · rw [hcontext]
    exact hcleared
  · exact fun hexposes => hreparsing (h.inherited hexposes)
  · rw [hlevel, houter]
    exact stacked_context _ _ _ _ h.stacked

/-- A word is quoted once. -/
theorem quote_quote (r : Command) (s : Text) : (r.quote s).quote [] = r.quote s := by
  obtain ⟨role, ⟨spelling, assignment⟩, operand⟩ := r
  cases role <;> cases operand <;> cases spelling <;>
    simp [Command.quote, Command.grow, Spelling.quote, Role.isCommand]

theorem not_bare_of_quoted (h : r.quote [] = r) (hcommand : r.role.isCommand = true) (hoperand : r.operand = false)
    (s : Text) : r.word.spelling ≠ .bare s := by
  intro hspelling
  have hword := congrArg Command.word h
  unfold Command.quote at hword
  rw [grow_command _ _ hcommand hoperand, if_pos hcommand] at hword
  have hquoted := congrArg Part.spelling hword
  rw [hspelling] at hquoted
  cases hquoted

/-- Inside quotes the tracker records nothing more. -/
theorem Guards.quoted (h : Guards commandWord reparsing false word r)
    (henclosed : r.quote [] = r) (s : Text) :
    Guards commandWord reparsing false word (r.quote s) := by
  refine h.grow (by rintro ⟨⟩) ?_ fun hcommand hoperand hspelled => ?_
  · exact id
  · rw [if_pos hcommand, Bool.or_false]
    refine ⟨hspelled.operand, hspelled.assignment, ?_⟩
    have hnot := not_bare_of_quoted henclosed hcommand hoperand
    have hrecorded := hspelled.recorded
    dsimp only
    revert hrecorded hnot
    cases r.word.spelling with
    | bare before => exact fun hnot => absurd rfl (hnot before)
    | quoted before =>
      rintro - ⟨⟩
      rename_i hisOpaque htext hassigns
      exact .quoted hisOpaque (htext.trans (List.sublist_append_left before s)) fun h =>
        List.mem_append_left _ (hassigns h)
    | unknown => exact fun _ _ => .unknown

/-- In `${ }` the tracker's word is of no command. -/
theorem Guarded.inBraces (h : Guarded t waits cs) (hbrace : t.opener = .brace) (context : Context)
    (hlevel : t'.level = { t.level with context := context }) (houter : t'.outer = t.outer)
    (hreparsing : t'.reparsingCommand = t.reparsingCommand) (hcomment : context ≠ .comment)
    (hcleared : context = .bare → t'.wordStart = true → { t'.word with isOpaque := false } = Word.empty) :
    Guarded t' waits' cs := by
  have hnested := h.braces hbrace
  have hsame : cs = ⟨.nested, cs.outer⟩ := by
    rw [← hnested]
  rw [hsame]
  refine h.reads context hlevel houter (fun hr => hreparsing.trans hr) (guards_nested _ _ _ _) (fun _ => rfl)
    (fun _ => rfl) ?_
  rintro (hc | ⟨hbare, hstart⟩)
  · exact absurd hc hcomment
  · exact ⟨hcleared hbare hstart, rfl⟩

/-- In `${ }` quoted text is of no command. -/
theorem Guarded.read_braces (h : Guarded t waits cs) (hbrace : t.opener = .brace) (s : Text) :
    cs.read (.quoted s) = cs := by
  have hnested := h.braces hbrace
  change { cs with command := cs.command.quote s } = cs
  rw [hnested]
  change { cs with command := Command.nested } = cs
  rw [← hnested]

/-! ### One ordinary character -/

/-- Where the tracker takes what a character is to the commands for something else. -/
def Posix.Commands.misread (cs : Commands) : Event → Bool
  -- The reserved word is taken for an argument.
  | .blank => cs.command.reopens
  -- The word before `<` or `>` is forgotten.
  | .redirect => cs.command.reopens || cs.command.names
  -- The next command is no longer taken to be part of those around it.
  | .newline | .separator | .opens .group => cs.outer.any Command.exposes
  | _ => false

def Posix.Commands.misreads (cs : Commands) : List Event → Bool
  | [] => false
  | e :: es => cs.misread e || (cs.read e).misreads es

theorem Guarded.stepChar_double (h : Guarded t false cs) (hready : Ready t l) (hc : l.frame.context = .doubleQuoted)
    {c : Char} (hdollar : c ≠ '$') (htick : c ≠ '`') :
    Guarded (t.stepChar c) false ((l.plainEvents c).foldl Commands.read cs) := by
  have htc : t.context = .doubleQuoted := hready.context.trans hc
  unfold Lexer.plainEvents ShellTracker.stepChar
  rw [if_neg hdollar, if_pos hc, if_neg hdollar, if_neg htick, if_pos htc]
  by_cases hquote : c = '"'
  · rw [if_pos hquote, if_pos hquote]
    refine h.reads .bare rfl rfl id h.guards id (by rintro (⟨⟨⟩⟩ | ⟨⟨⟩⟩)) ?_
    rintro (⟨⟨⟩⟩ | ⟨_, ⟨⟩⟩)
  · rw [if_neg hquote, if_neg hquote]
    refine h.reads t.level.context rfl rfl id ?_ ?_ ?_ ?_
    · exact h.guards.quoted (h.enclosed (.inr htc)) _
    · intro hnested
      rw [hnested]
      rfl
    · exact fun _ => quote_quote cs.command _
    · rw [show t.level.context = .doubleQuoted from htc]
      rintro (⟨⟨⟩⟩ | ⟨⟨⟩, _⟩)

/-- An expansion, a quote or an escape is part of the word. -/
theorem Guarded.expansion (h : Guarded t waits cs) (hstarts : waits = true → t.word.redirectOperand = true)
    (hlevel : t'.level = t.level) (houter : t'.outer = t.outer) (hposition : t'.commandWord = t.commandWord)
    (hreparsing : t'.reparsingCommand = t.reparsingCommand)
    (hoperand : t'.word.redirectOperand = t.word.redirectOperand)
    (hassignment : t.word.assignment = true → t'.word.assignment = true)
    (hstart : t.context ≠ .comment) (hword : t.context = .bare → t'.wordStart = false) :
    Guarded t' false (cs.read .expansion) := by
  refine h.reads t.level.context hlevel houter (fun hr => hreparsing.trans hr) ?_ ?_ ?_ ?_
  · rw [hposition, hreparsing]
    exact h.guards.expand (fun hwaits => hoperand.trans (hstarts hwaits)) hoperand hassignment
  · intro hnested
    rw [hnested]
    rfl
  · exact fun _ => quote_of_expanded (expand_expand cs.command) []
  · rintro (hcomment | ⟨hbare, hfresh⟩)
    · exact absurd hcomment hstart
    · rw [hword hbare] at hfresh
      cases hfresh

theorem Guarded.quotation (h : Guarded t waits cs) (hstarts : waits = true → t.word.redirectOperand = true)
    (context : Context) (hlevel : t'.level = { t.level with context := context }) (houter : t'.outer = t.outer)
    (hposition : t'.commandWord = t.commandWord) (hreparsing : t'.reparsingCommand = t.reparsingCommand)
    (hword : t'.word = { t.word with isOpaque := true }) (hcomment : context ≠ .comment)
    (hstart : context = .bare → t'.wordStart = false) {s : Text} : Guarded t' false (cs.read (.quoted s)) := by
  refine h.reads context hlevel houter (fun hr => hreparsing.trans hr) ?_ ?_ ?_ ?_
  · rw [hposition, hreparsing, hword]
    exact h.guards.quote hstarts s
  · intro hnested
    rw [hnested]
    rfl
  · exact fun _ => quote_quote cs.command s
  · rintro (hc | ⟨hbare, hfresh⟩)
    · exact absurd hc hcomment
    · rw [hstart hbare] at hfresh
      cases hfresh

/-- A `$` waits for the character that names the expansion. -/
theorem Guarded.stepChar_dollar (h : Guarded t waits cs) (hstarts : waits = true → t.word.redirectOperand = true)
    (hcontext : t.context = .bare ∨ t.context = .doubleQuoted) :
    Guarded (t.stepChar '$') false (cs.read .expansion) := by
  have hstep : t.stepChar '$' = { t with
      pending := .token .dollar
      wordStart := false
      word := { t.word with isOpaque := true } } := if_pos rfl
  rw [hstep]
  refine h.expansion hstarts rfl rfl rfl rfl rfl id ?_ fun _ => rfl
  rcases hcontext with hc | hc <;> rw [hc] <;> decide

/-- The end of an expansion, as the tracker reads it. -/
theorem closeLevel_expansion {around : Level} {rest : List Level} (houter : t.outer = around :: rest)
    (hgroup : t.level.opener ≠ .group) :
    t.closeLevel = (some t.level,
      { t with
        level := around
        outer := rest
        commandWord := t.level.outerCommandWord
        reparsingCommand := t.level.outerReparsing
        word := { t.word with isOpaque := true, redirectOperand := t.level.outerRedirectOperand } }) := by
  unfold closeLevel
  rw [houter]
  dsimp only
  rw [if_neg hgroup]

theorem closeLevel_group {around : Level} {rest : List Level} (houter : t.outer = around :: rest)
    (hgroup : t.level.opener = .group) :
    t.closeLevel = (some t.level,
      { t with
        level := around
        outer := rest
        commandWord := t.level.outerCommandWord
        reparsingCommand := t.level.outerReparsing }) := by
  unfold closeLevel
  rw [houter]
  dsimp only
  rw [if_pos hgroup]

/-- The text around a level is not a comment. -/
theorem Ready.around (hready : Ready t l) {around : Level} {rest : List Level} (houter : t.outer = around :: rest) :
    around.context ≠ .comment ∧ (l.frame.opener = .group → around.context = .bare ∧ around.opener ≠ .brace) := by
  have hnested := hready.nested
  rw [← hready.outer, houter, List.map_cons] at hnested
  refine ⟨fun hcomment => ?_, hnested.2.1⟩
  have hcontext : around.context = .bare ∨ around.context = .doubleQuoted := hnested.1
  rw [hcomment] at hcontext
  rcases hcontext with ⟨⟨⟩⟩ | ⟨⟨⟩⟩

theorem plainEvents_braces (hc : l.frame.context = .bare) (hbrace : l.frame.opener = .brace)
    {c : Char} (hdollar : c ≠ '$') :
    l.plainEvents c =
      if c = '\'' || c = '"' then [.quoted []] else if c = '\x7d' then [.closes .brace] else [] := by
  unfold Lexer.plainEvents
  rw [if_neg hdollar, if_neg (by rw [hc]; decide), if_pos hbrace]

theorem Guarded.stepChar_braces (h : Guarded t waits cs) (hready : Ready t l) (hc : l.frame.context = .bare)
    (hbrace : l.frame.opener = .brace) {c : Char} (hdollar : c ≠ '$') (htick : c ≠ '`')
    (hhash : c = '#' → t.wordStart = false)
    (hwaits : waits' = (t.stepChar c).awaitsOperand) :
    Guarded (t.stepChar c) waits' ((l.plainEvents c).foldl Commands.read cs) := by
  have htc : t.context = .bare := hready.context.trans hc
  have hto : t.opener = .brace := hready.opener.trans hbrace
  have hbare : t.level.context ≠ .comment := by
    rw [show t.level.context = .bare from htc]
    decide
  have hquoted := h.read_braces hto []
  rw [plainEvents_braces hc hbrace hdollar]
  by_cases hsingle : c = '\''
  · subst hsingle
    have hstep : t.stepChar '\'' = { t.setContext .singleQuoted with word := { t.word with isOpaque := true } } := by
      simp [ShellTracker.stepChar, htc]
    rw [hstep, if_pos (by rfl)]
    change Guarded _ _ (cs.read (.quoted []))
    rw [hquoted]
    exact h.inBraces hto .singleQuoted rfl rfl rfl (by decide) (by rintro ⟨⟩)
  by_cases hdouble : c = '"'
  · subst hdouble
    have hstep : t.stepChar '"' = { t.setContext .doubleQuoted with word := { t.word with isOpaque := true } } := by
      simp [ShellTracker.stepChar, htc]
    rw [hstep, if_pos (by rfl)]
    change Guarded _ _ (cs.read (.quoted []))
    rw [hquoted]
    exact h.inBraces hto .doubleQuoted rfl rfl rfl (by decide) (by rintro ⟨⟩)
  rw [if_neg (by simp [hsingle, hdouble])]
  by_cases hclose : c = '\x7d'
  · subst hclose
    have hstep : t.stepChar '\x7d' = { t.closeLevel.2 with wordStart := false } := by
      simp [ShellTracker.stepChar, htc, hto]
    rw [hstep] at hwaits ⊢
    rw [if_pos rfl, hwaits.trans (awaits_idle ((pending_closeLevel t).trans hready.pending))]
    cases houter : t.outer with
    | nil =>
      have hnested := hready.nested
      rw [← hready.outer, houter, List.map_nil] at hnested
      cases hbrace.symm.trans hnested
    | cons around rest =>
      rw [closeLevel_expansion houter (by rw [show t.level.opener = .brace from hto]; decide)]
      change Guarded _ _ (cs.closeCommand .brace)
      exact h.closes houter (hready.around houter).1 (by decide) rfl rfl rfl rfl rfl rfl
  rw [if_neg hclose]
  have hkept : ∀ token waits', Guarded { t with pending := .token token, wordStart := false } waits' cs :=
    fun _ _ => h.inBraces hto t.level.context rfl rfl rfl hbare (by rintro _ ⟨⟩)
  by_cases hless : c = '<'
  · subst hless
    have hstep : t.stepChar '<' = { t with pending := .token .less, wordStart := false } := by
      simp [ShellTracker.stepChar, htc]
    rw [hstep]
    exact hkept .less _
  by_cases hgreater : c = '>'
  · subst hgreater
    have hstep : t.stepChar '>' = { t with pending := .token .redirect, wordStart := false } := by
      simp [ShellTracker.stepChar, htc]
    rw [hstep]
    exact hkept .redirect _
  · have hcomment : ¬(c = '#' ∧ t.wordStart = true) := by
      rintro ⟨hc', hstart⟩
      rw [hhash hc'] at hstart
      cases hstart
    have hstep : t.stepChar c = t := by
      simp [ShellTracker.stepChar, htc, hto, hdollar, htick, hcomment, hsingle, hdouble, hless, hgreater, hclose]
    rw [hstep]
    exact h.inBraces hto t.level.context rfl rfl rfl hbare fun hbare' hstart =>
      (h.cleared (.inr ⟨hbare', hstart⟩)).1

/-! ### One character of a command -/

/-- Where both stand, in unquoted text of a command, before an ordinary character. -/
structure InCommand (t : ShellTracker) (l : Lexer) (waits : Bool) (cs : Commands) : Prop where
  guarded : Guarded t waits cs
  ready : Ready t l
  context : l.frame.context = .bare
  opener : l.frame.opener ≠ .brace
  starts : waits = true → t.word.redirectOperand = true
  operand : waits = true → l.position = .operand

theorem InCommand.bare (h : InCommand t l waits cs) : t.context = .bare := h.ready.context.trans h.context

theorem InCommand.command (h : InCommand t l waits cs) : t.opener ≠ .brace := h.ready.opener ▸ h.opener

theorem InCommand.idle (h : InCommand t l waits cs) (hposition : l.position ≠ .operand) : waits = false := by
  cases hwaits : waits with
  | false => rfl
  | true => exact absurd (h.operand hwaits) hposition

theorem plainEvents_command (hc : l.frame.context = .bare) (ho : l.frame.opener ≠ .brace) {c : Char} (hdollar : c ≠ '$')
    (hsingle : c ≠ '\'') (hdouble : c ≠ '"') :
    l.plainEvents c =
      if c = '(' then [.opens .group]
      else if c = ')' then [.closes l.frame.opener]
      else if c = '<' || c = '>' then [.redirect]
      else if c = ' ' || c = '\t' then [.blank]
      else if c = '\n' then [.newline]
      else if c = '&' || c = '|' then if l.position = .operand then [] else [.separator]
      else if c = ';' then [.separator]
      else if c = '#' && l.position.startsToken then []
      else [.bare c] := by
  unfold Lexer.plainEvents
  rw [if_neg hdollar, if_neg (by rw [hc]; decide), if_neg (by simp [hsingle, hdouble]), if_neg ho]

theorem InCommand.quote (h : InCommand t l waits cs) :
    Guarded (t.stepChar '\'') false ((l.plainEvents '\'').foldl Commands.read cs) ∧
      Guarded (t.stepChar '"') false ((l.plainEvents '"').foldl Commands.read cs) := by
  have hsingle : t.stepChar '\'' = { t.setContext .singleQuoted with word := { t.word with isOpaque := true } } := by
    simp [stepChar, h.bare]
  have hdouble : t.stepChar '"' = { t.setContext .doubleQuoted with word := { t.word with isOpaque := true } } := by
    simp [stepChar, h.bare]
  have hevents : l.plainEvents '\'' = [.quoted []] ∧ l.plainEvents '"' = [.quoted []] := by
    simp [Lexer.plainEvents, h.context]
  rw [hsingle, hdouble, hevents.1, hevents.2]
  constructor
  · change Guarded _ false (cs.read (.quoted []))
    refine h.guarded.quotation h.starts .singleQuoted ?_ ?_ ?_ ?_ ?_ (by decide) (by rintro ⟨⟩)
    all_goals rfl
  · change Guarded _ false (cs.read (.quoted []))
    refine h.guarded.quotation h.starts .doubleQuoted ?_ ?_ ?_ ?_ ?_ (by decide) (by rintro ⟨⟩)
    all_goals rfl

theorem InCommand.redirect (h : InCommand t l waits cs) {c : Char} (hc : c = '<' ∨ c = '>')
    (hmisread : cs.misreads (l.plainEvents c) = false) :
    Guarded (t.stepChar c) true ((l.plainEvents c).foldl Commands.read cs) := by
  have hstep : ∃ token, t.stepChar c = { t with pending := .token token, wordStart := false } := by
    rcases hc with rfl | rfl
    · exact ⟨.less, by simp [stepChar, h.bare]⟩
    · exact ⟨.redirect, by simp [stepChar, h.bare]⟩
  have hevents : l.plainEvents c = [.redirect] := by
    rcases hc with rfl | rfl <;> simp [Lexer.plainEvents, h.context, h.opener]
  obtain ⟨token, hstep⟩ := hstep
  rw [hevents] at hmisread ⊢
  rw [hstep]
  simp only [Commands.misreads, Commands.misread, Bool.or_false, Bool.or_eq_false_iff] at hmisread
  refine h.guarded.reads .bare ?_ rfl id (h.guarded.guards.redirect hmisread.1 hmisread.2 _) ?_ ?_ ?_
  · rw [← h.bare]
    rfl
  · intro hnested
    rw [hnested]
    rfl
  · rintro (⟨⟨⟩⟩ | ⟨⟨⟩⟩)
  · rintro (⟨⟨⟩⟩ | ⟨_, ⟨⟩⟩)

theorem InCommand.opens (h : InCommand t l waits cs) (hmisread : cs.misreads (l.plainEvents '(') = false) :
    Guarded (t.stepChar '(') false ((l.plainEvents '(').foldl Commands.read cs) := by
  have hstep : t.stepChar '(' = (t.endWord true).openLevel .group := by
    simp [stepChar, h.bare, h.command]
  have hevents : l.plainEvents '(' = [.opens .group] := by
    simp [Lexer.plainEvents, h.context, h.opener]
  rw [hevents] at hmisread ⊢
  rw [hstep]
  simp only [Commands.misreads, Commands.misread, Bool.or_false] at hmisread
  exact h.guarded.opens_group hmisread

theorem InCommand.closes (h : InCommand t l waits cs) :
    Guarded (t.stepChar ')') false ((l.plainEvents ')').foldl Commands.read cs) := by
  have hevents : l.plainEvents ')' = [.closes l.frame.opener] := by
    simp [Lexer.plainEvents, h.context, h.opener]
  obtain ⟨hword, hposition, hreparsing, hlevel, hlevels⟩ := endWord_true t
  have hopener : (t.endWord true).level.opener = l.frame.opener := by
    rw [hlevel]
    exact h.ready.opener
  rw [hevents, stepChar_closing h.bare h.command]
  change Guarded _ _ (cs.closeCommand l.frame.opener)
  cases houter : t.outer with
  | nil =>
    have hstacked := h.guarded.stacked
    rw [houter] at hstacked
    rcases stacked_close hstacked with ⟨_, hcommands⟩ | ⟨_, _, _, _, hcons, _⟩
    · rw [closeLevel_nil (hlevels.trans houter)]
      unfold Commands.closeCommand
      rw [hcommands]
      refine guarded_start rfl ?_ (.inl ?_) ?_ (by rintro ⟨⟩) ?_ false
      · change { (t.endWord true).word with isOpaque := false } = Word.empty
        rw [hword]
        rfl
      · change (t.endWord true).level.context = .bare
        rw [hlevel]
        exact h.bare
      · change (t.endWord true).level.opener ≠ .brace
        rw [hlevel]
        exact h.command
      · change Stacked (t.endWord true).level (t.endWord true).outer []
        rw [hlevels, houter]
        trivial
    · cases hcons
  | cons around rest =>
    have haround := h.ready.around houter
    by_cases hgroup : l.frame.opener = .group
    · rw [closeLevel_group (hlevels.trans houter) (hopener.trans hgroup), hgroup]
      refine h.guarded.closes_group houter (haround.2 hgroup).1 (haround.2 hgroup).2 rfl rfl ?_ ?_ ?_
      · dsimp only [Option.all_some]
        rw [hopener, hgroup]
        rfl
      · change (t.endWord true).level.outerReparsing = _
        rw [hlevel]
      · exact hword
    · rw [closeLevel_expansion (hlevels.trans houter) (hopener ▸ hgroup)]
      refine h.guarded.closes houter haround.1 hgroup rfl rfl ?_ ?_ ?_ ?_
      · dsimp only [Option.all_some]
        rw [hopener, decide_eq_false hgroup, hlevel]
        rfl
      · change (t.endWord true).level.outerReparsing = _
        rw [hlevel]
      · change (t.endWord true).level.outerRedirectOperand = _
        rw [hlevel]
      · dsimp only [Option.all_some]
        rw [hopener, decide_eq_false hgroup]

theorem InCommand.blank (h : InCommand t l waits cs) {c : Char} (hc : c = ' ' ∨ c = '\t')
    (hposition : l.position ≠ .operand)
    (hmisread : cs.misreads (l.plainEvents c) = false) :
    Guarded (t.stepChar c) false ((l.plainEvents c).foldl Commands.read cs) := by
  have hidle := h.idle hposition
  subst hidle
  have hstep : t.stepChar c = { t.endWord false with wordStart := true } := by
    rcases hc with rfl | rfl <;> simp [stepChar, h.bare, h.command]
  have hevents : l.plainEvents c = [.blank] := by
    rcases hc with rfl | rfl <;> simp [Lexer.plainEvents, h.context, h.opener]
  rw [hevents] at hmisread ⊢
  rw [hstep]
  simp only [Commands.misreads, Commands.misread, Bool.or_false] at hmisread
  have hended := wordEnded t false
  refine h.guarded.reads .bare ?_ hended.outer (endWord_raised t) (h.guarded.guards.blank hmisread) ?_ ?_ ?_
  · rw [← h.bare]
    exact hended.level
  · intro hnested
    rw [hnested]
    rfl
  · rintro (⟨⟨⟩⟩ | ⟨⟨⟩⟩)
  · refine fun _ => ⟨?_, endWord_word cs.command⟩
    exact congrArg (fun word : Word => { word with isOpaque := false }) (endWord_false t).1

theorem nextLine_start (role : Role) : ∃ third, role.nextLine = .start third := by
  unfold Role.nextLine
  split <;> exact ⟨_, rfl⟩

/-- The next command starts. -/
theorem InCommand.starts_command (h : InCommand t l waits cs) (houter : cs.outer.any Command.exposes = false)
    (third : Bool) :
    Guarded { t.endWord true with wordStart := true } false ⟨⟨.start third, .new, false⟩, cs.outer⟩ := by
  obtain ⟨hword, hposition, hreparsing, hlevel, hlevels⟩ := endWord_true t
  refine guarded_start ?_ ?_ (.inl ?_) ?_ ?_ ?_ third
  · exact hposition
  · change { (t.endWord true).word with isOpaque := false } = Word.empty
    rw [hword]
    rfl
  · change (t.endWord true).level.context = .bare
    rw [hlevel]
    exact h.bare
  · change (t.endWord true).level.opener ≠ .brace
    rw [hlevel]
    exact h.command
  · rw [houter]
    rintro ⟨⟩
  · change Stacked (t.endWord true).level (t.endWord true).outer cs.outer
    rw [hlevel, hlevels]
    exact h.guarded.stacked

theorem InCommand.separator (h : InCommand t l waits cs) {c : Char} (hc : c ∈ ['\n', ';', '&', '|'])
    (hpipe : c = '&' ∨ c = '|' → l.position ≠ .operand) (hmisread : cs.misreads (l.plainEvents c) = false) :
    Guarded (t.stepChar c) false ((l.plainEvents c).foldl Commands.read cs) := by
  simp only [List.mem_cons, List.not_mem_nil, or_false] at hc
  have hstep : t.stepChar c = { t.endWord true with wordStart := true } := by
    obtain rfl | rfl | rfl | rfl := hc <;> simp [stepChar, h.bare, h.command]
  rw [hstep]
  by_cases hline : c = '\n'
  · have hevents : l.plainEvents c = [.newline] := by
      subst hline
      simp [Lexer.plainEvents, h.context, h.opener]
    rw [hevents] at hmisread ⊢
    simp only [Commands.misreads, Commands.misread, Bool.or_false] at hmisread
    obtain ⟨third, hthird⟩ := nextLine_start cs.command.endWord.role
    change Guarded _ _ ⟨⟨cs.command.endWord.role.nextLine, .new, false⟩, cs.outer⟩
    rw [hthird]
    exact h.starts_command hmisread third
  · have hevents : l.plainEvents c = [.separator] := by
      obtain rfl | rfl | rfl | rfl := hc
      · exact absurd rfl hline
      · simp [Lexer.plainEvents, h.context, h.opener]
      · simp [Lexer.plainEvents, h.context, h.opener, hpipe (.inl rfl)]
      · simp [Lexer.plainEvents, h.context, h.opener, hpipe (.inr rfl)]
    rw [hevents] at hmisread ⊢
    simp only [Commands.misreads, Commands.misread, Bool.or_false] at hmisread
    exact h.starts_command hmisread false

/-- Before a word starts the tracker may as well have nothing recorded. -/
theorem Guards.fresh (h : Guards commandWord reparsing waits word r)
    (hnew : r.word = .new) : Guards commandWord reparsing waits .empty r where
  nested := h.nested
  position := h.position
  reread := h.reread
  waiting := h.waiting
  operand hoperand := (h.operand hoperand).imp_right fun hstarted => absurd hnew hstarted.2
  spelled hcommand hoperand := by
    rw [hnew]
    exact spelled_new reparsing rfl

theorem InCommand.pushes (h : InCommand t l waits cs) {c : Char}
    (hplain : c ∉ ['$', '`', '\'', '"', '<', '>', '(', ')', ' ', '\t', '\n', ';', '&', '|'])
    (hhash : c = '#' → t.wordStart = false ∧ l.position.startsToken = false) :
    Guarded (t.stepChar c) false ((l.plainEvents c).foldl Commands.read cs) := by
  rw [stepChar_plain h.bare h.command hplain fun hc => (hhash hc).1]
  simp only [List.mem_cons, List.not_mem_nil, or_false, not_or] at hplain
  have hevents : l.plainEvents c = [.bare c] := by
    rw [plainEvents_command h.context h.opener hplain.1 hplain.2.2.1 hplain.2.2.2.1]
    simp only [hplain, decide_false, Bool.or_self, if_false, Bool.false_eq_true]
    rw [if_neg]
    intro hboth
    obtain ⟨hc, hstarts⟩ := Bool.and_eq_true_iff.mp hboth
    rw [(hhash (of_decide_eq_true hc)).2] at hstarts
    cases hstarts
  rw [hevents]
  have hpush : ∀ t₀ : ShellTracker, { t₀.noteWordChar c with wordStart := false }.word =
      (if t₀.wordStart then Word.empty else t₀.word).push c := fun _ => rfl
  refine h.guarded.reads t.level.context rfl rfl id ?_ ?_ ?_ ?_
  · cases hstart : t.wordStart with
    | false =>
      rw [hpush, hstart]
      exact h.guarded.guards.push h.starts c
    | true =>
      obtain ⟨hempty, hnew⟩ := h.guarded.cleared (.inr ⟨h.bare, hstart⟩)
      rw [hpush, hstart]
      refine (h.guarded.guards.fresh hnew).push (fun hwaits => ?_) c
      have hoperand : t.word.redirectOperand = false := congrArg Word.redirectOperand hempty
      rw [h.starts hwaits] at hoperand
      cases hoperand
  · intro hnested
    rw [hnested]
    rfl
  · rw [show t.level.context = .bare from h.bare]
    rintro (⟨⟨⟩⟩ | ⟨⟨⟩⟩)
  · rw [show t.level.context = .bare from h.bare]
    rintro (⟨⟨⟩⟩ | ⟨_, ⟨⟩⟩)

/-- A `#` at the start of a token comments out the rest of the line. -/
theorem InCommand.hash (h : InCommand t l waits cs) (hposition : l.position ≠ .operand) :
    Guarded (t.stepChar '#') false ((l.plainEvents '#').foldl Commands.read cs) := by
  have hidle := h.idle hposition
  subst hidle
  cases h.ready.place with
  | double hdouble => cases h.context.symm.trans hdouble
  | braces _ hbrace => exact absurd hbrace h.opener
  | operand _ _ hoperand => exact absurd hoperand hposition
  | fresh _ _ hfresh hstart =>
    have hstarts : l.position.startsToken = true := by
      rcases hfresh with hfresh | hfresh <;> rw [hfresh] <;> rfl
    have hstep : t.stepChar '#' = t.setContext .comment := by
      simp [stepChar, h.bare, hstart]
    have hevents : l.plainEvents '#' = [] := by
      simp [Lexer.plainEvents, h.context, h.opener, hstarts]
    rw [hstep, hevents]
    exact h.guarded.reads .comment rfl rfl id h.guarded.guards id (by rintro (⟨⟨⟩⟩ | ⟨⟨⟩⟩))
      fun _ => h.guarded.cleared (.inr ⟨h.bare, hstart⟩)
  | word _ _ hword hstart _ =>
    refine h.pushes (by decide) fun _ => ⟨hstart, ?_⟩
    rw [hword]
    rfl

/-- Only a `$` and, outside double quotes, `<` and `>` wait for the next character. -/
theorem pending_stepChar (hpending : t.pending = .token .none) {c : Char} (hdollar : c ≠ '$') (hless : c ≠ '<')
    (hgreater : c ≠ '>') : (t.stepChar c).pending = .token .none := by
  have hended : ∀ b, (t.endWord b).pending = .token .none := fun b => (wordEnded t b).pending.trans hpending
  let Idle (t' : ShellTracker) : Prop := t'.pending = .token .none
  change Idle (t.stepChar c)
  unfold stepChar
  refine iteInduction (motive := Idle) (fun h => absurd h hdollar) fun _ => ?_
  refine iteInduction (motive := Idle) (fun _ => hpending) fun _ => ?_
  refine iteInduction (motive := Idle) (fun _ => ?_) fun _ => ?_
  · exact iteInduction (motive := Idle) (fun _ => hpending) fun _ => hpending
  refine iteInduction (motive := Idle) (fun _ => hpending) fun _ => ?_
  refine iteInduction (motive := Idle) (fun _ => hpending) fun _ => ?_
  refine iteInduction (motive := Idle) (fun _ => hpending) fun _ => ?_
  refine iteInduction (motive := Idle) (fun h => absurd h hless) fun _ => ?_
  refine iteInduction (motive := Idle) (fun h => absurd h hgreater) fun _ => ?_
  refine iteInduction (motive := Idle) (fun _ => ?_) fun _ => ?_
  · exact iteInduction (motive := Idle) (fun _ => (pending_closeLevel t).trans hpending) fun _ => hpending
  refine iteInduction (motive := Idle) (fun _ => hended true) fun _ => ?_
  refine iteInduction (motive := Idle) (fun _ => (pending_closeLevel _).trans (hended true)) fun _ => ?_
  refine iteInduction (motive := Idle) (fun _ => hended false) fun _ => ?_
  exact iteInduction (motive := Idle) (fun _ => hended true) fun _ => hpending

/-- An ordinary character of a command is to the tracker what it is to the shell. -/
theorem InCommand.stepChar (h : InCommand t l waits cs) {c : Char} (hdollar : c ≠ '$') (htick : c ≠ '`')
    (hblank : l.position = .operand → c ≠ ' ' ∧ c ≠ '\t') (hhash : c = '#' → l.position ≠ .operand)
    (hpipe : c = '&' ∨ c = '|' → l.position ≠ .operand) (hmisread : cs.misreads (l.plainEvents c) = false) :
    Guarded (t.stepChar c) (t.stepChar c).awaitsOperand ((l.plainEvents c).foldl Commands.read cs) := by
  by_cases hredirect : c = '<' ∨ c = '>'
  · have hawaits : (t.stepChar c).awaitsOperand = true := by
      rcases hredirect with rfl | rfl <;> simp [ShellTracker.stepChar, h.bare, ShellTracker.awaitsOperand]
    rw [hawaits]
    exact h.redirect hredirect hmisread
  obtain ⟨hless, hgreater⟩ := not_or.mp hredirect
  rw [awaits_idle (pending_stepChar h.ready.pending hdollar hless hgreater)]
  by_cases hspecial : c ∈ ['$', '`', '\'', '"', '<', '>', '(', ')', ' ', '\t', '\n', ';', '&', '|']
  · simp only [List.mem_cons, List.not_mem_nil, or_false] at hspecial
    obtain rfl | rfl | rfl | rfl | rfl | rfl | rfl | rfl | hc | hc | hseparator := hspecial
    · exact absurd rfl hdollar
    · exact absurd rfl htick
    · exact h.quote.1
    · exact h.quote.2
    · exact absurd rfl hless
    · exact absurd rfl hgreater
    · exact h.opens hmisread
    · exact h.closes
    · exact h.blank (.inl hc) (fun hoperand => (hblank hoperand).1 hc) hmisread
    · exact h.blank (.inr hc) (fun hoperand => (hblank hoperand).2 hc) hmisread
    · exact h.separator (by simpa using hseparator) hpipe hmisread
  · by_cases hc : c = '#'
    · rw [hc]
      exact h.hash (hhash hc)
    · exact h.pushes hspecial fun hc' => absurd hc' hc

/-- What a plain character may not be where both stand, for the tracker to read it as the shell. -/
structure Harmless (l : Lexer) (cs : Commands) (c : Char) : Prop where
  blank : l.position = .operand → c ≠ ' ' ∧ c ≠ '\t'
  hash : c = '#' → l.frame.context = .bare → l.position ≠ .operand ∧ l.position ≠ .braces true
  pipe : c = '&' ∨ c = '|' → l.frame.context = .bare → l.position ≠ .operand
  commands : cs.misreads (l.plainEvents c) = false

theorem Guarded.stepChar (h : Guarded t waits cs) (hready : Ready t l)
    (hstarts : waits = true → t.word.redirectOperand = true)
    (hoperand : waits = true → l.frame.context = .bare ∧ l.position = .operand) {c : Char} (hplain : Harmless l cs c)
    (hnone : (t.stepChar c).unsupportedConstruct = none) :
    Guarded (t.stepChar c) (t.stepChar c).awaitsOperand ((l.plainEvents c).foldl Commands.read cs) := by
  have hcontext : t.context = .bare ∨ t.context = .doubleQuoted := by
    rw [hready.context]
    exact hready.place.context
  by_cases hdollar : c = '$'
  · subst hdollar
    have hevents : l.plainEvents '$' = [.expansion] := if_pos rfl
    have hawaits : (t.stepChar '$').awaitsOperand = false := by
      simp [ShellTracker.stepChar, ShellTracker.awaitsOperand]
    rw [hevents, hawaits]
    exact h.stepChar_dollar hstarts hcontext
  have htick : c ≠ '`' := by
    rintro rfl
    have hstep : t.stepChar '`' = t.flag "backticks" := by simp [ShellTracker.stepChar]
    rw [hstep] at hnone
    exact flag_ne_none t _ hnone
  cases hready.place with
  | double hc =>
    have hidle : waits = false := by
      cases hwaits : waits with
      | false => rfl
      | true => cases hc.symm.trans (hoperand hwaits).1
    subst hidle
    have hidle : (t.stepChar c).pending = .token .none := by
      unfold ShellTracker.stepChar
      rw [if_neg hdollar, if_neg htick, if_pos (hready.context.trans hc)]
      split <;> exact hready.pending
    rw [awaits_idle hidle]
    exact h.stepChar_double hready hc hdollar htick
  | braces hc ho hposition hstart =>
    refine h.stepChar_braces hready hc ho hdollar htick (fun hc' => ?_) rfl
    have hbroken := (hplain.hash hc' hc).2
    rw [hposition] at hbroken
    rw [hstart]
    simpa using hbroken
  | fresh hc ho | operand hc ho | word hc ho =>
    have hcommand : InCommand t l waits cs := ⟨h, hready, hc, ho, hstarts, fun hwaits => (hoperand hwaits).2⟩
    exact hcommand.stepChar hdollar htick hplain.blank (fun hc' => (hplain.hash hc' hc).1)
      (fun hc' => hplain.pipe hc' hc) hplain.commands

end Aviso.Template
