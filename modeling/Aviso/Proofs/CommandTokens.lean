import Aviso.Proofs.CommandSteps

namespace Aviso.Template
open ShellTracker
open Posix

variable {commandWord reparsing waits : Bool} {word word' : Word} {r : Command} {t : ShellTracker} {l : Lexer}
  {cs : Commands}

/-! ### Tokens and escapes -/

theorem Guarded.setPending (h : Guarded t waits cs) (pending : Pending) :
    Guarded { t with pending := pending } waits cs :=
  ⟨h.guards, h.braces, h.enclosed, h.cleared, h.inherited, h.stacked⟩

theorem Guards.setOpaque (h : Guards commandWord reparsing waits word r) :
    Guards commandWord reparsing waits { word with isOpaque := true } r where
  nested := h.nested
  position := h.position
  reread := h.reread
  waiting := h.waiting
  operand := h.operand
  spelled hcommand hoperand :=
    have hspelled := h.spelled hcommand hoperand
    ⟨hspelled.operand, hspelled.assignment, hspelled.recorded.setOpaque⟩

/-- Until the operand of a redirection starts, the tracker's word does not matter. -/
theorem Guards.setWaiting (h : Guards commandWord reparsing true word r) (word' : Word) :
    Guards commandWord reparsing true word' r where
  nested := h.nested
  position := h.position
  reread := h.reread
  waiting := h.waiting
  operand _ := .inl rfl
  spelled hcommand hoperand := by
    rcases h.waiting rfl with hnested | ⟨hoperand', _⟩
    · rw [hnested] at hcommand
      cases hcommand
    · rw [hoperand] at hoperand'
      cases hoperand'

theorem Guarded.setOpaque (h : Guarded t waits cs) :
    Guarded { t with wordStart := false, word := { t.word with isOpaque := true } } waits cs := by
  refine ⟨h.guards.setOpaque, h.braces, h.enclosed, ?_, h.inherited, h.stacked⟩
  rintro (hcomment | ⟨_, ⟨⟩⟩)
  exact h.cleared (.inl hcomment)

/-- Where the tracker reads what a character is to the commands as the shell does not. -/
inductive Posix.Misread (l : Lexer) (cs : Commands) (c : Char) : Prop where
  /-- It slips in the quoting or the nesting. -/
  | slip : Slip l c → Posix.Misread l cs c
  /-- The `&` of `>&` and `<&`, and the `|` of `>|`, are taken for separators. -/
  | operator : l.frame.context = .bare → l.position = .operand → l.escaped = false → c = '&' ∨ c = '|' →
      Posix.Misread l cs c
  /-- An operand that starts with an escape is not taken for one. -/
  | escaped : l.frame.context = .bare → l.position = .operand → l.escaped = true → c ≠ '\n' → Posix.Misread l cs c
  | commands : cs.misreads (l.events c) = true → Posix.Misread l cs c

/-- The parameter's name, or the expansion, is read alike. -/
theorem Guarded.stepToken_dollar (h : Guarded t false cs) (hexpanding : Expanding t l) {c : Char}
    (hmisread : cs.misreads (if c = '(' then [] else if c = '\x7b' then [.opens .brace]
      else if Lexer.startsName c || Lexer.isParameter c then [.expansion] else l.plainEvents c) = false)
    (hnone : (t.stepToken .dollar c).unsupportedConstruct = none) :
    Guarded (t.stepToken .dollar c) (t.stepToken .dollar c).awaitsOperand
      ((if c = '(' then [] else if c = '\x7b' then [.opens .brace]
        else if Lexer.startsName c || Lexer.isParameter c then [.expansion]
        else l.plainEvents c).foldl Commands.read cs) := by
  have htc : t.context = l.frame.context := congrArg Frame.context (List.cons.inj hexpanding.frames).1
  have hcomment : t.context ≠ .comment := by
    rw [htc]
    rcases hexpanding.context with hc | hc <;> rw [hc] <;> decide
  unfold stepToken at hnone ⊢
  dsimp only at hnone ⊢
  by_cases hparen : c = '('
  · rw [if_pos hparen, if_pos hparen]
    exact h.setPending _
  rw [if_neg hparen] at hnone ⊢
  rw [if_neg hparen]
  by_cases hbrace : c = '\x7b'
  · rw [if_pos hbrace] at hnone ⊢
    rw [if_pos hbrace]
    rcases hexpanding.context with hc | hc
    · rw [if_neg (by rw [htc, hc]; decide)]
      have hidle : (t.openLevel .brace).awaitsOperand = false := awaits_idle hexpanding.pending
      rw [hidle]
      exact h.opens (by rintro ⟨⟩) (by decide)
    · rw [if_pos (htc.trans hc)] at hnone
      exact absurd hnone (flag_ne_none t _)
  rw [if_neg hbrace] at hnone ⊢
  rw [isParameterChar_eq] at hnone ⊢
  rw [if_neg hbrace]
  by_cases hname : (Lexer.startsName c || Lexer.isParameter c) = true
  · rw [if_pos hname, if_pos hname]
    rw [awaits_idle (t := { t with wordStart := false, word := { t.word with isOpaque := true } }) hexpanding.pending]
    exact h.expansion (by rintro ⟨⟩) rfl rfl rfl rfl rfl id hcomment fun _ => rfl
  · rw [if_neg hname] at hnone ⊢
    rw [if_neg hparen, if_neg hbrace, if_neg hname] at hmisread
    rw [if_neg hname]
    have hexpanding' : Expanding { t with wordStart := false, word := { t.word with isOpaque := true } }
        { l with ahead := .none } :=
      ⟨hexpanding.frames, hexpanding.nested, hexpanding.context, hexpanding.position, fun _ => rfl, hexpanding.pending,
        hexpanding.escaped⟩
    obtain ⟨hoperand, hbraces, -⟩ := hexpanding.position ▸ inside_ne l.frame
    exact h.setOpaque.stepChar (hexpanding'.ready rfl rfl) (by rintro ⟨⟩) (by rintro ⟨⟩)
      ⟨fun hposition => absurd hposition hoperand, fun _ _ => ⟨hoperand, hbraces⟩, fun _ _ => hoperand, hmisread⟩ hnone

theorem Guarded.stepToken_dollarParen (h : Guarded t false cs) (hexpanding : Expanding t l) {c : Char}
    (hmisread : cs.misreads (.opens .substitution :: (l.openFrame .substitution).plainEvents c) = false)
    (hnone : (t.stepToken .dollarParen c).unsupportedConstruct = none) :
    Guarded (t.stepToken .dollarParen c) (t.stepToken .dollarParen c).awaitsOperand
      ((.opens .substitution :: (l.openFrame .substitution).plainEvents c).foldl Commands.read cs) := by
  unfold stepToken at hnone ⊢
  dsimp only at hnone ⊢
  by_cases hparen : c = '('
  · rw [if_pos hparen] at hnone
    exact absurd hnone (flag_ne_none t _)
  rw [if_neg hparen] at hnone ⊢
  have hready : Ready (t.openLevel .substitution) (l.openFrame .substitution) := by
    refine ⟨?_, hexpanding.nested.openFrame hexpanding.context _ (by rintro ⟨⟩), hexpanding.pending, rfl, rfl,
      .fresh rfl ?_ (.inl rfl) rfl⟩
    · rw [frames_openLevel, hexpanding.frames]
      rfl
    · rintro ⟨⟩
  rw [Commands.misreads, Bool.or_eq_false_iff] at hmisread
  have hopened : Guarded (t.openLevel .substitution) false (cs.read (.opens .substitution)) :=
    h.opens (by rintro ⟨⟩) (by decide)
  exact hopened.stepChar hready (by rintro ⟨⟩) (by rintro ⟨⟩)
    ⟨by rintro ⟨⟩, fun _ _ => ⟨by rintro ⟨⟩, by rintro ⟨⟩⟩, fun _ _ => by rintro ⟨⟩, hmisread.2⟩ hnone

/-- The rest of a parameter's name is recorded, but the word is known to be an expansion. -/
theorem Guarded.stepChar_continuesName (h : Guarded t false cs) (hexpanding : Expanding t l) {c : Char}
    (hname : Lexer.continuesName c = true) : Guarded (t.stepChar c) false (cs.read .expansion) := by
  have htc : t.context = l.frame.context := congrArg Frame.context (List.cons.inj hexpanding.frames).1
  have hplain := continuesName_plain hname
  have hcomment : t.context ≠ .comment := by
    rw [htc]
    rcases hexpanding.context with hc | hc <;> rw [hc] <;> decide
  have hsame : t.context ≠ .bare ∨ t.opener = .brace → t.stepChar c = t := by
    intro hwhere
    simp only [List.mem_cons, List.not_mem_nil, or_false, not_or] at hplain
    rcases hexpanding.context with hc | hc
    · rcases hwhere with hbare | hbrace
      · exact absurd (htc.trans hc) hbare
      · simp [ShellTracker.stepChar, htc, hc, hbrace, hplain]
    · simp [ShellTracker.stepChar, htc, hc, hplain]
  have hstart : t.context = .bare → t.wordStart = false := fun hbare => hexpanding.wordStart (htc.symm.trans hbare)
  by_cases hwhere : t.context ≠ .bare ∨ t.opener = .brace
  · rw [hsame hwhere]
    exact h.expansion (by rintro ⟨⟩) rfl rfl rfl rfl rfl id hcomment hstart
  · obtain ⟨hbare, hbrace⟩ := not_or.mp hwhere
    rw [not_not] at hbare
    have hordinary : c ∉ ['$', '`', '\'', '"', '<', '>', '(', ')', ' ', '\t', '\n', ';', '&', '|'] :=
      fun hmem => hplain (List.mem_append_left ['#', '\x7d'] hmem)
    rw [stepChar_plain hbare hbrace hordinary fun _ => hstart hbare]
    have hword : { t.noteWordChar c with wordStart := false }.word = t.word.push c := by
      unfold noteWordChar
      rw [hstart hbare]
      rfl
    refine h.expansion (by rintro ⟨⟩) rfl rfl rfl rfl ?_ ?_ hcomment fun _ => rfl
    · rw [hword, Word.push_redirectOperand]
    · rw [hword, Word.push_assignment]
      intro hassigns
      rw [hassigns]
      rfl

theorem Guarded.stepToken_name (h : Guarded t false cs) (hexpanding : Expanding t l) {c : Char}
    (hmisread : cs.misreads (if Lexer.continuesName c then [.expansion] else l.plainEvents c) = false)
    (hnone : (t.stepChar c).unsupportedConstruct = none) :
    Guarded (t.stepChar c) (t.stepChar c).awaitsOperand
      ((if Lexer.continuesName c then [.expansion] else l.plainEvents c).foldl Commands.read cs) := by
  by_cases hname : Lexer.continuesName c = true
  · rw [if_pos hname]
    have hplain := continuesName_plain hname
    simp only [List.mem_cons, List.not_mem_nil, or_false, not_or] at hplain
    obtain ⟨hdollar, _, _, _, hless, hgreater, _⟩ := hplain
    rw [awaits_idle (pending_stepChar hexpanding.pending hdollar hless hgreater)]
    exact h.stepChar_continuesName hexpanding hname
  · rw [if_neg hname] at hmisread ⊢
    obtain ⟨hoperand, hbraces, -⟩ := hexpanding.position ▸ inside_ne l.frame
    have hready : Ready t { l with ahead := .none } := by
      refine ⟨hexpanding.frames, hexpanding.nested, hexpanding.pending, rfl, hexpanding.escaped, ?_⟩
      rcases hexpanding.context with hc | hc
      · have hexpanding' : Expanding t { l with ahead := .none } :=
          ⟨hexpanding.frames, hexpanding.nested, hexpanding.context, hexpanding.position, hexpanding.wordStart,
            hexpanding.pending, hexpanding.escaped⟩
        exact (hexpanding'.ready (hexpanding.wordStart hc) rfl).place
      · exact .double hc hexpanding.position
    exact h.stepChar hready (by rintro ⟨⟩) (by rintro ⟨⟩)
      ⟨fun hposition => absurd hposition hoperand, fun _ _ => ⟨hoperand, hbraces⟩, fun _ _ => hoperand, hmisread⟩ hnone

theorem redirect_word (r : Command) : r.redirect.word = .new ∨ r.redirect = r := by
  unfold Command.redirect
  dsimp only
  split
  · exact .inr rfl
  · exact .inl rfl

/-- Both wait for the operand of a redirection. -/
structure Awaiting (t : ShellTracker) (l : Lexer) (cs : Commands) : Prop where
  guarded : Guarded t true cs
  redirecting : Redirecting t l
  frames : t.frames = l.frames
  nested : Nested l.frame l.outer
  context : l.frame.context = .bare
  pending : t.pending = .token .none
  escaped : l.escaped = false

theorem Awaiting.bare (h : Awaiting t l cs) : t.level.context = .bare :=
  (congrArg Frame.context (List.cons.inj h.frames).1).trans h.context

theorem Awaiting.stays (h : Awaiting t l cs) {c : Char} (hwaits : c = '>' ∨ c = ' ' ∨ c = '\t')
    (hcommands : cs.misreads (l.plainEvents c) = false) :
    Guarded { t with pending := .token .redirect } true ((l.plainEvents c).foldl Commands.read cs) := by
  cases h.redirecting with
  | command ho hposition =>
    by_cases hgreater : c = '>'
    · have hevents : l.plainEvents c = [.redirect] := by
        subst hgreater
        simp [Lexer.plainEvents, h.context, ho]
      rw [hevents] at hcommands ⊢
      simp only [Commands.misreads, Commands.misread, Bool.or_false, Bool.or_eq_false_iff] at hcommands
      refine h.guarded.reads t.level.context rfl rfl id
        (h.guarded.guards.redirect hcommands.1 hcommands.2 t.word) ?_ ?_ ?_
      · intro hnested
        rw [hnested]
        rfl
      · rw [h.bare]
        rintro (⟨⟨⟩⟩ | ⟨⟨⟩⟩)
      · intro hcleared
        obtain ⟨hempty, hnew⟩ := h.guarded.cleared hcleared
        refine ⟨hempty, ?_⟩
        rcases redirect_word cs.command with hword | hsame
        · exact hword
        · rw [hsame, hnew]
    · have hblank : c = ' ' ∨ c = '\t' := hwaits.resolve_left hgreater
      have hevents : l.plainEvents c = [.blank] := by
        rcases hblank with rfl | rfl <;> simp [Lexer.plainEvents, h.context, ho]
      have hkept : cs.read .blank = cs := by
        unfold Commands.read
        dsimp only
        have hnew : cs.command.word = .new := by
          rcases h.guarded.guards.waiting rfl with hnested | ⟨_, hnew⟩
          · rw [hnested]
            rfl
          · exact hnew
        unfold Command.endWord
        rw [if_pos hnew]
      rw [hevents]
      change Guarded _ _ (cs.read .blank)
      rw [hkept]
      exact h.guarded.setPending _
  | braces ho hposition hstart =>
    have hevents : l.plainEvents c = [] := by
      rcases hwaits with rfl | rfl | rfl <;> simp [Lexer.plainEvents, h.context, ho]
    rw [hevents]
    exact h.guarded.setPending _

/-- The tracker when the operand starts. -/
def ShellTracker.startOperand (t : ShellTracker) : ShellTracker :=
  { t with word := { Word.empty with redirectOperand := true }, wordStart := false }

/-- The operand starts with this character. -/
theorem Awaiting.starts (h : Awaiting t l cs) {c : Char} (hblank : c ≠ ' ' ∧ c ≠ '\t') (hmisread : ¬Misread l cs c)
    (hcommands : cs.misreads (l.plainEvents c) = false)
    (hnone : (t.startOperand.stepChar c).unsupportedConstruct = none) :
    Guarded (t.startOperand.stepChar c) (t.startOperand.stepChar c).awaitsOperand
      ((l.plainEvents c).foldl Commands.read cs) := by
  have hready : Place t.startOperand { l with ahead := .none } → Ready t.startOperand { l with ahead := .none } :=
    fun hplace => ⟨h.frames, h.nested, h.pending, rfl, h.escaped, hplace⟩
  cases h.redirecting with
  | command ho hposition =>
    have hstarted : Guarded t.startOperand true cs := by
      refine ⟨h.guarded.guards.setWaiting _, h.guarded.braces, h.guarded.enclosed, ?_, h.guarded.inherited,
        h.guarded.stacked⟩
      rintro (hcomment | ⟨_, ⟨⟩⟩)
      cases h.bare.symm.trans hcomment
    have hhash : c ≠ '#' := fun hc => hmisread (.slip (.operand h.context hposition h.escaped hc))
    have hpipe : ¬(c = '&' ∨ c = '|') := fun hc => hmisread (.operator h.context hposition h.escaped hc)
    exact hstarted.stepChar (hready (.operand h.context ho hposition rfl rfl)) (fun _ => rfl)
      (fun _ => ⟨h.context, hposition⟩)
      ⟨fun _ => hblank, fun hc => absurd hc hhash, fun hc => absurd hc hpipe, hcommands⟩ hnone
  | braces ho hposition hstart =>
    have hopener : t.opener = .brace := (congrArg Frame.opener (List.cons.inj h.frames).1).trans ho
    have hstarted : Guarded t.startOperand false cs :=
      h.guarded.inBraces hopener t.level.context rfl rfl rfl (by rw [h.bare]; decide) (by rintro _ ⟨⟩)
    have hoperand : l.position ≠ .operand := by
      rw [hposition]
      rintro ⟨⟩
    have hplain : l.position ≠ .braces true := by
      rw [hposition]
      rintro ⟨⟩
    exact hstarted.stepChar (hready (.braces h.context ho hposition rfl)) (by rintro ⟨⟩) (by rintro ⟨⟩)
      ⟨fun hposition => absurd hposition hoperand, fun _ _ => ⟨hoperand, hplain⟩, fun _ _ => hoperand, hcommands⟩ hnone

/-- While the operand of a redirection has not started, the tracker waits with the shell. -/
theorem Awaiting.stepRedirect (h : Awaiting t l cs) {c : Char} (hmisread : ¬Misread l cs c)
    (hcommands : cs.misreads (l.plainEvents c) = false) (hnone : (t.stepRedirect c).unsupportedConstruct = none) :
    Guarded (t.stepRedirect c) (t.stepRedirect c).awaitsOperand ((l.plainEvents c).foldl Commands.read cs) := by
  unfold ShellTracker.stepRedirect at hnone ⊢
  by_cases hwaits : (c = '>' || c = ' ' || c = '\t') = true
  · rw [if_pos hwaits]
    have hawaits : ShellTracker.awaitsOperand { t with pending := .token .redirect } = true := rfl
    rw [hawaits]
    exact h.stays (by simpa [or_assoc] using hwaits) hcommands
  · rw [if_neg hwaits] at hnone ⊢
    simp only [Bool.or_eq_true, decide_eq_true_eq, not_or] at hwaits
    exact h.starts ⟨hwaits.1.2, hwaits.2⟩ hmisread hcommands hnone

/-- After one `<` no other may follow. -/
theorem Awaiting.stepLess (h : Awaiting t l cs) {c : Char} (hmisread : ¬Misread l cs c)
    (hcommands : cs.misreads (l.plainEvents c) = false) (hnone : (t.stepToken .less c).unsupportedConstruct = none) :
    Guarded (t.stepToken .less c) (t.stepToken .less c).awaitsOperand ((l.plainEvents c).foldl Commands.read cs) := by
  unfold ShellTracker.stepToken at hnone ⊢
  dsimp only at hnone ⊢
  by_cases hless : c = '<'
  · rw [if_pos hless] at hnone
    exact absurd hnone (flag_ne_none _ _)
  · rw [if_neg hless] at hnone ⊢
    exact h.stepRedirect hmisread hcommands hnone

/-! ### One character -/

theorem events_readable (hc : l.frame.context = .bare ∨ l.frame.context = .doubleQuoted) (hescaped : l.escaped = false)
    {c : Char} (hback : c ≠ '\\') :
    l.events c =
      match l.ahead with
      | .none | .less => l.plainEvents c
      | .dollar =>
        if c = '(' then []
        else if c = '\x7b' then [.opens .brace]
        else if Lexer.startsName c || Lexer.isParameter c then [.expansion]
        else l.plainEvents c
      | .dollarParen => .opens .substitution :: (l.openFrame .substitution).plainEvents c
      | .name => if Lexer.continuesName c then [.expansion] else l.plainEvents c := by
  unfold Lexer.events
  rcases hc with hc | hc
  all_goals
    rw [hc]
    exact (if_neg (by rw [hescaped]; decide)).trans (if_neg hback)

theorem commands_of_not_misread {c : Char} (h : ¬Misread l cs c) : cs.misreads (l.events c) = false := by
  by_contra hmisreads
  exact h (.commands (by simpa using hmisreads))

/-- Between two tokens the character stands for itself. -/
theorem Guarded.stepToken_none (h : Guarded t false cs) (hready : Ready t l) (hposition : l.position ≠ .operand)
    {c : Char} (hback : c ≠ '\\') (hmisread : ¬Misread l cs c)
    (hnone : (t.stepToken .none c).unsupportedConstruct = none) :
    Guarded (t.stepToken .none c) (t.stepToken .none c).awaitsOperand ((l.events c).foldl Commands.read cs) := by
  have hcommands := commands_of_not_misread hmisread
  rw [events_readable hready.place.context hready.escaped hback, hready.ahead] at hcommands ⊢
  refine h.stepChar hready (by rintro ⟨⟩) (by rintro ⟨⟩)
    ⟨fun hoperand => absurd hoperand hposition, fun hc' hc => ⟨hposition, fun hbraces => ?_⟩, fun _ _ => hposition,
      hcommands⟩ hnone
  cases hready.place with
  | double hdouble => cases hc.symm.trans hdouble
  | fresh _ _ hfresh =>
    rw [hbraces] at hfresh
    rcases hfresh with hfresh | hfresh <;> cases hfresh
  | operand _ _ hop => cases hbraces.symm.trans hop
  | word _ _ hword => cases hbraces.symm.trans hword
  | braces _ ho => exact hmisread (.slip (.hash hc ho hbraces hready.ahead hready.escaped hc'))

/-- An expansion that has begun goes on, or ends with the character. -/
theorem Guarded.stepToken_expansion (h : Guarded t false cs) (hexpanding : Expanding t l) (hbegun : l.ahead ≠ .none)
    (hless : l.ahead ≠ .less) {c : Char} (hback : c ≠ '\\') (hmisread : ¬Misread l cs c)
    (hnone : (t.stepToken l.ahead.token c).unsupportedConstruct = none) :
    Guarded (t.stepToken l.ahead.token c) (t.stepToken l.ahead.token c).awaitsOperand
      ((l.events c).foldl Commands.read cs) := by
  have hcommands := commands_of_not_misread hmisread
  rw [events_readable hexpanding.context hexpanding.escaped hback] at hcommands ⊢
  cases hahead : l.ahead with
  | none => exact absurd hahead hbegun
  | dollar =>
    rw [hahead] at hcommands hnone
    exact h.stepToken_dollar hexpanding hcommands hnone
  | dollarParen =>
    rw [hahead] at hcommands hnone
    exact h.stepToken_dollarParen hexpanding hcommands hnone
  | name =>
    rw [hahead] at hcommands hnone
    exact h.stepToken_name hexpanding hcommands hnone
  | less => exact absurd hahead hless

/-- In unquoted text. -/
theorem Guarded.stepToken_bare (h : Guarded t t.awaitsOperand cs) (hfollows : Follows t l)
    (hc : l.frame.context = .bare)
    (hescaped : l.escaped = false) {token : Token} (hpending : t.pending = .token token)
    (hstanding : Standing t.wordStart t.word.text l.frame.opener l.position l.ahead token) {c : Char} (hback : c ≠ '\\')
    (hmisread : ¬Misread l cs c)
    (hnone : ({ t with pending := .token .none }.stepToken token c).unsupportedConstruct = none) :
    Guarded ({ t with pending := .token .none }.stepToken token c)
      ({ t with pending := .token .none }.stepToken token c).awaitsOperand ((l.events c).foldl Commands.read cs) := by
  have hawaits : t.awaitsOperand = (token = .less || token = .redirect) := by
    unfold ShellTracker.awaitsOperand
    rw [hpending]
  have hidle : Guarded { t with pending := .token .none } t.awaitsOperand cs := h.setPending _
  rw [hawaits] at hidle
  have hcommands := commands_of_not_misread hmisread
  have hready : l.ahead = .none → Place { t with pending := .token .none } l →
      Ready { t with pending := .token .none } l :=
    fun hahead hplace => ⟨hfollows.frames, hfollows.nested, rfl, hahead, hescaped, hplace⟩
  have hawaiting : Guarded { t with pending := .token .none } true cs →
      Redirecting { t with pending := .token .none } l → Awaiting { t with pending := .token .none } l cs :=
    fun hguarded hredirecting => ⟨hguarded, hredirecting, hfollows.frames, hfollows.nested, hc, rfl, hescaped⟩
  have hplain : l.ahead = .none ∨ l.ahead = .less → l.events c = l.plainEvents c := by
    intro hahead
    rw [events_readable (.inl hc) hescaped hback]
    rcases hahead with hahead | hahead <;> rw [hahead]
  obtain ⟨wordStart, hstart⟩ : ∃ wordStart, t.wordStart = wordStart := ⟨_, rfl⟩
  obtain ⟨text, htext⟩ : ∃ text, t.word.text = text := ⟨_, rfl⟩
  obtain ⟨opener, hopener⟩ : ∃ opener, l.frame.opener = opener := ⟨_, rfl⟩
  obtain ⟨position, hposition⟩ : ∃ position, l.position = position := ⟨_, rfl⟩
  obtain ⟨ahead, hahead⟩ : ∃ ahead, l.ahead = ahead := ⟨_, rfl⟩
  rw [hstart, htext, hopener, hposition, hahead] at hstanding
  cases hstanding with
  | fresh ho hfresh =>
    refine hidle.stepToken_none (hready hahead (.fresh hc (hopener ▸ ho) (hposition ▸ hfresh) hstart)) ?_ hback hmisread
      hnone
    rcases hfresh with rfl | rfl <;> rw [hposition] <;> rintro ⟨⟩
  | word ho hknows =>
    exact hidle.stepToken_none (hready hahead (.word hc (hopener ▸ ho) hposition hstart (htext ▸ hknows)))
      (by rw [hposition]; rintro ⟨⟩) hback hmisread hnone
  | braces plain =>
    exact hidle.stepToken_none (hready hahead (.braces hc hopener hposition hstart))
      (by rw [hposition]; rintro ⟨⟩) hback hmisread hnone
  | redirect ho =>
    rw [hplain (.inl hahead)] at hcommands ⊢
    exact (hawaiting hidle (.command (hopener ▸ ho) hposition)).stepRedirect hmisread hcommands hnone
  | less ho =>
    rw [hplain (.inr hahead)] at hcommands ⊢
    exact (hawaiting hidle (.command (hopener ▸ ho) hposition)).stepLess hmisread hcommands hnone
  | bracesRedirect htoken =>
    rw [hplain (.inl hahead)] at hcommands ⊢
    rcases htoken with rfl | rfl
    · exact (hawaiting hidle (.braces hopener hposition hstart)).stepLess hmisread hcommands hnone
    · exact (hawaiting hidle (.braces hopener hposition hstart)).stepRedirect hmisread hcommands hnone
  | @expansion _ frame ahead hbegun hless =>
    have hinside : l.position = l.frame.inside := by
      rw [hposition]
      unfold Frame.inside
      rw [hopener]
    have hexpanding : Expanding { t with pending := .token .none } l :=
      ⟨hfollows.frames, hfollows.nested, .inl hc, hinside, fun _ => hstart, rfl, hescaped⟩
    have hquiet : (ahead.token = .less || ahead.token = .redirect) = false := by
      revert hless
      cases ahead <;> simp [Ahead.token]
    rw [hquiet] at hidle
    subst hahead
    exact hidle.stepToken_expansion hexpanding hbegun hless hback hmisread hnone

/-- A token that the character finishes is to the commands what it is to the shell. -/
theorem Guarded.stepToken (h : Guarded t t.awaitsOperand cs) (hfollows : Follows t l)
    (hcontext : l.frame.context = .bare ∨ l.frame.context = .doubleQuoted) (hescaped : l.escaped = false)
    {token : Token}
    (hpending : t.pending = .token token) {c : Char} (hback : c ≠ '\\') (hmisread : ¬Misread l cs c)
    (hnone : ({ t with pending := .token .none }.stepToken token c).unsupportedConstruct = none) :
    Guarded ({ t with pending := .token .none }.stepToken token c)
      ({ t with pending := .token .none }.stepToken token c).awaitsOperand ((l.events c).foldl Commands.read cs) := by
  have hsame : ∀ token', t.pending = pendingAs l.escaped token' → token' = token := by
    intro token' htoken'
    rw [hescaped, hpending] at htoken'
    exact (Pending.token.inj htoken').symm
  rcases hcontext with hc | hc
  · obtain ⟨token', hp, hstanding⟩ := hfollows.standing hc
    rw [hsame token' hp] at hstanding
    exact h.stepToken_bare hfollows hc hescaped hpending hstanding hback hmisread hnone
  · obtain ⟨hposition, hless, hp⟩ := hfollows.double hc
    have htoken := hsame _ hp
    subst htoken
    have hquiet : t.awaitsOperand = false := by
      unfold ShellTracker.awaitsOperand
      rw [hpending]
      revert hless
      cases l.ahead <;> simp [Ahead.token]
    rw [hquiet] at h
    have hidle : Guarded { t with pending := .token .none } false cs := h.setPending _
    by_cases hbegun : l.ahead = .none
    · rw [hbegun] at hnone ⊢
      exact hidle.stepToken_none ⟨hfollows.frames, hfollows.nested, rfl, hbegun, hescaped, .double hc hposition⟩
        (hposition ▸ (inside_ne l.frame).1) hback hmisread hnone
    · have hstart : l.frame.context = .bare → t.wordStart = false := fun hbare => by cases hc.symm.trans hbare
      exact hidle.stepToken_expansion ⟨hfollows.frames, hfollows.nested, .inr hc, hposition, hstart, rfl, hescaped⟩
        hbegun hless hback hmisread hnone

theorem Standing.awaits {wordStart : Bool} {text : Text} {opener : Opener} {position : Position} {ahead : Ahead}
    {token : Token} (h : Standing wordStart text opener position ahead token)
    (hwaits : (token = .less || token = .redirect) = true) (hbrace : opener ≠ .brace) : position = .operand := by
  cases h with
  | less | redirect => rfl
  | fresh | word | braces => cases hwaits
  | bracesRedirect => exact absurd rfl hbrace
  | @expansion _ _ ahead hbegun hless =>
    revert hwaits hless
    cases ahead <;> simp [Ahead.token]

theorem Guarded.step_single (h : Guarded t t.awaitsOperand cs) (hfollows : Follows t l)
    (hc : l.frame.context = .singleQuoted) (c : Char) :
    Guarded (t.step c) (t.step c).awaitsOperand ((l.events c).foldl Commands.read cs) := by
  have htc : t.context = .singleQuoted := hfollows.context.trans hc
  obtain ⟨hp, -, -⟩ := hfollows.single hc
  rw [awaits_idle hp] at h
  rw [step_singleQuoted htc]
  unfold Lexer.events
  rw [hc]
  dsimp only
  by_cases hquote : c = '\''
  · rw [if_pos hquote, if_pos hquote]
    have hidle : ShellTracker.awaitsOperand { t.setContext .bare with wordStart := false } = false := awaits_idle hp
    rw [hidle]
    refine h.reads .bare rfl rfl id h.guards id (by rintro (⟨⟨⟩⟩ | ⟨⟨⟩⟩)) ?_
    rintro (⟨⟨⟩⟩ | ⟨_, ⟨⟩⟩)
  · rw [if_neg hquote, if_neg hquote, awaits_idle hp]
    refine h.reads t.level.context rfl rfl id ?_ ?_ ?_ ?_
    · exact h.guards.quoted (h.enclosed (.inl htc)) [c]
    · intro hnested
      rw [hnested]
      rfl
    · exact fun _ => quote_quote cs.command [c]
    · rw [show t.level.context = .singleQuoted from htc]
      rintro (⟨⟨⟩⟩ | ⟨⟨⟩, _⟩)

/-- A comment ends with its line, and a command may start. -/
theorem Guarded.step_commented (h : Guarded t t.awaitsOperand cs) (hfollows : Follows t l)
    (hc : l.frame.context = .comment) {c : Char} (hcommands : cs.misreads (l.events c) = false) :
    Guarded (t.step c) (t.step c).awaitsOperand ((l.events c).foldl Commands.read cs) := by
  have htc : t.context = .comment := hfollows.context.trans hc
  obtain ⟨hbrace, hp, -⟩ := hfollows.comment hc
  rw [awaits_idle hp] at h
  rw [step_comment htc]
  unfold Lexer.events at hcommands ⊢
  rw [hc] at hcommands ⊢
  dsimp only at hcommands ⊢
  by_cases hline : c = '\n'
  · rw [if_pos hline] at hcommands ⊢
    rw [if_pos hline]
    simp only [Commands.misreads, Commands.misread, Bool.or_false] at hcommands
    obtain ⟨third, hthird⟩ := nextLine_start cs.command.endWord.role
    change Guarded _ _ ⟨⟨cs.command.endWord.role.nextLine, .new, false⟩, cs.outer⟩
    rw [hthird]
    have hidle : ShellTracker.awaitsOperand
        { t.setContext .bare with wordStart := true, commandWord := true, reparsingCommand := false } = false :=
      awaits_idle hp
    rw [hidle]
    refine guarded_start ?_ ?_ ?_ ?_ ?_ ?_ third
    · rfl
    · exact (h.cleared (.inl htc)).1
    · exact .inl rfl
    · exact fun hopener => hbrace ((congrArg Frame.opener hfollows.frame).symm.trans hopener)
    · rw [hcommands]
      rintro ⟨⟩
    · exact stacked_context t.level .bare t.outer cs.outer h.stacked
  · rw [if_neg hline, if_neg hline, awaits_idle hp]
    exact h

/-- Only in `${ }` does an escape come where the operand of a redirection would start. -/
theorem awaits_escaped (hfollows : Follows t l) (hcontext : l.frame.context = .bare ∨ l.frame.context = .doubleQuoted)
    (hescaped : l.escaped = true) {c : Char} (hline : c ≠ '\n') (hmisread : ¬Misread l cs c)
    (hwaits : t.awaitsOperand = true) : l.frame.opener = .brace := by
  obtain ⟨token, hpending⟩ := hfollows.pending hcontext
  have hp : t.pending = .escape token := by
    rw [hpending, hescaped]
    rfl
  have hawaits : (token = .less || token = .redirect) = true := by
    unfold ShellTracker.awaitsOperand at hwaits
    rw [hp] at hwaits
    exact hwaits
  rcases hcontext with hc | hc
  · obtain ⟨token', hpending', hstanding⟩ := hfollows.standing hc
    have htoken : token' = token := by
      rw [hp, hescaped] at hpending'
      exact (Pending.escape.inj hpending').symm
    subst htoken
    by_contra hbrace
    exact hmisread (.escaped hc (hstanding.awaits hawaits hbrace) hescaped hline)
  · obtain ⟨-, hless, hp'⟩ := hfollows.double hc
    rw [hp, hescaped] at hp'
    have htoken : token = l.ahead.token := Pending.escape.inj hp'
    rw [htoken] at hawaits
    revert hawaits hless
    cases l.ahead <;> simp [Ahead.token]

/-- An escaped character is part of the word, and a line continuation of nothing. -/
theorem Guarded.step_escaped (h : Guarded t t.awaitsOperand cs) (hfollows : Follows t l)
    (hcontext : l.frame.context = .bare ∨ l.frame.context = .doubleQuoted) (hescaped : l.escaped = true) {c : Char}
    (hmisread : ¬Misread l cs c) :
    Guarded (t.step c) (t.step c).awaitsOperand ((l.events c).foldl Commands.read cs) := by
  have htc := hfollows.context
  have hread : Readable t := by
    unfold Readable
    rw [htc]
    exact hcontext
  obtain ⟨token, hpending⟩ := hfollows.pending hcontext
  have hp : t.pending = .escape token := by
    rw [hpending, hescaped]
    rfl
  have hevents : l.events c =
      if c = '\n' then []
      else if l.ahead = .dollarParen then [.opens .substitution, .quoted [c]]
      else [.quoted (l.text c)] := by
    unfold Lexer.events
    rcases hcontext with hc | hc <;> rw [hc, hescaped] <;> rfl
  rw [step_readable hread, hp, hevents]
  dsimp only
  by_cases hline : c = '\n'
  · rw [if_pos hline, if_pos hline]
    have hsame : ShellTracker.awaitsOperand { t with pending := .token token } = t.awaitsOperand := by
      unfold ShellTracker.awaitsOperand
      rw [hp]
    rw [hsame]
    exact h.setPending _
  rw [if_neg hline, if_neg hline, if_neg fun hahead => hmisread (.slip (.escaped hahead hescaped hline))]
  have hidle : ShellTracker.awaitsOperand { t with
      pending := .token .none
      wordStart := false
      word := { t.word with isOpaque := true } } = false := rfl
  rw [hidle]
  have hcomment : t.context ≠ .comment := by
    rw [htc]
    rcases hcontext with hc | hc <;> rw [hc] <;> decide
  cases hwaits : t.awaitsOperand with
  | false =>
    rw [hwaits] at h
    change Guarded _ false (cs.read (.quoted (l.text c)))
    refine h.quotation (by rintro ⟨⟩) t.level.context ?_ ?_ ?_ ?_ ?_ hcomment fun _ => rfl
    all_goals rfl
  | true =>
    have hbrace : t.opener = .brace :=
      (congrArg Frame.opener hfollows.frame).trans (awaits_escaped hfollows hcontext hescaped hline hmisread hwaits)
    have hsame : [Event.quoted (l.text c)].foldl Commands.read cs = cs := h.read_braces hbrace _
    rw [hsame]
    exact h.inBraces hbrace t.level.context rfl rfl rfl hcomment (by rintro _ ⟨⟩)

/-- One character keeps the tracker's guard, unless the tracker misreads it. -/
theorem Guarded.step (h : Guarded t t.awaitsOperand cs) (hfollows : Follows t l) {c : Char} (hmisread : ¬Misread l cs c)
    (hnone : (t.step c).unsupportedConstruct = none) :
    Guarded (t.step c) (t.step c).awaitsOperand ((l.events c).foldl Commands.read cs) := by
  cases hc : l.frame.context with
  | singleQuoted => exact h.step_single hfollows hc c
  | comment => exact h.step_commented hfollows hc (commands_of_not_misread hmisread)
  | bare | doubleQuoted =>
    have hcontext : l.frame.context = .bare ∨ l.frame.context = .doubleQuoted := by simp [hc]
    cases hescaped : l.escaped with
    | true => exact h.step_escaped hfollows hcontext hescaped hmisread
    | false =>
      have hread : Readable t := by
        unfold Readable
        rw [hfollows.context]
        exact hcontext
      obtain ⟨token, hpending⟩ := hfollows.pending hcontext
      have hp : t.pending = .token token := by
        rw [hpending, hescaped]
        rfl
      rw [step_readable hread, hp] at hnone ⊢
      dsimp only at hnone ⊢
      by_cases hback : c = '\\'
      · have hevents : l.events c = [] := by
          unfold Lexer.events
          rcases hcontext with hc' | hc' <;> rw [hc', hescaped, hback] <;> rfl
        have hawaits : t.awaitsOperand = ShellTracker.awaitsOperand { t with pending := .escape token } := by
          unfold ShellTracker.awaitsOperand
          rw [hp]
        rw [if_pos hback, hevents, ← hawaits]
        exact h.setPending _
      · rw [if_neg hback] at hnone ⊢
        exact h.stepToken hfollows hcontext hescaped hp hback hmisread hnone

end Aviso.Template
