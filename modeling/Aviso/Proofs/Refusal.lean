import Aviso.Proofs.CommandTokens
import Aviso.Proofs.Literalness

namespace Aviso.Template
open ShellTracker
open Posix

variable {waits : Bool} {t : ShellTracker} {l l' m : Lexer} {cs : Commands} {p p' q q' : Parser} {r : Command}

/-! ### Where a value is refused -/

theorem awaits_allowed (hfollows : Follows t l) (hallowed : t.unsupported = none) : t.awaitsOperand = false := by
  have hidle : t.pending = .token .none ∨ t.pending = .escape .none := by
    cases hfollows.reading with
    | single _ hp => exact .inl hp
    | comment _ _ hp => exact .inl hp
    | double hc => exact (supported hallowed).2.2.1 (.inr (hfollows.context.trans hc))
    | bare _ hc => exact (supported hallowed).2.2.1 (.inl (hfollows.context.trans hc))
  unfold ShellTracker.awaitsOperand
  rcases hidle with hp | hp <;> rw [hp] <;> rfl

theorem Guarded.refuses (h : Guarded t t.awaitsOperand cs) (hfollows : Follows t l) (hallowed : t.unsupported = none)
    (hcomment : l.frame.context ≠ .comment) : cs.exposes = false ∧ cs.command.role.isCommand = false := by
  obtain ⟨-, -, -, hflags⟩ := supported hallowed
  obtain ⟨hredirect, hposition, hreparsing⟩ := hflags (hfollows.context ▸ hcomment)
  have hawaits := awaits_allowed hfollows hallowed
  constructor
  · by_contra hexposes
    unfold Commands.exposes at hexposes
    rw [Bool.not_eq_false, Bool.or_eq_true] at hexposes
    rcases hexposes with hcommand | houter
    · have hrefuses := h.guards.refuses hcommand
      rw [hawaits, hredirect, hposition, hreparsing] at hrefuses
      rcases hrefuses with h' | h' | h' | h' <;> cases h'
    · rw [h.inherited houter] at hreparsing
      cases hreparsing
  · by_contra hcommand
    have hknown := h.guards.position (by simpa using hcommand)
    rw [hposition, hreparsing] at hknown
    rcases hknown with h' | h' <;> cases h'

theorem Guarded.read_enclosed (h : Guarded t waits cs)
    (hquoted : t.context = .singleQuoted ∨ t.context = .doubleQuoted) :
    cs.read (.quoted []) = cs := by
  change { cs with command := cs.command.quote [] } = cs
  rw [h.enclosed hquoted]

/-! ### Reading a value -/

/-- Quoted text changes nothing. -/
def Stable (cs : Commands) : Prop := ∀ s, cs.read (.quoted s) = cs

/-- From `l` the text `w` leads to `l'`, and is only quoted text to the commands. -/
def Passes (l : Lexer) (w : Text) (l' : Lexer) : Prop :=
  ∀ cs, Stable cs → Parser.after (some ⟨l, cs⟩) w = some ⟨l', cs⟩ ∧
    ∀ u, u <+: w → ∃ m, Parser.after (some ⟨l, cs⟩) u = some ⟨m, cs⟩

theorem Posix.Parser.after_cons (p : Parser) (c : Char) (s : Text) :
    Parser.after (some p) (c :: s) = Parser.after (p.step c) s := rfl

theorem Posix.Parser.after_none (s : Text) : Parser.after none s = none := by
  induction s with
  | nil => rfl
  | cons c s ih => exact ih

theorem Posix.Parser.after_append (p : Option Parser) (a b : Text) :
    Parser.after p (a ++ b) = Parser.after (Parser.after p a) b := List.foldl_append

theorem passes_nil (l : Lexer) : Passes l [] l := by
  intro cs _
  refine ⟨rfl, fun u hu => ?_⟩
  rw [List.prefix_nil.mp hu]
  exact ⟨l, rfl⟩

theorem Passes.cons {c : Char} {w : Text} (hstep : l.step c = some m) (hevents : ∀ e ∈ l.events c, ∃ s, e = .quoted s)
    (hrest : Passes m w l') : Passes l (c :: w) l' := by
  intro cs hstable
  have hread : (l.events c).foldl Commands.read cs = cs := by
    generalize l.events c = events at hevents
    induction events with
    | nil => rfl
    | cons e events ih =>
      obtain ⟨s, rfl⟩ := hevents e List.mem_cons_self
      rw [List.foldl_cons, hstable s]
      exact ih fun e' he' => hevents e' (List.mem_cons_of_mem _ he')
  have hone : Parser.step ⟨l, cs⟩ c = some ⟨m, cs⟩ := by
    unfold Parser.step
    rw [hstep, hread]
    rfl
  obtain ⟨hafter, hprefix⟩ := hrest cs hstable
  rw [Parser.after_cons, hone]
  refine ⟨hafter, fun u hu => ?_⟩
  rcases List.prefix_cons_iff.mp hu with rfl | ⟨v, rfl, hv⟩
  · exact ⟨l, rfl⟩
  · rw [Parser.after_cons, hone]
    exact hprefix v hv

theorem Passes.append {w₁ w₂ : Text} (h₁ : Passes l w₁ m) (h₂ : Passes m w₂ l') : Passes l (w₁ ++ w₂) l' := by
  intro cs hstable
  obtain ⟨hafter₁, hprefix₁⟩ := h₁ cs hstable
  obtain ⟨hafter₂, hprefix₂⟩ := h₂ cs hstable
  rw [Parser.after_append, hafter₁]
  refine ⟨hafter₂, fun u hu => ?_⟩
  rcases List.prefix_or_prefix_of_prefix hu (List.prefix_append w₁ w₂) with hu | ⟨v, rfl⟩
  · exact hprefix₁ u hu
  · rw [Parser.after_append, hafter₁]
    exact hprefix₂ v ((List.prefix_append_right_inj w₁).mp hu)

theorem Passes.flatMap {write : Char → Text} (h : ∀ c, Passes l (write c) l) (v : Text) :
    Passes l (v.flatMap write) l := by
  induction v with
  | nil => exact passes_nil l
  | cons c v ih => exact (h c).append ih

theorem passes_single (opener : Opener) (outer : List Frame) (c : Char) :
    Passes (inWord ⟨opener, .singleQuoted⟩ outer) (writeSingle c) (inWord ⟨opener, .singleQuoted⟩ outer) := by
  unfold writeSingle
  split
  · rename_i hquote
    subst hquote
    refine .cons rfl ?_ (.cons rfl ?_ (.cons rfl ?_ (.cons rfl ?_ (passes_nil _))))
    · rintro e ⟨⟩
    · rintro e ⟨⟩
    · intro e he
      exact ⟨_, List.mem_singleton.mp he⟩
    · intro e he
      exact ⟨_, List.mem_singleton.mp he⟩
  · rename_i hquote
    have hstep : (inWord ⟨opener, .singleQuoted⟩ outer).step c = some (inWord ⟨opener, .singleQuoted⟩ outer) :=
      congrArg some (if_neg hquote)
    have hevents : (inWord ⟨opener, .singleQuoted⟩ outer).events c = [.quoted [c]] := if_neg hquote
    refine .cons hstep (fun e he => ?_) (passes_nil _)
    rw [hevents] at he
    exact ⟨_, List.mem_singleton.mp he⟩

theorem passes_double (opener : Opener) (outer : List Frame) (c : Char) :
    Passes (inWord ⟨opener, .doubleQuoted⟩ outer) (writeDouble c) (inWord ⟨opener, .doubleQuoted⟩ outer) := by
  unfold writeDouble
  split
  · rename_i hspecial
    let opened : Lexer := { inWord ⟨opener, .doubleQuoted⟩ outer with escaped := true }
    have hline : c ≠ '\n' := by
      rintro rfl
      revert hspecial
      decide
    have hstep : opened.step c = some (inWord ⟨opener, .doubleQuoted⟩ outer) := congrArg some (if_neg hline)
    have hevents : opened.events c = [.quoted (opened.text c)] := if_neg hline
    refine .cons rfl ?_ (.cons hstep (fun e he => ?_) (passes_nil _))
    · rintro e ⟨⟩
    · rw [hevents] at he
      exact ⟨_, List.mem_singleton.mp he⟩
  · rename_i hplain
    simp only [Bool.or_eq_true, decide_eq_true_eq, not_or] at hplain
    obtain ⟨⟨⟨hback, hdollar⟩, htick⟩, hquote⟩ := hplain
    have hstep : (inWord ⟨opener, .doubleQuoted⟩ outer).step c = some (inWord ⟨opener, .doubleQuoted⟩ outer) := by
      change (if c = '\\' then _ else (inWord ⟨opener, .doubleQuoted⟩ outer).read c) = _
      rw [if_neg hback]
      unfold Lexer.read
      rw [if_neg hdollar, if_neg htick, if_pos (by rfl), if_neg hquote]
    have hevents : (inWord ⟨opener, .doubleQuoted⟩ outer).events c = [.quoted [c]] := by
      change (if c = '\\' then [] else (inWord ⟨opener, .doubleQuoted⟩ outer).plainEvents c) = _
      rw [if_neg hback]
      unfold Lexer.plainEvents
      rw [if_neg hdollar, if_pos (by rfl), if_neg hquote]
    refine .cons hstep (fun e he => ?_) (passes_nil _)
    rw [hevents] at he
    exact ⟨_, List.mem_singleton.mp he⟩

/-- Where only what is not the command word stands, all quoted text is one. -/
theorem quote_any (hcommand : r.role.isCommand = false) (s₁ s₂ : Text) : r.quote s₁ = r.quote s₂ := by
  unfold Command.quote
  rw [hcommand]
  rfl

theorem stable_quoted (hcommand : cs.command.role.isCommand = false) : Stable (cs.read (.quoted [])) := by
  intro s
  have hrole : (cs.command.quote []).role.isCommand = false := by
    unfold Command.quote
    rw [grow_role]
    exact hcommand
  change { cs with command := (cs.command.quote []).quote s } = { cs with command := cs.command.quote [] }
  rw [quote_any hrole s [], quote_quote]

theorem exposes_quoted (hcommand : cs.command.role.isCommand = false) (h : cs.exposes = false) :
    (cs.read (.quoted [])).exposes = false := by
  unfold Commands.exposes at h ⊢
  rw [Bool.or_eq_false_iff] at h ⊢
  refine ⟨?_, h.2⟩
  have hbefore := h.1
  change (cs.command.quote []).exposes = false
  have hoperand : (cs.command.quote []).operand = cs.command.operand := grow_operand _ _ _
  have hrole : (cs.command.quote []).role = cs.command.role := grow_role _ _ _
  unfold Command.exposes at hbefore ⊢
  rw [hoperand, hrole]
  cases hr : cs.command.role with
  | start | prefixed =>
    rw [hr] at hcommand
    cases hcommand
  | arguments | closed | forName | forWords | nested =>
    rw [hr] at hbefore
    exact hbefore

/-- While the value is read it stands where the shell takes it for data, and its text does not matter. -/
structure Placed (p : Parser) (w : Text) : Prop where
  hidden : ∀ u, u <+: w → ∃ q, Parser.after (some p) u = some q ∧ q.exposes = false
  after : Parser.after (some p) w = some p.afterValue

theorem exposes_of_commands (l : Lexer) (h : cs.exposes = false) : (⟨l, cs⟩ : Parser).exposes = false := by
  unfold Parser.exposes
  rw [h, Bool.and_false]

/-- In quotes, or after the quote that starts it. -/
theorem placed_passes {w : Text} (hcomment : l.frame.context ≠ .comment) (hsame : cs.read (.quoted []) = cs)
    (hcommand : cs.command.role.isCommand = false) (hexposes : cs.exposes = false)
    (h : Passes l w l.afterValue) : Placed ⟨l, cs⟩ w := by
  have hstable : Stable cs := hsame ▸ stable_quoted hcommand
  obtain ⟨hafter, hprefix⟩ := h cs hstable
  refine ⟨fun u hu => ?_, ?_⟩
  · obtain ⟨m, hm⟩ := hprefix u hu
    exact ⟨_, hm, exposes_of_commands m hexposes⟩
  · rw [hafter]
    unfold Parser.afterValue
    rw [if_neg hcomment, hsame]

theorem Placed.continuation {w : Text} (hc : l.frame.context = .bare ∨ l.frame.context = .doubleQuoted)
    (hescaped : l.escaped = true) (hexposes : cs.exposes = false) (h : Placed ⟨{ l with escaped := false }, cs⟩ w) :
    Placed ⟨l, cs⟩ ('\n' :: w) := by
  have hstep : Parser.step ⟨l, cs⟩ '\n' = some ⟨{ l with escaped := false }, cs⟩ := by
    unfold Parser.step Lexer.step Lexer.events
    rcases hc with hc | hc <;> rw [hc] <;> simp [hescaped]
  refine ⟨fun u hu => ?_, ?_⟩
  · rcases List.prefix_cons_iff.mp hu with rfl | ⟨v, rfl, hv⟩
    · exact ⟨_, rfl, exposes_of_commands l hexposes⟩
    · rw [Parser.after_cons, hstep]
      exact h.hidden v hv
  · rw [Parser.after_cons, hstep, h.after]
    unfold Parser.afterValue Lexer.afterValue
    rcases hc with hc | hc <;> rw [hc] <;> rfl

theorem placed_inComment (hc : l.frame.context = .comment) {w : Text} (hw : '\n' ∉ w) : Placed ⟨l, cs⟩ w := by
  have hafter : ∀ u : Text, '\n' ∉ u → Parser.after (some ⟨l, cs⟩) u = some ⟨l, cs⟩ := by
    intro u hu
    induction u with
    | nil => rfl
    | cons c u ih =>
      rw [List.mem_cons, not_or] at hu
      have hstep : Parser.step ⟨l, cs⟩ c = some ⟨l, cs⟩ := by
        unfold Parser.step Lexer.step Lexer.events
        rw [hc]
        simp [Ne.symm hu.1]
      rw [Parser.after_cons, hstep]
      exact ih hu.2
  refine ⟨fun u hu => ⟨_, hafter u fun hline => hw (hu.subset hline), ?_⟩, ?_⟩
  · unfold Parser.exposes
    rw [hc]
    rfl
  · rw [hafter w hw]
    unfold Parser.afterValue Lexer.afterValue
    rw [if_pos hc, if_pos hc]

/-- Outside quotes a quote of its own starts the value, or goes on with the word. -/
theorem placed_unquoted (hc : l.frame.context = .bare) (hescaped : l.escaped = false)
    (hahead : l.ahead = .none ∨ l.ahead = .name) (hexposes : cs.exposes = false)
    (hcommand : cs.command.role.isCommand = false) (v : Text) :
    Placed ⟨l, cs⟩ ('\'' :: (v.flatMap writeSingle ++ ['\''])) := by
  have hcomment : l.frame.context ≠ .comment := by rw [hc]; decide
  have hevents : l.events '\'' = [.quoted []] := by
    unfold Lexer.events Lexer.plainEvents
    rw [hc, hescaped]
    rcases hahead with hahead | hahead <;> rw [hahead] <;> rfl
  have hstep : Parser.step ⟨l, cs⟩ '\'' =
      some ⟨inWord ⟨l.frame.opener, .singleQuoted⟩ l.outer, cs.read (.quoted [])⟩ := by
    unfold Parser.step
    rw [(step_quote hc hescaped hahead).1, hevents]
    rfl
  have hclosed : (inWord ⟨l.frame.opener, .singleQuoted⟩ l.outer).step '\'' = some (inWord l.frame l.outer) := by
    rw [show l.frame = ⟨l.frame.opener, .bare⟩ from hc ▸ rfl]
    rfl
  have hpasses : Passes (inWord ⟨l.frame.opener, .singleQuoted⟩ l.outer) (v.flatMap writeSingle ++ ['\''])
      (inWord l.frame l.outer) :=
    (Passes.flatMap (passes_single l.frame.opener l.outer) v).append (.cons hclosed (by rintro e ⟨⟩) (passes_nil _))
  obtain ⟨hafter, hprefix⟩ := hpasses _ (stable_quoted hcommand)
  refine ⟨fun u hu => ?_, ?_⟩
  · rcases List.prefix_cons_iff.mp hu with rfl | ⟨w, rfl, hw⟩
    · exact ⟨_, rfl, exposes_of_commands l hexposes⟩
    · obtain ⟨m, hm⟩ := hprefix w hw
      rw [Parser.after_cons, hstep]
      exact ⟨_, hm, exposes_of_commands m (exposes_quoted hcommand hexposes)⟩
  · rw [Parser.after_cons, hstep, hafter]
    unfold Parser.afterValue
    rw [if_neg hcomment, afterValue_inWord hcomment]

theorem Accepts.placed_comment (h : Accepts t l) (hc : l.frame.context = .comment) (v : Text) :
    Placed ⟨l, cs⟩ (t.quote v) := by
  obtain ⟨-, hp, -⟩ := h.follows.comment hc
  refine placed_inComment hc fun hline => ?_
  rw [quote_settled hp, quoteInContext, h.follows.context.trans hc] at hline
  obtain ⟨c, _, hc'⟩ := List.mem_map.mp hline
  split at hc'
  · exact absurd hc' (by decide)
  · rename_i hne
    exact hne hc'

theorem Accepts.placed_single (h : Accepts t l) (hc : l.frame.context = .singleQuoted)
    (hguarded : Guarded t t.awaitsOperand cs) (v : Text) : Placed ⟨l, cs⟩ (t.quote v) := by
  have htc : t.context = .singleQuoted := h.follows.context.trans hc
  have hcomment : l.frame.context ≠ .comment := by rw [hc]; decide
  obtain ⟨hexposes, hcommand⟩ := hguarded.refuses h.follows h.allowed hcomment
  obtain ⟨hp, hahead, hescaped⟩ := h.follows.single hc
  rw [quote_settled hp, quoteInContext_single htc]
  refine placed_passes hcomment (hguarded.read_enclosed (.inl htc)) hcommand hexposes ?_
  rw [afterValue_inWord hcomment]
  obtain ⟨⟨opener, context⟩, outer, position, ahead, escaped⟩ := l
  dsimp only at hc hahead hescaped
  subst hc hahead hescaped
  obtain rfl : position = Frame.inside ⟨opener, .singleQuoted⟩ := h.enclosed rfl
  exact Passes.flatMap (passes_single opener outer) v

theorem Accepts.placed_double (h : Accepts t l) (hc : l.frame.context = .doubleQuoted)
    (hguarded : Guarded t t.awaitsOperand cs) (v : Text) : Placed ⟨l, cs⟩ (t.quote v) := by
  have htc : t.context = .doubleQuoted := h.follows.context.trans hc
  have hcomment : l.frame.context ≠ .comment := by rw [hc]; decide
  obtain ⟨hexposes, hcommand⟩ := hguarded.refuses h.follows h.allowed hcomment
  obtain ⟨hposition, hahead, hp⟩ := h.idle_double hc
  rw [quote_eq hp (.inr htc), quoteInContext_double htc]
  have hvalue : Placed ⟨{ l with escaped := false }, cs⟩ (v.flatMap writeDouble) := by
    refine placed_passes hcomment (hguarded.read_enclosed (.inr htc)) hcommand hexposes ?_
    rw [show Lexer.afterValue { l with escaped := false } = inWord l.frame l.outer from if_neg hcomment]
    obtain ⟨⟨opener, context⟩, outer, position, ahead, escaped⟩ := l
    dsimp only at hc hahead
    subst hc hahead
    obtain rfl : position = Frame.inside ⟨opener, .doubleQuoted⟩ := hposition
    exact Passes.flatMap (passes_double opener outer) v
  split
  · rename_i hescaped
    exact hvalue.continuation (.inr hc) hescaped hexposes
  · rename_i hescaped
    have hsame : { l with escaped := false } = l := by rw [← Bool.eq_false_iff.mpr hescaped]
    rwa [hsame] at hvalue

theorem Accepts.placed_bare (h : Accepts t l) (hc : l.frame.context = .bare)
    (hguarded : Guarded t t.awaitsOperand cs) (v : Text) : Placed ⟨l, cs⟩ (t.quote v) := by
  have htc : t.context = .bare := h.follows.context.trans hc
  have hcomment : l.frame.context ≠ .comment := by rw [hc]; decide
  obtain ⟨hexposes, hcommand⟩ := hguarded.refuses h.follows h.allowed hcomment
  obtain ⟨hahead, hp⟩ := h.idle_bare hc
  rw [quote_eq hp (.inl htc), quoteInContext_bare htc]
  have hvalue : Placed ⟨{ l with escaped := false }, cs⟩ ('\'' :: (v.flatMap writeSingle ++ ['\''])) :=
    placed_unquoted (l := { l with escaped := false }) hc rfl hahead hexposes hcommand v
  split
  · rename_i hescaped
    exact hvalue.continuation (.inl hc) hescaped hexposes
  · rename_i hescaped
    have hsame : { l with escaped := false } = l := by rw [← Bool.eq_false_iff.mpr hescaped]
    rwa [hsame] at hvalue

/-- A value that may be placed stands where the shell takes it for data. -/
theorem Accepts.placed (h : Accepts t l) (hguarded : Guarded t t.awaitsOperand cs) (v : Text) :
    Placed ⟨l, cs⟩ (t.quote v) := by
  cases hc : l.frame.context with
  | bare => exact h.placed_bare hc hguarded v
  | singleQuoted => exact h.placed_single hc hguarded v
  | doubleQuoted => exact h.placed_double hc hguarded v
  | comment => exact h.placed_comment hc v

/-! ### The name of a parameter before a value -/

theorem ahead_readCommand {c : Char} (hidle : l.ahead = .none) (h : l.readCommand c = some l') : l'.ahead ≠ .name := by
  unfold Lexer.readCommand at h
  split_ifs at h
  · cases h
    rintro ⟨⟩
  · cases h
    unfold Lexer.closeFrame
    split
    · exact hidle ▸ by decide
    · exact hidle ▸ by decide
  · cases h
    rintro ⟨⟩
  all_goals
    cases h
    exact hidle ▸ by decide

theorem ahead_read {c : Char} (hidle : l.ahead = .none) (h : l.read c = some l') : l'.ahead ≠ .name := by
  unfold Lexer.read at h
  split_ifs at h
  · cases h
    rintro ⟨⟩
  · cases h
    exact hidle ▸ by decide
  · cases h
    exact hidle ▸ by decide
  · cases h
    exact hidle ▸ by decide
  · cases h
    exact hidle ▸ by decide
  · cases h
    unfold Lexer.closeFrame
    split
    · exact hidle ▸ by decide
    · exact hidle ▸ by decide
  · cases h
    exact hidle ▸ by decide
  · exact ahead_readCommand hidle h

/-- The name of a parameter goes on only after the `$` made the word an expansion. -/
def Named (p : Parser) : Prop :=
  p.lexer.ahead = .name → p.commands.command.expand = p.commands.command

/-- What starts the name of a parameter, or goes on with it, is part of an expansion. -/
theorem events_name (hc : l.frame.context = .bare ∨ l.frame.context = .doubleQuoted) (hescaped : l.escaped = false)
    {c : Char} (hback : c ≠ '\\') (h : l.readAhead c = some l') (hname : l'.ahead = .name) :
    l.events c = [.expansion] := by
  rw [events_readable hc hescaped hback]
  unfold Lexer.readAhead at h
  cases hahead : l.ahead with
  | none =>
    rw [hahead] at h
    exact absurd hname (ahead_read hahead h)
  | dollar =>
    rw [hahead] at h
    dsimp only at h ⊢
    split_ifs at h with hparen hbrace hdouble hstarts hparameter hquote
    · cases h
      cases hname
    · cases h
      cases hname
    · rw [if_neg hparen, if_neg hbrace, if_pos (by simp [hstarts])]
    · rw [if_neg hparen, if_neg hbrace, if_pos (by simp [hparameter])]
    · exact absurd hname (ahead_read rfl h)
  | dollarParen =>
    rw [hahead] at h
    dsimp only at h
    split_ifs at h
    exact absurd hname (ahead_read rfl h)
  | name =>
    rw [hahead] at h
    dsimp only at h ⊢
    split_ifs at h with hcontinues
    · rw [if_pos hcontinues]
    · exact absurd hname (ahead_read rfl h)
  | less =>
    rw [hahead] at h
    dsimp only at h
    split_ifs at h
    exact absurd hname (ahead_read rfl h)

theorem Named.step (h : Named p) (hfollows : Follows t p.lexer) {c : Char} (hstep : p.step c = some p') : Named p' := by
  obtain ⟨l, cs⟩ := p
  obtain ⟨l', hl', rfl⟩ := Option.map_eq_some_iff.mp hstep
  intro hname
  dsimp only at h hname hl' hfollows ⊢
  have hquoted : l.ahead = .none → l'.ahead = l.ahead → False := by
    intro hidle hsame
    rw [hsame, hidle] at hname
    cases hname
  have hread : l.frame.context = .bare ∨ l.frame.context = .doubleQuoted →
      (if l.escaped then some (if c = '\n' then { l with escaped := false } else l.literal)
        else if c = '\\' then some { l with escaped := true } else l.readAhead c) = some l' →
      ((l.events c).foldl Commands.read cs).command.expand = ((l.events c).foldl Commands.read cs).command := by
    intro hc hl'
    split_ifs at hl' with hescaped hline hback
    · cases hl'
      have hevents : l.events c = [] := by
        unfold Lexer.events
        rcases hc with hc | hc <;> rw [hc] <;> simp [hescaped, hline]
      rw [hevents]
      exact h hname
    · cases hl'
      cases hname
    · cases hl'
      have hevents : l.events c = [] := by
        unfold Lexer.events
        rcases hc with hc | hc <;> rw [hc] <;> simp [hescaped, hback]
      rw [hevents]
      exact h hname
    · rw [events_name hc (by simpa using hescaped) hback hl' hname]
      exact expand_expand cs.command
  unfold Lexer.step at hl'
  cases hfollows.reading with
  | bare _ hc =>
    rw [hc] at hl'
    exact hread (.inl hc) hl'
  | double hc =>
    rw [hc] at hl'
    exact hread (.inr hc) hl'
  | single hc _ hidle =>
    rw [hc] at hl'
    cases hl'
    refine (hquoted hidle ?_).elim
    split <;> rfl
  | comment hc _ _ hidle =>
    rw [hc] at hl'
    cases hl'
    refine (hquoted hidle ?_).elim
    split <;> rfl

/-- In double quotes a value may have gone on with the name of a parameter. -/
inductive Resumes : Parser → Parser → Prop where
  | same (p : Parser) : Resumes p p
  | name (q : Parser) : q.lexer.frame.context = .doubleQuoted → q.lexer.position = q.lexer.frame.inside →
      q.lexer.ahead = .none → q.commands.command.expand = q.commands.command →
      Resumes ⟨{ q.lexer with ahead := .name }, q.commands⟩ q

theorem Resumes.exposes (h : Resumes p q) : p.exposes = q.exposes := by
  cases h <;> rfl

/-- A character of a name is text in double quotes. -/
theorem read_continuesName (hc : l.frame.context = .doubleQuoted) {c : Char} (hname : Lexer.continuesName c = true) :
    l.read c = some l ∧ l.plainEvents c = [.quoted [c]] := by
  have hplain := continuesName_plain hname
  simp only [List.mem_cons, List.not_mem_nil, or_false, not_or] at hplain
  obtain ⟨hdollar, htick, _, hquote, _⟩ := hplain
  unfold Lexer.read Lexer.plainEvents
  rw [if_neg hdollar, if_neg htick, if_pos hc, if_neg hquote, if_neg hdollar, if_pos hc, if_neg hquote]
  exact ⟨rfl, rfl⟩

/-- The name of a parameter goes on, or ends with the same character as it would have without. -/
theorem Resumes.step (h : Resumes p q) {c : Char} (hstep : q.step c = some q') :
    ∃ p', p.step c = some p' ∧ Resumes p' q' := by
  cases h with
  | same => exact ⟨q', hstep, .same q'⟩
  | name _ hc hposition hahead hexpanded =>
    obtain ⟨⟨⟨opener, context⟩, outer, position, ahead, escaped⟩, cs⟩ := q
    dsimp only at hc hposition hahead hexpanded
    subst hc hposition hahead
    have hread : ∀ s, cs.read (.quoted s) = cs := by
      intro s
      change { cs with command := cs.command.quote s } = cs
      rw [quote_of_expanded hexpanded]
    have hexpand : cs.read .expansion = cs := by
      change { cs with command := cs.command.expand } = cs
      rw [hexpanded]
    let without (escaped : Bool) : Lexer := { inWord ⟨opener, .doubleQuoted⟩ outer with escaped := escaped }
    let within (escaped : Bool) : Lexer := { without escaped with ahead := .name }
    have hresumes : ∀ escaped, Resumes ⟨within escaped, cs⟩ ⟨without escaped, cs⟩ :=
      fun escaped => .name ⟨without escaped, cs⟩ rfl rfl rfl hexpanded
    change Parser.step ⟨without escaped, cs⟩ c = some q' at hstep
    change ∃ p', Parser.step ⟨within escaped, cs⟩ c = some p' ∧ Resumes p' q'
    obtain ⟨l', hl', rfl⟩ := Option.map_eq_some_iff.mp hstep
    dsimp only at hl' ⊢
    unfold Parser.step
    cases escaped with
    | true =>
      by_cases hline : c = '\n'
      · subst hline
        cases hl'
        exact ⟨_, rfl, hresumes false⟩
      · have hstep : ∀ l ∈ [without true, within true], l.step c = some (inWord ⟨opener, .doubleQuoted⟩ outer) ∧
            l.events c = [.quoted (l.text c)] := by
          intro l hl
          simp only [List.mem_cons, List.not_mem_nil, or_false] at hl
          rcases hl with rfl | rfl <;> exact ⟨congrArg some (if_neg hline), if_neg hline⟩
        obtain ⟨hplain, hevents⟩ := hstep (without true) (by simp)
        obtain ⟨hname, hevents'⟩ := hstep (within true) (by simp)
        cases hplain.symm.trans hl'
        refine ⟨_, by rw [hname]; rfl, ?_⟩
        rw [hevents, hevents']
        change Resumes ⟨_, cs.read (.quoted _)⟩ ⟨_, cs.read (.quoted _)⟩
        rw [hread, hread]
        exact .same _
    | false =>
      by_cases hback : c = '\\'
      · subst hback
        cases hl'
        exact ⟨_, rfl, hresumes true⟩
      have hplain : (without false).step c = (without false).read c := if_neg hback
      have hevents : (without false).events c = (without false).plainEvents c := if_neg hback
      have hname : (within false).step c =
          if Lexer.continuesName c then some (within false) else (without false).read c := if_neg hback
      have hevents' : (within false).events c =
          if Lexer.continuesName c then [.expansion] else (without false).plainEvents c := if_neg hback
      rw [hname, hevents', hevents]
      rw [hplain] at hl'
      by_cases hcontinues : Lexer.continuesName c = true
      · obtain ⟨hsame, hquoted⟩ := read_continuesName (l := without false) rfl hcontinues
        cases hsame.symm.trans hl'
        rw [if_pos hcontinues, if_pos hcontinues, hquoted]
        refine ⟨_, rfl, ?_⟩
        change Resumes ⟨_, cs.read .expansion⟩ ⟨_, cs.read (.quoted _)⟩
        rw [hexpand, hread]
        exact hresumes false
      · rw [if_neg hcontinues, if_neg hcontinues, hl']
        exact ⟨_, rfl, .same _⟩

theorem Resumes.after (h : Resumes p q) {s : Text} (hafter : Parser.after (some q) s = some q') :
    ∃ p', Parser.after (some p) s = some p' ∧ Resumes p' q' := by
  induction s generalizing p q with
  | nil =>
    cases hafter
    exact ⟨p, rfl, h⟩
  | cons c s ih =>
    rw [Parser.after_cons] at hafter
    cases hstep : q.step c with
    | none =>
      rw [hstep, Parser.after_none] at hafter
      cases hafter
    | some m =>
      obtain ⟨m', hstep', hresumes⟩ := h.step hstep
      rw [hstep] at hafter
      rw [Parser.after_cons, hstep']
      exact ih hresumes hafter

/-! ### The rest of a template -/

/-- The tracker is where the shell is, and refuses what its commands expose. -/
structure Kept (t : ShellTracker) (q : Parser) : Prop where
  follows : Follows t q.lexer
  enclosed : q.lexer.Enclosed
  guarded : Guarded t t.awaitsOperand q.commands
  named : Named q

theorem kept_new : Kept .new .new where
  follows := follows_new
  enclosed := by rintro ⟨⟩
  guarded := guarded_new
  named := by rintro ⟨⟩

theorem Kept.step (h : Kept t q) {c : Char} (hmisread : ¬Misread q.lexer q.commands c)
    (hnone : (t.step c).unsupportedConstruct = none) : ∃ q', q.step c = some q' ∧ Kept (t.step c) q' := by
  obtain ⟨l', hl', hfollows⟩ := h.follows.step (fun hslip => hmisread (.slip hslip)) hnone
  have hstep : q.step c = some ⟨l', (q.lexer.events c).foldl Commands.read q.commands⟩ := by
    unfold Parser.step
    rw [hl']
    rfl
  exact ⟨_, hstep, hfollows, h.enclosed.step h.follows.nested hl', h.guarded.step h.follows hmisread hnone,
    h.named.step h.follows hstep⟩

/-- Somewhere in the text, read from `p`, the tracker misreads a character. -/
def MisreadsFrom (p : Option Parser) (s : Text) : Prop :=
  ∃ before c rest, s = before ++ c :: rest ∧ ∃ q, Parser.after p before = some q ∧ Misread q.lexer q.commands c

theorem Kept.advance (h : Kept t q) {s : Text} (hnone : (t.advance s).unsupportedConstruct = none)
    (hmisreads : ¬MisreadsFrom (some q) s) : ∃ q', Parser.after (some q) s = some q' ∧ Kept (t.advance s) q' := by
  induction s generalizing t q with
  | nil => exact ⟨q, rfl, h⟩
  | cons c s ih =>
    have hmisread : ¬Misread q.lexer q.commands c := fun hmisread => hmisreads ⟨[], c, s, rfl, q, rfl, hmisread⟩
    obtain ⟨m, hstep, hkept⟩ := h.step hmisread (unflagged_advance hnone)
    have hrest : ¬MisreadsFrom (some m) s := by
      rintro ⟨before, c', rest, rfl, m', hm', hmisread'⟩
      refine hmisreads ⟨c :: before, c', rest, rfl, m', ?_, hmisread'⟩
      rw [Parser.after_cons, hstep]
      exact hm'
    rw [Parser.after_cons, hstep]
    exact ih hkept hnone hrest

theorem Guarded.advanceValue (h : Guarded t t.awaitsOperand cs) (hfollows : Follows t l)
    (hallowed : t.unsupported = none)
    (hsettled : Settled t) (v : Text) :
    Guarded (t.advanceValue (t.quote v)) (t.advanceValue (t.quote v)).awaitsOperand
      (if l.frame.context = .comment then cs else cs.read (.quoted [])) := by
  rw [awaits_allowed hfollows hallowed] at h
  obtain ⟨wordStart, hvalue, hstart⟩ := advanceValue_quote hsettled hallowed v
  rw [hvalue]
  have hidle : (t.readAs wordStart true).awaitsOperand = false := rfl
  rw [hidle]
  by_cases hc : l.frame.context = .comment
  · rw [if_pos hc]
    exact ⟨h.guards.setOpaque, h.braces, h.enclosed, fun _ => h.cleared (.inl (hfollows.context.trans hc)), h.inherited,
      h.stacked⟩
  · rw [if_neg hc]
    refine h.quotation (by rintro ⟨⟩) t.level.context ?_ ?_ ?_ ?_ ?_ ?_ ?_
    · rfl
    · rfl
    · rfl
    · rfl
    · rfl
    · rw [show t.level.context = l.frame.context from hfollows.context]
      exact hc
    · exact hstart

/-- The name of a parameter may end before a value: to the tracker it is over. -/
theorem Kept.ended (h : Kept t q) (hresumes : Resumes p q) :
    ∃ q₀, Resumes p q₀ ∧ Follows t q₀.lexer ∧ q₀.lexer.Enclosed ∧ q₀.commands = q.commands ∧
      q₀.lexer.frame.context = q.lexer.frame.context ∧ q₀.lexer.afterValue = q.lexer.afterValue ∧
      (q₀.lexer.frame.context = .doubleQuoted → q₀.lexer.ahead ≠ .name) := by
  by_cases hname : q.lexer.frame.context = .doubleQuoted ∧ q.lexer.ahead = .name
  · obtain ⟨hc, hahead⟩ := hname
    obtain ⟨l, cs⟩ := q
    dsimp only at hc hahead
    obtain ⟨hposition, -, hp⟩ := h.follows.double hc
    refine ⟨⟨{ l with ahead := .none }, cs⟩, ?_, ?_, h.enclosed, rfl, rfl, ?_, fun _ => by rintro ⟨⟩⟩
    · cases hresumes with
      | same =>
        have hvariant := Resumes.name ⟨{ l with ahead := .none }, cs⟩ hc hposition rfl (h.named hahead)
        dsimp only at hvariant
        rwa [← hahead] at hvariant
      | name _ _ _ hnone => cases hahead.symm.trans hnone
    · rw [hahead] at hp
      exact ⟨h.follows.frames, h.follows.nested, .double hc hposition (by rintro ⟨⟩) hp⟩
    · unfold Lexer.afterValue
      rw [if_neg (by rw [hc]; decide), if_neg (by rw [hc]; decide)]
  · exact ⟨q, hresumes, h.follows, h.enclosed, rfl, rfl, rfl, fun hc hahead => hname ⟨hc, hahead⟩⟩

/-- A value that may be placed is data, and the tracker keeps its guard after it. -/
theorem Kept.value (h : Kept t q) (hresumes : Resumes p q) (hallowed : t.unsupported = none)
    (hsettled : Settled t) (v : Text) :
    (∀ u, u <+: t.quote v → ∃ m, Parser.after (some p) u = some m ∧ m.exposes = false) ∧
      (∃ p', Parser.after (some p) (t.quote v) = some p' ∧ Resumes p' q.afterValue) ∧
      Kept (t.advanceValue (t.quote v)) q.afterValue := by
  obtain ⟨q₀, hresumes₀, hfollows, henclosed, hcommands, hcontext, hafterValue, hnamed⟩ := h.ended hresumes
  have haccepts : Accepts t q₀.lexer := ⟨hfollows, henclosed, hallowed, hnamed⟩
  have hguarded : Guarded t t.awaitsOperand q₀.commands := hcommands ▸ h.guarded
  have hplaced : Placed q₀ (t.quote v) := haccepts.placed hguarded v
  have hsame : q₀.afterValue = q.afterValue := by
    unfold Parser.afterValue
    rw [hafterValue, hcontext, hcommands]
  refine ⟨fun u hu => ?_, ?_, ?_⟩
  · obtain ⟨m, hm, hexposes⟩ := hplaced.hidden u hu
    obtain ⟨m', hm', hvariant⟩ := hresumes₀.after hm
    exact ⟨m', hm', hvariant.exposes.trans hexposes⟩
  · rw [← hsame]
    exact hresumes₀.after hplaced.after
  · obtain ⟨hlater, hafter⟩ := haccepts.advanceValue hsettled v
    rw [← hsame]
    refine ⟨hlater, hafter, hguarded.advanceValue hfollows hallowed hsettled v, fun hname => ?_⟩
    change (Lexer.afterValue q₀.lexer).ahead = .name at hname
    unfold Lexer.afterValue at hname
    split at hname
    · rename_i hc
      cases (hfollows.comment hc).2.2.1.symm.trans hname
    · cases hname

/-- Up to the last value the tracker misreads nothing. Read with the values as parts of a word. -/
def Sound : Option Parser → List (Option Text) → Prop
  | _, [] => True
  | p, some s :: rest => (none ∈ rest → ¬MisreadsFrom p s) ∧ Sound (Parser.after p s) rest
  | p, none :: rest => Sound (p.map Parser.afterValue) rest

/-- Whatever is rendered for the shell, the commands it reads expose no value. -/
def ShellRefuses (toString : Json → Text) (t : CompiledTemplate) (env : Text → Except TemplateErrorKind Text) : Prop :=
  ∀ n out, t.renderWithEnv toString n env .shell = .ok out →
    out = (spans toString t n env).flatMap Span.written ∧ Unexposed (some .new) (spans toString t n env)

section run
variable {toString : Json → Text} {root : Json} {env : Text → Except TemplateErrorKind Text} {raw : Text}

theorem run_unexposed {segments : List Segment} {r r' : Rendering} {p q : Option Parser}
    (hsound : Sound q (operators env segments)) (hsettled : Settled r.shell)
    (hkept : none ∈ operators env segments → ∃ p₀ q₀, p = some p₀ ∧ q = some q₀ ∧ Resumes p₀ q₀ ∧ Kept r.shell q₀)
    (hrun : segments.foldlM (renderSegment toString root env .shell raw) r = .ok r') :
    r'.out = r.out ++ (spansFrom toString root env r.shell segments).flatMap Span.written ∧
      Unexposed p (spansFrom toString root env r.shell segments) := by
  induction segments generalizing r p q with
  | nil =>
    cases hrun
    exact ⟨(List.append_nil _).symm, trivial⟩
  | cons segment segments ih =>
    obtain ⟨next, hadds, hrest⟩ := foldlM_adds hrun
    unfold operators at hsound hkept
    rw [List.map_cons] at hsound hkept
    cases hadds with
    | text s hoperator hshell hout hspans =>
      rw [hoperator] at hsound hkept
      obtain ⟨hmisreads, hsound⟩ := hsound
      have hnext : none ∈ operators env segments →
          ∃ p₀ q₀, Parser.after p s = some p₀ ∧ Parser.after q s = some q₀ ∧ Resumes p₀ q₀ ∧ Kept next.shell q₀ := by
        intro hvalue
        obtain ⟨p₀, q₀, rfl, rfl, hresumes, hq₀⟩ := hkept (List.mem_cons_of_mem _ hvalue)
        have hunflagged := unflagged_run hvalue hrest
        rw [hshell] at hunflagged ⊢
        obtain ⟨q', hq', hlater⟩ := hq₀.advance hunflagged (hmisreads hvalue)
        obtain ⟨p', hp', hresumes'⟩ := hresumes.after hq'
        exact ⟨p', q', hp', hq', hresumes', hlater⟩
      obtain ⟨hwritten, hunexposed⟩ := ih hsound (hshell ▸ hsettled.advance s) hnext hrest
      rw [hspans]
      refine ⟨?_, hunexposed⟩
      rw [hwritten, hout, List.append_assoc]
      rfl
    | value v hoperator hallowed hshell hout hspans =>
      rw [hoperator] at hsound hkept
      obtain ⟨p₀, q₀, rfl, rfl, hresumes, hq₀⟩ := hkept List.mem_cons_self
      obtain ⟨hhidden, ⟨p', hp', hresumes'⟩, hlater⟩ := hq₀.value hresumes hallowed hsettled v
      obtain ⟨hwritten, hunexposed⟩ := ih hsound (hshell ▸ hsettled.advance _)
        (fun _ => ⟨p', q₀.afterValue, rfl, rfl, hresumes', hshell ▸ hlater⟩) hrest
      rw [hspans]
      refine ⟨?_, hhidden, ?_⟩
      · rw [hwritten, hout, List.append_assoc]
        rfl
      · rw [hp']
        exact hunexposed

end run

/-- Where up to the last value the tracker misreads nothing, it refuses every value that would be a
command word, the operand of a redirection, or an argument that is read as shell code again. -/
theorem shell_refuses (toString : Json → Text) (t : CompiledTemplate) (env : Text → Except TemplateErrorKind Text)
    (hsound : Sound (some .new) (operators env t.segments)) : ShellRefuses toString t env := by
  intro n out h
  unfold CompiledTemplate.renderWithEnv at h
  cases hrun : t.segments.foldlM (renderSegment toString (toValue n) env .shell t.raw) .new with
  | error e =>
    rw [hrun] at h
    cases h
  | ok r =>
    rw [hrun] at h
    cases h
    exact run_unexposed hsound (settled_of_idle rfl) (fun _ => ⟨.new, .new, rfl, rfl, .same _, kept_new⟩) hrun

/-! ### The condition, computed -/

theorem misread_iff {l : Lexer} {cs : Commands} {c : Char} : Misread l cs c ↔
    Slip l c ∨
    (l.frame.context = .bare ∧ l.position = .operand ∧ l.escaped = false ∧ (c = '&' ∨ c = '|')) ∨
    (l.frame.context = .bare ∧ l.position = .operand ∧ l.escaped = true ∧ c ≠ '\n') ∨
    cs.misreads (l.events c) = true := by
  constructor
  · intro h
    cases h with
    | slip h => exact .inl h
    | operator hc hp he hc' => exact .inr (.inl ⟨hc, hp, he, hc'⟩)
    | escaped hc hp he hc' => exact .inr (.inr (.inl ⟨hc, hp, he, hc'⟩))
    | commands h => exact .inr (.inr (.inr h))
  · rintro (h | ⟨hc, hp, he, hc'⟩ | ⟨hc, hp, he, hc'⟩ | h)
    · exact .slip h
    · exact .operator hc hp he hc'
    · exact .escaped hc hp he hc'
    · exact .commands h

instance (l : Lexer) (cs : Commands) (c : Char) : Decidable (Misread l cs c) := decidable_of_iff _ misread_iff.symm

theorem misreadsFrom_nil (p : Option Parser) : ¬MisreadsFrom p [] := by
  rintro ⟨before, c, rest, h, _⟩
  simp at h

theorem misreadsFrom_cons (p : Option Parser) (c : Char) (s : Text) :
    MisreadsFrom p (c :: s) ↔ (∃ q ∈ p, Misread q.lexer q.commands c) ∨ MisreadsFrom (p.bind (·.step c)) s := by
  constructor
  · rintro ⟨before, c', rest, h, q, hq, hmisread⟩
    cases before with
    | nil =>
      cases h
      exact .inl ⟨q, hq, hmisread⟩
    | cons d before =>
      cases h
      exact .inr ⟨before, c', rest, rfl, q, hq, hmisread⟩
  · rintro (⟨q, hq, hmisread⟩ | ⟨before, c', rest, rfl, q, hq, hmisread⟩)
    · exact ⟨[], c, s, rfl, q, hq, hmisread⟩
    · exact ⟨c :: before, c', rest, rfl, q, hq, hmisread⟩

instance (p : Option Parser) (c : Char) : Decidable (∃ q ∈ p, Misread q.lexer q.commands c) :=
  match p with
  | none => isFalse (by simp)
  | some q => decidable_of_iff (Misread q.lexer q.commands c) (by simp)

instance decidableMisreadsFrom : (p : Option Parser) → (s : Text) → Decidable (MisreadsFrom p s)
  | p, [] => isFalse (misreadsFrom_nil p)
  | p, c :: s =>
    have := decidableMisreadsFrom (p.bind (·.step c)) s
    decidable_of_iff _ (misreadsFrom_cons p c s).symm

instance decidableSound : (p : Option Parser) → (ops : List (Option Text)) → Decidable (Sound p ops)
  | _, [] => isTrue trivial
  | p, some s :: rest =>
    have := decidableSound (Parser.after p s) rest
    inferInstanceAs (Decidable ((none ∈ rest → ¬MisreadsFrom p s) ∧ Sound (Parser.after p s) rest))
  | p, none :: rest => decidableSound (p.map Parser.afterValue) rest

/-- `MODE=prod run {{ notification.payload }} "$(cat '{{ notification.payload }}')" 2>/tmp/log` -/
def shellArguments : CompiledTemplate :=
  ⟨"MODE=prod run \x7b\x7b notification.payload \x7d\x7d \"$(cat '\x7b\x7b notification.payload \x7d\x7d')\" 2>/tmp/log".toList,
    [.literal "MODE=prod run ".toList, .notificationPath ["payload".toList], .literal " \"$(cat '".toList,
      .notificationPath ["payload".toList], .literal "')\" 2>/tmp/log".toList]⟩

theorem shell_refuses_arguments :
    compile shellArguments.raw = .ok shellArguments ∧
      ShellRefuses (fun _ => []) shellArguments (fun _ => .error .envNotSet) ∧
      shellArguments.renderWithEnv (fun _ => []) (shellNotification "a'b$(x)") (fun _ => .error .envNotSet) .shell =
        .ok "MODE=prod run 'a'\\''b$(x)' \"$(cat 'a'\\''b$(x)')\" 2>/tmp/log".toList :=
  ⟨by decide +kernel, shell_refuses _ _ _ (by decide +kernel), by decide +kernel⟩

/-- `>| /tmp/log {{ notification.payload }}` -/
def shellClobber : CompiledTemplate :=
  ⟨">| /tmp/log \x7b\x7b notification.payload \x7d\x7d".toList,
    [.literal ">| /tmp/log ".toList, .notificationPath ["payload".toList]]⟩

/-- The operand of `>|` is taken for the command word, and the command word for an argument. -/
theorem shell_refuses_clobber :
    compile shellClobber.raw = .ok shellClobber ∧
      ¬ShellRefuses (fun _ => []) shellClobber (fun _ => .error .envNotSet) := by
  refine ⟨by decide +kernel, fun h => ?_⟩
  obtain ⟨-, hunexposed⟩ := h (shellNotification "id") ">| /tmp/log 'id'".toList (by decide +kernel)
  obtain ⟨⟨q, hq, hexposes⟩, -⟩ := And.imp_left (fun hhidden => hhidden [] (List.nil_prefix)) hunexposed
  cases hq
  exact absurd hexposes (by decide +kernel)

end Aviso.Template
