import Aviso.Proofs.ShellSimulation
import Aviso.Proofs.ValueNeutrality
import Aviso.Template.PosixReading

namespace Aviso.Template
open ShellTracker
open Posix
open Lexer (reading after states)

variable {t : ShellTracker} {l l' base : Lexer}

/-! ### The state inside single quotes -/

/-- Inside single quotes the lexer stands inside a word. -/
def Posix.Lexer.Enclosed (l : Lexer) : Prop :=
  l.frame.context = .singleQuoted → l.position = l.frame.inside

theorem enclosed_open (h : l.frame.context = .bare ∨ l.frame.context = .doubleQuoted) : l.Enclosed := by
  intro hc
  rcases h with h | h <;> cases h.symm.trans hc

theorem enclosed_closeFrame (hc : l.frame.context = .bare ∨ l.frame.context = .doubleQuoted)
    (hnested : Nested l.frame l.outer) : l.closeFrame.Enclosed := by
  unfold Lexer.closeFrame
  cases houter : l.outer with
  | nil => exact enclosed_open hc
  | cons around outer =>
    rw [houter] at hnested
    exact enclosed_open hnested.1

theorem enclosed_readCommand (hc : l.frame.context = .bare ∨ l.frame.context = .doubleQuoted)
    (hnested : Nested l.frame l.outer) {c : Char} (h : l.readCommand c = some l') : l'.Enclosed := by
  unfold Lexer.readCommand at h
  split_ifs at h
  · cases h
    exact enclosed_open (.inl rfl)
  · cases h
    exact enclosed_closeFrame hc hnested
  · cases h
    exact enclosed_open hc
  · cases h
    exact enclosed_open hc
  · cases h
    exact enclosed_open hc
  · cases h
    exact enclosed_open hc
  · cases h
    exact enclosed_open hc
  · cases h
    rintro ⟨⟩
  · cases h
    exact enclosed_open hc

theorem enclosed_read (hc : l.frame.context = .bare ∨ l.frame.context = .doubleQuoted)
    (hnested : Nested l.frame l.outer) {c : Char} (h : l.read c = some l') : l'.Enclosed := by
  unfold Lexer.read at h
  split_ifs at h
  · cases h
    exact enclosed_open hc
  · cases h
    exact enclosed_open (.inl rfl)
  · cases h
    exact enclosed_open hc
  · cases h
    exact fun _ => rfl
  · cases h
    exact enclosed_open (.inr rfl)
  · cases h
    exact enclosed_closeFrame hc hnested
  · cases h
    exact enclosed_open hc
  · exact enclosed_readCommand hc hnested h

theorem enclosed_readAhead (hc : l.frame.context = .bare ∨ l.frame.context = .doubleQuoted)
    (hnested : Nested l.frame l.outer) {c : Char} (h : l.readAhead c = some l') : l'.Enclosed := by
  unfold Lexer.readAhead at h
  split at h
  · exact enclosed_read hc hnested h
  · split_ifs at h
    · cases h
      exact enclosed_open hc
    · cases h
      exact enclosed_open (.inl rfl)
    · cases h
      exact enclosed_open hc
    · cases h
      exact enclosed_open hc
    · exact enclosed_read (l := { l with ahead := .none }) hc hnested h
  · split_ifs at h
    exact enclosed_read (l := l.openFrame .substitution) (.inl rfl) ⟨hc, by rintro ⟨⟩, hnested⟩ h
  · split_ifs at h
    · cases h
      exact enclosed_open hc
    · exact enclosed_read (l := { l with ahead := .none }) hc hnested h
  · split_ifs at h
    exact enclosed_read (l := { l with ahead := .none }) hc hnested h

theorem Posix.Lexer.Enclosed.step (henclosed : l.Enclosed) (hnested : Nested l.frame l.outer) {c : Char}
    (h : l.step c = some l') : l'.Enclosed := by
  unfold Lexer.step at h
  have hread : l.frame.context = .bare ∨ l.frame.context = .doubleQuoted →
      (if l.escaped then some (if c = '\n' then { l with escaped := false } else l.literal)
        else if c = '\\' then some { l with escaped := true } else l.readAhead c) = some l' →
      l'.Enclosed := by
    intro hc h
    split_ifs at h
    · cases h
      exact enclosed_open hc
    · cases h
      unfold Lexer.literal
      split
      · exact enclosed_open (.inl rfl)
      · exact enclosed_open hc
    · cases h
      exact enclosed_open hc
    · exact enclosed_readAhead hc hnested h
  split at h
  · rename_i hc
    split_ifs at h
    · cases h
      exact enclosed_open (.inl rfl)
    · cases h
      exact henclosed
  · rename_i hc
    split_ifs at h
    · cases h
      exact enclosed_open (.inl rfl)
    · cases h
      intro hquoted
      cases hc.symm.trans hquoted
  · rename_i hc
    exact hread (.inl hc) h
  · rename_i hc
    exact hread (.inr hc) h

/-! ### Reading a value -/

theorem after_cons (l : Option Lexer) (c : Char) (text : Text) :
    after l (c :: text) = after (reading l c).1 text := rfl

theorem after_append (l : Option Lexer) (a b : Text) : after l (a ++ b) = after (after l a) b := by
  unfold after
  rw [Lib.Step.run_append]

/-- From `l` the text `w` spells `v` and leads to `l'`, all of it within the value read in `base`. -/
structure Spells (base l : Lexer) (w v : Text) (l' : Lexer) : Prop where
  run : reading.run (some l) w = (some l', v)
  within : ∀ p, p <+: w → ∃ m, after (some l) p = some m ∧ base.Within m

theorem Spells.nil (h : base.Within l) : Spells base l [] [] l := by
  refine ⟨rfl, fun p hp => ?_⟩
  rw [List.prefix_nil.mp hp]
  exact ⟨l, rfl, h⟩

theorem Spells.cons {c : Char} {w v : Text} {m : Lexer} (h : base.Within l) (hstep : l.step c = some m)
    (hrest : Spells base m w v l') : Spells base l (c :: w) (l.text c ++ v) l' := by
  have hreading : reading (some l) c = (some m, l.text c) := by
    rw [← hstep]
    rfl
  refine ⟨?_, fun p hp => ?_⟩
  · rw [Lib.Step.run_cons, hreading, hrest.run]
  · rcases List.prefix_cons_iff.mp hp with rfl | ⟨q, rfl, hq⟩
    · exact ⟨l, rfl, h⟩
    · rw [after_cons, hreading]
      exact hrest.within q hq

theorem Spells.append {w₁ w₂ v₁ v₂ : Text} {m : Lexer} (h₁ : Spells base l w₁ v₁ m)
    (h₂ : Spells base m w₂ v₂ l') : Spells base l (w₁ ++ w₂) (v₁ ++ v₂) l' := by
  refine ⟨?_, fun p hp => ?_⟩
  · rw [Lib.Step.run_append, h₁.run, h₂.run]
  · rcases List.prefix_or_prefix_of_prefix hp (List.prefix_append w₁ w₂) with hp | ⟨q, rfl⟩
    · exact h₁.within p hp
    · rw [after_append, show after (some l) w₁ = some m from congrArg Prod.fst h₁.run]
      exact h₂.within q ((List.prefix_append_right_inj w₁).mp hp)

/-- Characters that are each written to spell themselves spell the whole value. -/
theorem Spells.flatMap {write : Char → Text} (h : base.Within l)
    (hchar : ∀ c, Spells base l (write c) [c] l) (v : Text) : Spells base l (v.flatMap write) v l := by
  induction v with
  | nil => exact .nil h
  | cons c v ih => exact (hchar c).append ih

/-- Inside a word, with nothing half read. -/
def inWord (frame : Frame) (outer : List Frame) : Lexer := ⟨frame, outer, frame.inside, .none, false⟩

/-- The word of `base`, as long as no frame is opened or closed and nothing is half read. -/
def Spans (base : Lexer) (frame : Frame) (outer : List Frame) : Prop :=
  ∀ m : Lexer, m.frame.opener = frame.opener → m.outer = outer → m.position = frame.inside →
    m.ahead = .none → base.Within m

/-- In single quotes a quote is closed, escaped and opened again. -/
theorem spells_single {opener : Opener} {outer : List Frame} (h : Spans base ⟨opener, .singleQuoted⟩ outer)
    (c : Char) : Spells base (inWord ⟨opener, .singleQuoted⟩ outer) (writeSingle c) [c]
      (inWord ⟨opener, .singleQuoted⟩ outer) := by
  have hstart : base.Within (inWord ⟨opener, .singleQuoted⟩ outer) := h _ rfl rfl rfl rfl
  unfold writeSingle
  split
  · rename_i hquote
    subst hquote
    exact .cons hstart rfl (.cons (h _ rfl rfl rfl rfl) rfl (.cons (h _ rfl rfl rfl rfl) rfl
      (.cons (h _ rfl rfl rfl rfl) rfl (.nil hstart))))
  · rename_i hquote
    have htext : (inWord ⟨opener, .singleQuoted⟩ outer).text c = [c] := if_neg hquote
    have hstep : (inWord ⟨opener, .singleQuoted⟩ outer).step c = some (inWord ⟨opener, .singleQuoted⟩ outer) :=
      congrArg some (if_neg hquote)
    have hone := Spells.cons hstart hstep (.nil hstart)
    rwa [htext] at hone

/-- In double quotes what would be read is escaped. -/
theorem spells_double {opener : Opener} {outer : List Frame} (h : Spans base ⟨opener, .doubleQuoted⟩ outer)
    (c : Char) : Spells base (inWord ⟨opener, .doubleQuoted⟩ outer) (writeDouble c) [c]
      (inWord ⟨opener, .doubleQuoted⟩ outer) := by
  have hstart : base.Within (inWord ⟨opener, .doubleQuoted⟩ outer) := h _ rfl rfl rfl rfl
  unfold writeDouble
  split
  · rename_i hspecial
    let opened : Lexer := { inWord ⟨opener, .doubleQuoted⟩ outer with escaped := true }
    have hline : c ≠ '\n' := by
      rintro rfl
      revert hspecial
      decide
    have hstep : opened.step c = some (inWord ⟨opener, .doubleQuoted⟩ outer) := congrArg some (if_neg hline)
    have htext : opened.text c = [c] := by
      simp only [Bool.or_eq_true, decide_eq_true_eq] at hspecial
      rcases hspecial with ((rfl | rfl) | rfl) | rfl <;> rfl
    have hone := Spells.cons (h opened rfl rfl rfl rfl) hstep (.nil hstart)
    rw [htext] at hone
    exact .cons hstart rfl hone
  · rename_i hplain
    simp only [Bool.or_eq_true, decide_eq_true_eq, not_or] at hplain
    obtain ⟨⟨⟨hback, hdollar⟩, htick⟩, hquote⟩ := hplain
    have hstep : (inWord ⟨opener, .doubleQuoted⟩ outer).step c = some (inWord ⟨opener, .doubleQuoted⟩ outer) := by
      change (if c = '\\' then _ else (inWord ⟨opener, .doubleQuoted⟩ outer).read c) = _
      rw [if_neg hback]
      unfold Lexer.read
      rw [if_neg hdollar, if_neg htick, if_pos (by rfl), if_neg hquote]
    have htext : (inWord ⟨opener, .doubleQuoted⟩ outer).text c = [c] := by
      change (if c = '\\' then [] else (inWord ⟨opener, .doubleQuoted⟩ outer).plainText c) = _
      rw [if_neg hback]
      unfold Lexer.plainText
      rw [if_neg (by simp [hdollar, htick, hquote]), if_pos (by rfl)]
    have hone := Spells.cons hstart hstep (.nil hstart)
    rwa [htext] at hone

/-- Outside quotes a quote of its own starts the value, or goes on with the word. -/
theorem step_quote (hc : l.frame.context = .bare) (hescaped : l.escaped = false)
    (hahead : l.ahead = .none ∨ l.ahead = .name) :
    l.step '\'' = some (inWord ⟨l.frame.opener, .singleQuoted⟩ l.outer) ∧ l.text '\'' = [] := by
  obtain ⟨⟨opener, context⟩, outer, position, ahead, escaped⟩ := l
  dsimp only at hc hescaped hahead
  subst hc hescaped
  rcases hahead with rfl | rfl
  · exact ⟨rfl, rfl⟩
  · exact ⟨rfl, rfl⟩

theorem spells_bare (hc : l.frame.context = .bare) (hescaped : l.escaped = false)
    (hahead : l.ahead = .none ∨ l.ahead = .name) (hbase : base.Within l) (h : Spans base l.frame l.outer)
    (v : Text) : Spells base l ('\'' :: (v.flatMap writeSingle ++ ['\''])) v (inWord l.frame l.outer) := by
  obtain ⟨hstep, htext⟩ := step_quote hc hescaped hahead
  have hquoted : Spans base ⟨l.frame.opener, .singleQuoted⟩ l.outer := h
  have hwithin : base.Within (inWord ⟨l.frame.opener, .singleQuoted⟩ l.outer) := hquoted _ rfl rfl rfl rfl
  have hbody := Spells.flatMap hwithin (spells_single hquoted) v
  have hclosed : (inWord ⟨l.frame.opener, .singleQuoted⟩ l.outer).step '\'' = some (inWord l.frame l.outer) := by
    rw [show l.frame = ⟨l.frame.opener, .bare⟩ from hc ▸ rfl]
    rfl
  have hend := Spells.cons hwithin hclosed (.nil (h _ rfl rfl rfl rfl))
  have hall := Spells.cons hbase hstep (hbody.append hend)
  have hsilent : (inWord ⟨l.frame.opener, .singleQuoted⟩ l.outer).text '\'' = [] := rfl
  rw [htext, hsilent] at hall
  simpa using hall

/-- A line continuation completes a pending escape. -/
theorem Spells.continuation {w v : Text} (hc : l.frame.context = .bare ∨ l.frame.context = .doubleQuoted)
    (hescaped : l.escaped = true) (hrest : Spells l { l with escaped := false } w v l') :
    Spells l l ('\n' :: w) v l' := by
  have hstep : l.step '\n' = some { l with escaped := false } := by
    unfold Lexer.step
    rcases hc with hc | hc <;> rw [hc, if_pos hescaped] <;> rfl
  have htext : l.text '\n' = [] := by
    unfold Lexer.text
    rcases hc with hc | hc <;> rw [hc] <;> simp [hescaped]
  have hall := Spells.cons (.inl rfl) hstep hrest
  rwa [htext] at hall

theorem Spells.literal {v w : Text} (h : Spells l l w v l.afterValue) (hc : l.frame.context ≠ .comment) :
    l.Literal v w :=
  .word hc h.run h.within

theorem Standing.idle {wordStart : Bool} {text : Text} {opener : Opener} {position : Position} {ahead : Ahead}
    {token : Token} (h : Standing wordStart text opener position ahead token) (htoken : token = .none) :
    ahead = .none ∨ ahead = .name := by
  cases h with
  | fresh | redirect | word | braces | bracesRedirect => exact .inl rfl
  | less => cases htoken
  | expansion hahead hless =>
    cases ahead with
    | none => exact .inl rfl
    | name => exact .inr rfl
    | dollar | dollarParen | less => cases htoken

theorem pending_idle {token : Token} (h : t.pending = pendingAs l.escaped token)
    (hidle : t.pending = .token .none ∨ t.pending = .escape .none) : token = .none := by
  unfold pendingAs at h
  split at h
  · rcases hidle with hidle | hidle <;> cases h.symm.trans hidle
    rfl
  · rcases hidle with hidle | hidle <;> cases h.symm.trans hidle
    rfl

/-- The written value, after the line continuation that completes an escape. -/
theorem quote_eq (hpending : t.pending = pendingAs l.escaped .none)
    (hc : t.context = .bare ∨ t.context = .doubleQuoted) (v : Text) :
    t.quote v = if l.escaped then '\n' :: t.quoteInContext v else t.quoteInContext v := by
  have hquoted : t.context ≠ .singleQuoted := by
    rcases hc with hc | hc <;> rw [hc] <;> decide
  unfold ShellTracker.quote
  dsimp only
  rw [hpending]
  cases l.escaped with
  | true => exact if_pos hquoted
  | false => rfl

/-- Where the tracker stands, it and the lexer agree on the quoting and the value may be placed. -/
structure Accepts (t : ShellTracker) (l : Lexer) : Prop where
  follows : Follows t l
  enclosed : l.Enclosed
  allowed : t.unsupported = none
  /-- No name of a parameter goes on inside double quotes. -/
  named : l.frame.context = .doubleQuoted → l.ahead ≠ .name

theorem afterValue_inWord (hc : l.frame.context ≠ .comment) : l.afterValue = inWord l.frame l.outer :=
  if_neg hc

theorem spans_self (l : Lexer) : Spans l l.frame l.outer :=
  fun _ hopener houter hposition hahead => .inr (.inr ⟨hopener, houter, hposition, hahead⟩)

theorem quoteInContext_single (hc : t.context = .singleQuoted) (v : Text) :
    t.quoteInContext v = v.flatMap writeSingle := by
  unfold quoteInContext
  rw [hc]
  rfl

theorem quoteInContext_double (hc : t.context = .doubleQuoted) (v : Text) :
    t.quoteInContext v = v.flatMap writeDouble := by
  unfold quoteInContext
  rw [hc]
  rfl

theorem quoteInContext_bare (hc : t.context = .bare) (v : Text) :
    t.quoteInContext v = '\'' :: (v.flatMap writeSingle ++ ['\'']) := by
  unfold quoteInContext
  rw [hc]
  rfl

/-- A comment goes on over text without newlines. -/
theorem after_comment (hc : l.frame.context = .comment) {w : Text} (hw : '\n' ∉ w) :
    after (some l) w = some l := by
  induction w with
  | nil => rfl
  | cons c w ih =>
    rw [List.mem_cons, not_or] at hw
    obtain ⟨hline, hrest⟩ := hw
    have hstep : l.step c = some l := by
      unfold Lexer.step
      rw [hc]
      exact congrArg some (if_neg (Ne.symm hline))
    rw [after_cons, show (reading (some l) c).1 = some l from hstep]
    exact ih hrest

/-- In double quotes a value is placed where nothing but an escape is half read. -/
theorem Accepts.idle_double (h : Accepts t l) (hc : l.frame.context = .doubleQuoted) :
    l.position = l.frame.inside ∧ l.ahead = .none ∧ t.pending = pendingAs l.escaped .none := by
  obtain ⟨hposition, hless, hp⟩ := h.follows.double hc
  have htoken := pending_idle hp ((supported h.allowed).2.2.1 (.inr (h.follows.context.trans hc)))
  have hahead : l.ahead = .none := by
    have hname := h.named hc
    revert hname hless htoken
    cases l.ahead <;> simp [Ahead.token]
  exact ⟨hposition, hahead, htoken ▸ hp⟩

/-- Outside quotes the name of a parameter may be about to end. -/
theorem Accepts.idle_bare (h : Accepts t l) (hc : l.frame.context = .bare) :
    (l.ahead = .none ∨ l.ahead = .name) ∧ t.pending = pendingAs l.escaped .none := by
  obtain ⟨token, hp, hstanding⟩ := h.follows.standing hc
  have htoken := pending_idle hp ((supported h.allowed).2.2.1 (.inl (h.follows.context.trans hc)))
  exact ⟨hstanding.idle htoken, htoken ▸ hp⟩

theorem Accepts.comment (h : Accepts t l) (hc : l.frame.context = .comment) (v : Text) :
    l.Literal v (t.quote v) := by
  have htc : t.context = .comment := h.follows.context.trans hc
  obtain ⟨-, hp, -⟩ := h.follows.comment hc
  have hquote : t.quote v = v.map fun c => if c = '\n' then ' ' else c := by
    rw [quote_settled hp]
    unfold quoteInContext
    rw [htc]
  refine .comment hc hquote fun p hpre => after_comment hc fun hline => ?_
  have hmem := hpre.subset hline
  rw [hquote] at hmem
  obtain ⟨c, _, hc'⟩ := List.mem_map.mp hmem
  split at hc'
  · exact absurd hc' (by decide)
  · rename_i hne
    exact hne hc'

theorem Accepts.single (h : Accepts t l) (hc : l.frame.context = .singleQuoted) (v : Text) :
    l.Literal v (t.quote v) := by
  have htc : t.context = .singleQuoted := h.follows.context.trans hc
  have hcomment : l.frame.context ≠ .comment := by rw [hc]; decide
  obtain ⟨hp, hahead, hescaped⟩ := h.follows.single hc
  rw [quote_settled hp, quoteInContext_single htc]
  refine Spells.literal ?_ hcomment
  rw [afterValue_inWord hcomment]
  obtain ⟨⟨opener, context⟩, outer, position, ahead, escaped⟩ := l
  dsimp only at hc hahead hescaped
  subst hc hahead hescaped
  obtain rfl : position = Frame.inside ⟨opener, .singleQuoted⟩ := h.enclosed rfl
  have hspans := spans_self (inWord ⟨opener, .singleQuoted⟩ outer)
  exact Spells.flatMap (.inl rfl) (spells_single hspans) v

theorem Accepts.double (h : Accepts t l) (hc : l.frame.context = .doubleQuoted) (v : Text) :
    l.Literal v (t.quote v) := by
  have htc : t.context = .doubleQuoted := h.follows.context.trans hc
  have hcomment : l.frame.context ≠ .comment := by rw [hc]; decide
  obtain ⟨hposition, hahead, hp⟩ := h.idle_double hc
  rw [quote_eq hp (.inr htc), quoteInContext_double htc]
  refine Spells.literal ?_ hcomment
  rw [afterValue_inWord hcomment]
  have hvalue : Spells l { l with escaped := false } (v.flatMap writeDouble) v (inWord l.frame l.outer) := by
    have hspans := spans_self l
    obtain ⟨⟨opener, context⟩, outer, position, ahead, escaped⟩ := l
    dsimp only at hc hahead
    subst hc hahead
    obtain rfl : position = Frame.inside ⟨opener, .doubleQuoted⟩ := hposition
    exact Spells.flatMap (.inr (.inl rfl)) (spells_double hspans) v
  split
  · rename_i hescaped
    exact .continuation (.inr hc) hescaped hvalue
  · rename_i hescaped
    have hsame : { l with escaped := false } = l := by rw [← Bool.eq_false_iff.mpr hescaped]
    rwa [hsame] at hvalue

theorem Accepts.bare (h : Accepts t l) (hc : l.frame.context = .bare) (v : Text) :
    l.Literal v (t.quote v) := by
  have htc : t.context = .bare := h.follows.context.trans hc
  have hcomment : l.frame.context ≠ .comment := by rw [hc]; decide
  obtain ⟨hahead, hp⟩ := h.idle_bare hc
  rw [quote_eq hp (.inl htc), quoteInContext_bare htc]
  refine Spells.literal ?_ hcomment
  rw [afterValue_inWord hcomment]
  have hvalue : Spells l { l with escaped := false } ('\'' :: (v.flatMap writeSingle ++ ['\''])) v
      (inWord l.frame l.outer) :=
    spells_bare (l := { l with escaped := false }) hc rfl hahead (.inr (.inl rfl)) (spans_self l) v
  split
  · rename_i hescaped
    exact .continuation (.inl hc) hescaped hvalue
  · rename_i hescaped
    have hsame : { l with escaped := false } = l := by rw [← Bool.eq_false_iff.mpr hescaped]
    rwa [hsame] at hvalue

/-- A value that may be placed is literal where it stands. -/
theorem Accepts.literal (h : Accepts t l) (v : Text) : l.Literal v (t.quote v) := by
  cases hc : l.frame.context with
  | bare => exact h.bare hc v
  | singleQuoted => exact h.single hc v
  | doubleQuoted => exact h.double hc v
  | comment => exact h.comment hc v

theorem Posix.Lexer.Literal.after {v w : Text} (h : l.Literal v w) : after (some l) w = some l.afterValue := by
  cases h with
  | word _ hrun => exact congrArg Prod.fst hrun
  | comment hc _ hkept =>
    rw [hkept w List.prefix_rfl, Lexer.afterValue, if_pos hc]

/-- After the value the tracker follows the lexer again. -/
theorem Accepts.advanceValue (h : Accepts t l) (hsettled : Settled t) (v : Text) :
    Follows (t.advanceValue (t.quote v)) l.afterValue ∧ l.afterValue.Enclosed := by
  obtain ⟨wordStart, hvalue, hstart⟩ := advanceValue_quote hsettled h.allowed v
  rw [hvalue]
  by_cases hc : l.frame.context = .comment
  · have hafter : l.afterValue = l := if_pos hc
    rw [hafter]
    refine ⟨⟨h.follows.frames, h.follows.nested, ?_⟩, h.enclosed⟩
    obtain ⟨hbrace, -, hahead, hescaped⟩ := h.follows.comment hc
    exact .comment hc hbrace rfl hahead hescaped
  · rw [afterValue_inWord hc]
    refine ⟨?_, fun _ => rfl⟩
    by_cases hquoted : l.frame.context = .singleQuoted
    · exact ⟨h.follows.frames, h.follows.nested, .single hquoted rfl rfl rfl⟩
    · have hopen : l.frame.context = .bare ∨ l.frame.context = .doubleQuoted := by
        revert hc hquoted
        cases l.frame.context <;> simp
      refine follows_inside h.follows.frames h.follows.nested hopen rfl ?_ (by rintro ⟨⟩) rfl
      exact fun hbare => hstart (h.follows.context.trans hbare)

/-! ### The rest of a template -/

theorem unflagged_advance {s : Text} (h : (t.advance s).unsupportedConstruct = none) :
    t.unsupportedConstruct = none := by
  induction s generalizing t with
  | nil => exact h
  | cons c s ih => exact unflagged_step (ih h)

/-- Somewhere in the text, read from `l`, the tracker slips. -/
def SlipsFrom (l : Option Lexer) (s : Text) : Prop :=
  ∃ before c rest, s = before ++ c :: rest ∧ ∃ m, after l before = some m ∧ Slip m c

theorem Follows.advance (h : Follows t l) (henclosed : l.Enclosed) {s : Text}
    (hnone : (t.advance s).unsupportedConstruct = none) (hslips : ¬SlipsFrom (some l) s) :
    ∃ l', after (some l) s = some l' ∧ Follows (t.advance s) l' ∧ l'.Enclosed := by
  induction s generalizing t l with
  | nil => exact ⟨l, rfl, h, henclosed⟩
  | cons c s ih =>
    have hslip : ¬Slip l c := fun hslip => hslips ⟨[], c, s, rfl, l, rfl, hslip⟩
    obtain ⟨m, hstep, hfollows⟩ := h.step hslip (unflagged_advance hnone)
    have hread : (Lexer.reading (some l) c).1 = some m := hstep
    have hrest : ¬SlipsFrom (some m) s := by
      rintro ⟨before, c', rest, rfl, m', hm', hslip'⟩
      refine hslips ⟨c :: before, c', rest, rfl, m', ?_, hslip'⟩
      rw [after_cons, hread]
      exact hm'
    rw [after_cons, hread]
    exact ih hfollows (henclosed.step h.nested hstep) hnone hrest

/-- The operator's text of a segment, or the place of a value. -/
def operatorOf (env : Text → Except TemplateErrorKind Text) : Segment → Option Text
  | .literal s => some s
  | .envVar name => some ((env name).toOption.getD [])
  | .notificationPath _ => none

def operators (env : Text → Except TemplateErrorKind Text) (segments : List Segment) : List (Option Text) :=
  segments.map (operatorOf env)

/-- Up to the last value the tracker slips nowhere, and no value stands in double quotes
right after the name of a parameter. Read with the values as parts of a word. -/
def Clean : Option Lexer → List (Option Text) → Prop
  | _, [] => True
  | l, some s :: rest => (none ∈ rest → ¬SlipsFrom l s) ∧ Clean (after l s) rest
  | l, none :: rest =>
    (∀ m, l = some m → m.frame.context = .doubleQuoted → m.ahead ≠ .name) ∧
      Clean (l.map Lexer.afterValue) rest

/-- The structure of the rendered texts, as the template and the environment give it. -/
def structureOf : Option Lexer → List (Option Text) → List (List (Option Lexer))
  | _, [] => []
  | l, some s :: rest => states l s :: structureOf (after l s) rest
  | l, none :: rest => [l.map Lexer.afterValue] :: structureOf (l.map Lexer.afterValue) rest

section run
variable {toString : Json → Text} {root : Json} {env : Text → Except TemplateErrorKind Text} {raw : Text}

/-- What one segment adds to a rendering for the shell. -/
inductive Adds (toString : Json → Text) (root : Json) (env : Text → Except TemplateErrorKind Text)
    (r : Rendering) (segment : Segment) (r' : Rendering) : Prop where
  | text (s : Text) : operatorOf env segment = some s → r'.shell = r.shell.advance s → r'.out = r.out ++ s →
      (∀ rest, spansFrom toString root env r.shell (segment :: rest) =
        .text s :: spansFrom toString root env r'.shell rest) → Adds toString root env r segment r'
  | value (v : Text) : operatorOf env segment = none → r.shell.unsupported = none →
      r'.shell = r.shell.advanceValue (r.shell.quote v) → r'.out = r.out ++ r.shell.quote v →
      (∀ rest, spansFrom toString root env r.shell (segment :: rest) =
        .value v (r.shell.quote v) :: spansFrom toString root env r'.shell rest) →
      Adds toString root env r segment r'

theorem renderSegment_adds {segment : Segment} {r r' : Rendering}
    (h : renderSegment toString root env .shell raw r segment = .ok r') : Adds toString root env r segment r' := by
  unfold renderSegment at h
  cases segment with
  | literal s =>
    cases h
    exact .text s rfl rfl rfl fun _ => rfl
  | envVar name =>
    dsimp only at h
    cases henv : env name with
    | error kind =>
      rw [henv] at h
      cases h
    | ok s =>
      rw [henv] at h
      cases h
      refine .text s ?_ rfl rfl fun rest => ?_
      · rw [operatorOf, henv]
        rfl
      · rw [spansFrom, henv]
        rfl
  | notificationPath path =>
    dsimp only at h
    cases hwalk : walkPath root path with
    | none =>
      rw [hwalk] at h
      cases h
    | some value =>
      rw [hwalk] at h
      unfold Rendering.value at h
      dsimp only at h
      cases hnone : r.shell.unsupported with
      | some construct =>
        rw [hnone] at h
        cases h
      | none =>
        rw [hnone] at h
        cases h
        refine .value (renderValue toString value) rfl hnone rfl rfl fun rest => ?_
        rw [spansFrom, hwalk]
        rfl

theorem foldlM_adds {segment : Segment} {segments : List Segment} {r r' : Rendering}
    (h : (segment :: segments).foldlM (renderSegment toString root env .shell raw) r = .ok r') :
    ∃ next, Adds toString root env r segment next ∧
      segments.foldlM (renderSegment toString root env .shell raw) next = .ok r' := by
  rw [List.foldlM_cons] at h
  cases hstep : renderSegment toString root env .shell raw r segment with
  | error e =>
    rw [hstep] at h
    cases h
  | ok next =>
    rw [hstep] at h
    exact ⟨next, renderSegment_adds hstep, h⟩

/-- Where a later value is rendered, nothing has been flagged. -/
theorem unflagged_run {segments : List Segment} {r r' : Rendering} (hvalue : none ∈ operators env segments)
    (hrun : segments.foldlM (renderSegment toString root env .shell raw) r = .ok r') :
    r.shell.unsupportedConstruct = none := by
  induction segments generalizing r with
  | nil => cases hvalue
  | cons segment segments ih =>
    obtain ⟨next, hadds, hrest⟩ := foldlM_adds hrun
    cases hadds with
    | value _ _ hallowed => exact (supported hallowed).1
    | text s hoperator hshell =>
      rcases List.mem_cons.mp hvalue with hnone | hvalue
      · cases hnone.trans hoperator
      · have hlater := ih hvalue hrest
        rw [hshell] at hlater
        exact unflagged_advance hlater

/-- A rendered text is read as its template and environment say, and its values as text. -/
structure ReadsAs (ops : List (Option Text)) (l : Option Lexer) (spans : List Span) : Prop where
  operator : spans.map Span.operator = ops
  skeleton : Posix.skeleton l spans = structureOf l ops
  literals : Literals l spans

theorem run_readsAs {segments : List Segment} {r r' : Rendering} {l : Option Lexer}
    (hclean : Clean l (operators env segments)) (hsettled : Settled r.shell)
    (hfollows : none ∈ operators env segments → ∃ m, l = some m ∧ Follows r.shell m ∧ m.Enclosed)
    (hrun : segments.foldlM (renderSegment toString root env .shell raw) r = .ok r') :
    r'.out = r.out ++ (spansFrom toString root env r.shell segments).flatMap Span.written ∧
      ReadsAs (operators env segments) l (spansFrom toString root env r.shell segments) := by
  induction segments generalizing r l with
  | nil =>
    cases hrun
    exact ⟨(List.append_nil _).symm, rfl, rfl, trivial⟩
  | cons segment segments ih =>
    obtain ⟨next, hadds, hrest⟩ := foldlM_adds hrun
    unfold operators at hclean hfollows
    rw [List.map_cons] at hclean hfollows
    cases hadds with
    | text s hoperator hshell hout hspans =>
      rw [hoperator] at hclean hfollows
      obtain ⟨hslips, hclean⟩ := hclean
      have hnext : none ∈ operators env segments →
          ∃ m, after l s = some m ∧ Follows next.shell m ∧ m.Enclosed := by
        intro hvalue
        obtain ⟨m, rfl, hm, henclosed⟩ := hfollows (List.mem_cons_of_mem _ hvalue)
        have hunflagged := unflagged_run hvalue hrest
        rw [hshell] at hunflagged ⊢
        exact hm.advance henclosed hunflagged (hslips hvalue)
      obtain ⟨hwritten, hreads⟩ := ih hclean (hshell ▸ hsettled.advance s) hnext hrest
      rw [hspans]
      refine ⟨?_, ?_, ?_, hreads.literals⟩
      · rw [hwritten, hout, List.append_assoc]
        rfl
      · rw [List.map_cons, hreads.operator, operators, operators, List.map_cons, hoperator]
        rfl
      · rw [Posix.skeleton, hreads.skeleton, operators, operators, List.map_cons, hoperator]
        rfl
    | value v hoperator hallowed hshell hout hspans =>
      rw [hoperator] at hclean hfollows
      obtain ⟨hnamed, hclean⟩ := hclean
      obtain ⟨m, rfl, hm, henclosed⟩ := hfollows List.mem_cons_self
      have haccepts : Accepts r.shell m := ⟨hm, henclosed, hallowed, hnamed m rfl⟩
      have hliteral := haccepts.literal v
      obtain ⟨hlater, hafter⟩ := haccepts.advanceValue hsettled v
      obtain ⟨hwritten, hreads⟩ := ih hclean (hshell ▸ hsettled.advance _)
        (fun _ => ⟨m.afterValue, rfl, hshell ▸ hlater, hafter⟩) hrest
      rw [hspans]
      have hstate : after (some m) (r.shell.quote v) = some m.afterValue := hliteral.after
      refine ⟨?_, ?_, ?_, ⟨m, rfl, hliteral⟩, ?_⟩
      · rw [hwritten, hout, List.append_assoc]
        rfl
      · rw [List.map_cons, hreads.operator, operators, operators, List.map_cons, hoperator]
        rfl
      · rw [Posix.skeleton, hstate, operators, List.map_cons, hoperator]
        exact congrArg _ hreads.skeleton
      · rw [hstate]
        exact hreads.literals

end run

/-- Any two notifications whose rendering succeeds are rendered alike for the shell. -/
def ShellLiteral (toString : Json → Text) (t : CompiledTemplate) (env : Text → Except TemplateErrorKind Text) : Prop :=
  ∀ n₁ n₂ out₁ out₂, t.renderWithEnv toString n₁ env .shell = .ok out₁ →
    t.renderWithEnv toString n₂ env .shell = .ok out₂ →
    out₁ = (spans toString t n₁ env).flatMap Span.written ∧
      out₂ = (spans toString t n₂ env).flatMap Span.written ∧
      ReadAlike (spans toString t n₁ env) (spans toString t n₂ env)

theorem render_readsAs {toString : Json → Text} {t : CompiledTemplate} {n : Watch.Notification}
    {env : Text → Except TemplateErrorKind Text} {out : Text}
    (hclean : Clean (some .new) (operators env t.segments))
    (h : t.renderWithEnv toString n env .shell = .ok out) :
    out = (spans toString t n env).flatMap Span.written ∧
      ReadsAs (operators env t.segments) (some .new) (spans toString t n env) := by
  unfold CompiledTemplate.renderWithEnv at h
  cases hrun : t.segments.foldlM (renderSegment toString (toValue n) env .shell t.raw) .new with
  | error e =>
    rw [hrun] at h
    cases h
  | ok r =>
    rw [hrun] at h
    cases h
    have hall := run_readsAs hclean (settled_of_idle rfl)
      (fun _ => ⟨.new, rfl, follows_new, by rintro ⟨⟩⟩) hrun
    exact ⟨hall.1, hall.2⟩

/-- Where up to the last value the tracker does not slip and no value goes on with the name
of a parameter, every value is data: the shell reads it as text, and nothing else differently. -/
theorem shell_literalness (toString : Json → Text) (t : CompiledTemplate)
    (env : Text → Except TemplateErrorKind Text) (hclean : Clean (some .new) (operators env t.segments)) :
    ShellLiteral toString t env := by
  intro n₁ n₂ out₁ out₂ h₁ h₂
  obtain ⟨hout₁, hreads₁⟩ := render_readsAs hclean h₁
  obtain ⟨hout₂, hreads₂⟩ := render_readsAs hclean h₂
  exact ⟨hout₁, hout₂, hreads₁.operator.trans hreads₂.operator.symm,
    hreads₁.skeleton.trans hreads₂.skeleton.symm, hreads₁.literals, hreads₂.literals⟩

/-! ### The condition, computed -/

theorem slip_iff {c : Char} : Slip l c ↔
    (l.frame.context = .bare ∧ l.frame.opener = .brace ∧ l.position = .braces true ∧ l.ahead = .none ∧
      l.escaped = false ∧ c = '#') ∨
    (l.ahead = .dollarParen ∧ l.escaped = true ∧ c ≠ '\n') ∨
    (l.frame.context = .bare ∧ l.position = .operand ∧ l.escaped = false ∧ c = '#') ∨
    (l.frame.context = .bare ∧ l.ahead = .dollar ∧ l.escaped = false ∧ c = '\'') ∨
    (l.frame.context = .bare ∧ l.position = .opened ∧ l.escaped = false ∧ c = '(') := by
  constructor
  · intro h
    cases h with
    | hash hc ho hp ha he hc' => exact .inl ⟨hc, ho, hp, ha, he, hc'⟩
    | escaped ha he hc => exact .inr (.inl ⟨ha, he, hc⟩)
    | operand hc hp he hc' => exact .inr (.inr (.inl ⟨hc, hp, he, hc'⟩))
    | dollarQuote hc ha he hc' => exact .inr (.inr (.inr (.inl ⟨hc, ha, he, hc'⟩)))
    | doubled hc hp he hc' => exact .inr (.inr (.inr (.inr ⟨hc, hp, he, hc'⟩)))
  · intro h
    rcases h with ⟨hc, ho, hp, ha, he, hc'⟩ | ⟨ha, he, hc⟩ | ⟨hc, hp, he, hc'⟩ | ⟨hc, ha, he, hc'⟩ | ⟨hc, hp, he, hc'⟩
    · exact .hash hc ho hp ha he hc'
    · exact .escaped ha he hc
    · exact .operand hc hp he hc'
    · exact .dollarQuote hc ha he hc'
    · exact .doubled hc hp he hc'

instance (l : Lexer) (c : Char) : Decidable (Slip l c) := decidable_of_iff _ slip_iff.symm

theorem slipsFrom_nil (l : Option Lexer) : ¬SlipsFrom l [] := by
  rintro ⟨before, c, rest, h, _⟩
  simp at h

theorem slipsFrom_cons (l : Option Lexer) (c : Char) (s : Text) :
    SlipsFrom l (c :: s) ↔ (∃ m ∈ l, Slip m c) ∨ SlipsFrom (reading l c).1 s := by
  constructor
  · rintro ⟨before, c', rest, h, m, hm, hslip⟩
    cases before with
    | nil =>
      cases h
      exact .inl ⟨m, hm, hslip⟩
    | cons d before =>
      cases h
      exact .inr ⟨before, c', rest, rfl, m, hm, hslip⟩
  · rintro (⟨m, hm, hslip⟩ | ⟨before, c', rest, rfl, m, hm, hslip⟩)
    · exact ⟨[], c, s, rfl, m, hm, hslip⟩
    · exact ⟨c :: before, c', rest, rfl, m, hm, hslip⟩

instance (l : Option Lexer) (c : Char) : Decidable (∃ m ∈ l, Slip m c) :=
  match l with
  | none => isFalse (by simp)
  | some m => decidable_of_iff (Slip m c) (by simp)

instance decidableSlipsFrom : (l : Option Lexer) → (s : Text) → Decidable (SlipsFrom l s)
  | l, [] => isFalse (slipsFrom_nil l)
  | l, c :: s =>
    have := decidableSlipsFrom (reading l c).1 s
    decidable_of_iff _ (slipsFrom_cons l c s).symm

instance (l : Option Lexer) :
    Decidable (∀ m, l = some m → m.frame.context = .doubleQuoted → m.ahead ≠ .name) :=
  match l with
  | none => isTrue (by simp)
  | some m => decidable_of_iff (m.frame.context = .doubleQuoted → m.ahead ≠ .name) (by simp)

instance decidableClean : (l : Option Lexer) → (ops : List (Option Text)) → Decidable (Clean l ops)
  | _, [] => isTrue trivial
  | l, some s :: rest =>
    have := decidableClean (after l s) rest
    inferInstanceAs (Decidable ((none ∈ rest → ¬SlipsFrom l s) ∧ Clean (after l s) rest))
  | l, none :: rest =>
    have := decidableClean (l.map Lexer.afterValue) rest
    inferInstanceAs (Decidable ((∀ m, l = some m → m.frame.context = .doubleQuoted → m.ahead ≠ .name) ∧
      Clean (l.map Lexer.afterValue) rest))

/-- A notification with this payload. -/
def shellNotification (payload : String) : Watch.Notification :=
  ⟨"mars".toList, 1, [], .string payload.toList, none⟩

/-- `run {{ notification.payload }} "$(cat '{{ notification.payload }}')"` -/
def shellQuoted : CompiledTemplate :=
  ⟨"run \x7b\x7b notification.payload \x7d\x7d \"$(cat '\x7b\x7b notification.payload \x7d\x7d')\"".toList,
    [.literal "run ".toList, .notificationPath ["payload".toList], .literal " \"$(cat '".toList,
      .notificationPath ["payload".toList], .literal "')\"".toList]⟩

theorem shell_literalness_quoted :
    compile shellQuoted.raw = .ok shellQuoted ∧
      ShellLiteral (fun _ => []) shellQuoted (fun _ => .error .envNotSet) ∧
      shellQuoted.renderWithEnv (fun _ => []) (shellNotification "a'b$(x)") (fun _ => .error .envNotSet) .shell =
        .ok "run 'a'\\''b$(x)' \"$(cat 'a'\\''b$(x)')\"".toList :=
  ⟨by decide +kernel, shell_literalness _ _ _ (by decide +kernel), by decide +kernel⟩

/-- `echo "$(\ls {{ notification.payload }})"` -/
def shellEscaped : CompiledTemplate :=
  ⟨"echo \"$(\\ls \x7b\x7b notification.payload \x7d\x7d)\"".toList,
    [.literal "echo \"$(\\ls ".toList, .notificationPath ["payload".toList], .literal ")\"".toList]⟩

/-- After a `$(` whose first character is escaped a value is read as commands. -/
theorem shell_literalness_escaped :
    compile shellEscaped.raw = .ok shellEscaped ∧
      ¬ShellLiteral (fun _ => []) shellEscaped (fun _ => .error .envNotSet) := by
  refine ⟨by decide +kernel, fun h => ?_⟩
  obtain ⟨-, -, hread⟩ := h (shellNotification "x") (shellNotification ";id")
    "echo \"$(\\ls x)\"".toList "echo \"$(\\ls ;id)\"".toList (by decide +kernel) (by decide +kernel)
  exact absurd hread.skeleton (by decide +kernel)

end Aviso.Template
