import Aviso.Template.Engine

namespace Aviso.Template
namespace ShellTracker

/-- The trackers of a rendering: over text, and over values where one may be placed. -/
inductive Reached : ShellTracker → Prop where
  | new : Reached .new
  | text {t : ShellTracker} (text : Text) : Reached t → Reached (t.advance text)
  | value {t : ShellTracker} (v : Text) : Reached t → t.unsupported = none → Reached (t.advanceValue (t.quote v))

variable {t t₁ t₂ t₃ : ShellTracker}

/-- Nothing is pending inside single quotes or a comment. -/
def Settled (t : ShellTracker) : Prop :=
  t.context = .singleQuoted ∨ t.context = .comment → t.pending = .token .none

/-! ### Nothing is pending inside single quotes or a comment -/

theorem settled_of_idle (h : t.pending = .token .none) : Settled t := fun _ => h

theorem Readable.settled (h : Readable t) : Settled t := by
  intro hquoted
  rcases h with h | h
  · rcases hquoted with hq | hq <;> cases h.symm.trans hq
  · rcases hquoted with hq | hq <;> cases h.symm.trans hq

/-- An ordinary character in readable text is waited for only where the text goes on. -/
theorem settled_stepChar (h : Readable t) (hp : t.pending = .token .none) (c : Char) : Settled (t.stepChar c) := by
  unfold stepChar
  refine iteInduction (motive := Settled) (fun _ => Readable.settled h) fun _ => ?_
  refine iteInduction (motive := Settled) (fun _ => settled_of_idle hp) fun _ => ?_
  refine iteInduction (motive := Settled) (fun _ => ?_) fun _ => ?_
  · exact iteInduction (motive := Settled) (fun _ => settled_of_idle hp) fun _ => settled_of_idle hp
  refine iteInduction (motive := Settled) (fun _ => settled_of_idle hp) fun _ => ?_
  refine iteInduction (motive := Settled) (fun _ => settled_of_idle hp) fun _ => ?_
  refine iteInduction (motive := Settled) (fun _ => settled_of_idle hp) fun _ => ?_
  refine iteInduction (motive := Settled) (fun _ => Readable.settled h) fun _ => ?_
  refine iteInduction (motive := Settled) (fun _ => Readable.settled h) fun _ => ?_
  refine iteInduction (motive := Settled) (fun _ => ?_) fun _ => ?_
  · refine iteInduction (motive := Settled) (fun _ => ?_) fun _ => settled_of_idle hp
    exact settled_of_idle ((pending_closeLevel t).trans hp)
  have hended : ∀ separatorStartsCommand, (t.endWord separatorStartsCommand).pending = .token .none :=
    fun separatorStartsCommand => (wordEnded t separatorStartsCommand).pending.trans hp
  refine iteInduction (motive := Settled) (fun _ => settled_of_idle (hended true)) fun _ => ?_
  refine iteInduction (motive := Settled) (fun _ => ?_) fun _ => ?_
  · exact settled_of_idle ((pending_closeLevel _).trans (hended true))
  refine iteInduction (motive := Settled) (fun _ => settled_of_idle (hended false)) fun _ => ?_
  exact iteInduction (motive := Settled) (fun _ => settled_of_idle (hended true)) fun _ => settled_of_idle hp

theorem settled_stepRedirect (h : Readable t) (hp : t.pending = .token .none) (c : Char) :
    Settled (t.stepRedirect c) := by
  unfold stepRedirect
  split
  · exact Readable.settled h
  · refine settled_stepChar ?_ ?_ c
    · exact h
    · exact hp

theorem settled_stepToken (h : Readable t) (hp : t.pending = .token .none) (token : Token) (c : Char) :
    Settled (t.stepToken token c) := by
  cases token with
  | dollar =>
    unfold stepToken
    dsimp only
    split
    · exact Readable.settled h
    · split
      · split
        · exact settled_of_idle hp
        · exact settled_of_idle hp
      · split
        · exact settled_of_idle hp
        · refine settled_stepChar ?_ ?_ c
          · exact h
          · exact hp
  | dollarParen =>
    unfold stepToken
    dsimp only
    split
    · exact settled_of_idle hp
    · exact settled_stepChar (t := t.openLevel .substitution) (.inl rfl) hp c
  | less =>
    unfold stepToken
    dsimp only
    split
    · exact settled_of_idle hp
    · exact settled_stepRedirect h hp c
  | redirect => exact settled_stepRedirect h hp c
  | none => exact settled_stepChar h hp c

theorem Settled.step (h : Settled t) (c : Char) : Settled (t.step c) := by
  cases hc : t.context with
  | singleQuoted =>
    have hp := h (.inl hc)
    unfold ShellTracker.step
    rw [hc]
    dsimp only
    split
    · exact settled_of_idle hp
    · exact h
  | comment =>
    have hp := h (.inr hc)
    unfold ShellTracker.step
    rw [hc]
    dsimp only
    split
    · exact settled_of_idle hp
    · exact h
  | bare | doubleQuoted =>
    have hread : Readable t := by simp [Readable, hc]
    rw [step_readable hread]
    split
    · split
      · exact Readable.settled hread
      · exact settled_of_idle rfl
    · split
      · exact Readable.settled hread
      · exact settled_stepToken (t := { t with pending := .token .none }) hread rfl _ c

theorem Settled.advance (h : Settled t) (text : Text) : Settled (t.advance text) := by
  induction text generalizing t with
  | nil => exact h
  | cons c text ih => exact ih (h.step c)

theorem Reached.settled (h : Reached t) : Settled t := by
  induction h with
  | new => exact settled_of_idle rfl
  | text text _ ih => exact ih.advance text
  | value v _ _ ih => exact ih.advance _

/-! ### Where a value may be placed -/

/-- What the absence of an unsupported construct says of a tracker. -/
theorem supported (h : t.unsupported = none) :
    t.unsupportedConstruct = none ∧ t.opener ≠ .brace ∧
      (Readable t → t.pending = .token .none ∨ t.pending = .escape .none) ∧
      (t.context ≠ .comment → t.word.redirectOperand = false ∧ t.commandWord = false ∧ t.reparsingCommand = false) := by
  unfold unsupported at h
  extract_lets waits at h
  split at h
  · rename_i hsome
    rw [h] at hsome
    cases hsome
  · rename_i hnone
    split at h
    · cases h
    · rename_i hdollar
      split at h
      · cases h
      · rename_i hredirect
        split at h
        · cases h
        · rename_i hbrace
          refine ⟨Option.not_isSome_iff_eq_none.mp hnone, hbrace, fun hread => ?_, fun hcomment => ?_⟩
          · have hquotes : t.context ≠ .singleQuoted := by
              rcases hread with hc | hc <;> rw [hc] <;> decide
            unfold waits at hdollar hredirect
            cases hp : t.pending with
            | token token => cases token <;> simp_all
            | escape token => cases token <;> simp_all
          · rw [if_pos hcomment] at h
            split at h
            · cases h
            · rename_i hredirect
              split at h
              · cases h
              · rename_i hcommand
                split at h
                · cases h
                · rename_i hreparsing
                  exact ⟨Bool.eq_false_iff.mpr hredirect, Bool.eq_false_iff.mpr hcommand,
                    Bool.eq_false_iff.mpr hreparsing⟩

/-! ### Reading a quoted value back -/

/-- `t` after some literal text, with nothing pending. -/
def readAs (t : ShellTracker) (wordStart isOpaque : Bool) : ShellTracker :=
  { t with pending := .token .none, wordStart := wordStart, word := { t.word with isOpaque := isOpaque } }

@[simp] theorem context_readAs (t : ShellTracker) (wordStart isOpaque : Bool) :
    (t.readAs wordStart isOpaque).context = t.context := rfl

theorem unsupported_readAs (h : t.unsupported = none) (wordStart isOpaque : Bool) :
    (t.readAs wordStart isOpaque).unsupported = none := by
  obtain ⟨hnone, hbrace, _, hrest⟩ := supported h
  unfold unsupported
  extract_lets waits
  rw [if_neg (by simp [readAs, hnone]), if_neg (by simp [waits, readAs]), if_neg (by simp [waits, readAs]),
    if_neg (by exact hbrace)]
  split
  · rename_i hcomment
    obtain ⟨hredirect, hcommand, hreparsing⟩ := hrest hcomment
    simp [readAs, hredirect, hcommand, hreparsing]
  · rfl

theorem readAs_self (hp : t.pending = .token .none) : t.readAs t.wordStart t.word.isOpaque = t := by
  unfold readAs
  rw [← hp]

/-- A tracker that takes every written character in stride takes the whole value so. -/
theorem advance_written {P : ShellTracker → Prop} {write : Char → Text}
    (hchar : ∀ t c, P t → P (t.advance (write c))) (ht : P t) (v : Text) : P (t.advance (v.flatMap write)) := by
  induction v generalizing t with
  | nil => exact ht
  | cons c v ih =>
    rw [List.flatMap_cons, advance_append]
    exact ih (hchar t c ht)

/-- `t'` has read some of a value from `t`. -/
def ReadFrom (t t' : ShellTracker) : Prop := ∃ wordStart isOpaque, t' = t.readAs wordStart isOpaque

def writeSingle (c : Char) : Text := if c = '\'' then "'\\''".toList else [c]

def writeDouble (c : Char) : Text :=
  if c = '\\' || c = '$' || c = '`' || c = '"' then ['\\', c] else [c]

theorem readFrom_single (hc : t.context = .singleQuoted) {t' : ShellTracker} (h : ReadFrom t t') (c : Char) :
    ReadFrom t (t'.advance (writeSingle c)) := by
  obtain ⟨wordStart, isOpaque, rfl⟩ := h
  by_cases hquote : c = '\''
  · subst hquote
    refine ⟨false, true, ?_⟩
    obtain ⟨⟨context, _, _, _, _⟩, _, _, _, _, _, _, _⟩ := t
    cases hc
    rfl
  · refine ⟨wordStart, isOpaque, ?_⟩
    rw [writeSingle, if_neg hquote, advance_cons, step_singleQuoted (t := t.readAs wordStart isOpaque) hc, if_neg hquote]
    rfl

theorem readFrom_double (hc : t.context = .doubleQuoted) {t' : ShellTracker} (h : ReadFrom t t') (c : Char) :
    ReadFrom t (t'.advance (writeDouble c)) := by
  obtain ⟨wordStart, isOpaque, rfl⟩ := h
  have hread : Readable (t.readAs wordStart isOpaque) := .inr hc
  unfold writeDouble
  split
  · rename_i hspecial
    refine ⟨false, true, ?_⟩
    have hline : c ≠ '\n' := by
      rintro rfl
      revert hspecial
      decide
    have hescape : (t.readAs wordStart isOpaque).step '\\' = { t.readAs wordStart isOpaque with pending := .escape .none } :=
      step_readable hread _
    have hliteral :
        { t.readAs wordStart isOpaque with pending := .escape .none }.step c = t.readAs false true := by
      rw [step_readable (by exact hread)]
      exact if_neg hline
    rw [advance_cons, advance_cons, hescape, hliteral]
    rfl
  · rename_i hplain
    simp only [Bool.or_eq_true, decide_eq_true_eq, not_or] at hplain
    obtain ⟨⟨⟨hback, hdollar⟩, htick⟩, hquote⟩ := hplain
    refine ⟨wordStart, isOpaque, ?_⟩
    have hchar : (t.readAs wordStart isOpaque).stepChar c = t.readAs wordStart isOpaque := by
      unfold stepChar
      rw [if_neg hdollar, if_neg htick, if_pos (by exact hc), if_neg hquote]
    rw [advance_cons, step_readable hread]
    change (if c = '\\' then _ else (t.readAs wordStart isOpaque).stepChar c) = _
    rw [if_neg hback, hchar]

theorem readFrom_comment (hc : t.context = .comment) {t' : ShellTracker} (h : ReadFrom t t') (c : Char) :
    ReadFrom t (t'.advance [if c = '\n' then ' ' else c]) := by
  obtain ⟨wordStart, isOpaque, rfl⟩ := h
  refine ⟨wordStart, isOpaque, ?_⟩
  have hline : (if c = '\n' then ' ' else c) ≠ '\n' := by
    split
    · decide
    · assumption
  rw [advance_cons, step_comment (t := t.readAs wordStart isOpaque) hc, if_neg hline]
  rfl

/-- The line continuation that completes a pending escape. -/
theorem advance_continuation (hread : Readable t) (hpending : t.pending = .token .none ∨ t.pending = .escape .none) (v : Text) :
    t.advance (t.quote v) = { t with pending := .token .none }.advance (t.quoteInContext v) := by
  have hquotes : t.context ≠ .singleQuoted := by
    rcases hread with hc | hc <;> rw [hc] <;> decide
  unfold quote
  dsimp only
  rcases hpending with hp | hp
  · rw [hp]
    dsimp only
    rw [← hp]
  · rw [hp]
    dsimp only
    rw [if_pos hquotes, advance_cons, step_readable hread, hp]
    rfl

theorem quote_settled (hp : t.pending = .token .none) (v : Text) : t.quote v = t.quoteInContext v := by
  unfold quote
  rw [hp]

/-- Outside quotes a value stands between quotes of its own. -/
theorem advance_bare (hc : t.context = .bare) (hp : t.pending = .token .none) (v : Text) :
    ∃ isOpaque, t.advance (t.quoteInContext v) = t.readAs false isOpaque := by
  let quoted := (t.setContext .singleQuoted).readAs t.wordStart true
  have hopen : t.step '\'' = quoted := by
    rw [step_readable (.inl hc), hp]
    change { t with pending := .token .none }.stepChar '\'' = _
    unfold stepChar
    dsimp only
    rw [if_neg (by decide), if_neg (by decide), if_neg (by exact hc ▸ by decide),
      if_neg (by simp), if_pos rfl]
    rfl
  obtain ⟨wordStart, isOpaque, hvalue⟩ : ReadFrom quoted (quoted.advance (v.flatMap writeSingle)) :=
    advance_written (P := ReadFrom quoted) (fun t' c h => readFrom_single rfl h c) ⟨t.wordStart, true, rfl⟩ v
  refine ⟨isOpaque, ?_⟩
  have hquote : t.quoteInContext v = '\'' :: (v.flatMap writeSingle ++ ['\'']) := by
    unfold quoteInContext
    rw [hc]
    rfl
  rw [hquote, advance_cons, hopen, advance_append, hvalue, advance_cons, step_singleQuoted rfl, if_pos rfl]
  obtain ⟨⟨context, _, _, _, _⟩, _, _, _, _, _, _, _⟩ := t
  cases hc
  rfl

/-- A value is read back in the context it was quoted for. -/
theorem advance_quoteInContext (hp : t.pending = .token .none) (v : Text) :
    ∃ wordStart isOpaque,
      t.advance (t.quoteInContext v) = t.readAs wordStart isOpaque ∧ (t.context = .bare → wordStart = false) := by
  have hstart : ReadFrom t t := ⟨t.wordStart, t.word.isOpaque, (readAs_self hp).symm⟩
  cases hc : t.context with
  | bare =>
    obtain ⟨isOpaque, hvalue⟩ := advance_bare hc hp v
    exact ⟨false, isOpaque, hvalue, fun _ => rfl⟩
  | singleQuoted =>
    have hquote : t.quoteInContext v = v.flatMap writeSingle := by
      unfold quoteInContext
      rw [hc]
      rfl
    obtain ⟨wordStart, isOpaque, hvalue⟩ : ReadFrom t (t.advance (v.flatMap writeSingle)) :=
      advance_written (P := ReadFrom t) (fun t' c h => readFrom_single hc h c) hstart v
    exact ⟨wordStart, isOpaque, hquote ▸ hvalue, by rintro ⟨⟩⟩
  | doubleQuoted =>
    have hquote : t.quoteInContext v = v.flatMap writeDouble := by
      unfold quoteInContext
      rw [hc]
      rfl
    obtain ⟨wordStart, isOpaque, hvalue⟩ : ReadFrom t (t.advance (v.flatMap writeDouble)) :=
      advance_written (P := ReadFrom t) (fun t' c h => readFrom_double hc h c) hstart v
    exact ⟨wordStart, isOpaque, hquote ▸ hvalue, by rintro ⟨⟩⟩
  | comment =>
    have hquote : t.quoteInContext v = v.flatMap fun c => [if c = '\n' then ' ' else c] := by
      unfold quoteInContext
      rw [hc]
      exact List.map_eq_flatMap
    obtain ⟨wordStart, isOpaque, hvalue⟩ :
        ReadFrom t (t.advance (v.flatMap fun c => [if c = '\n' then ' ' else c])) :=
      advance_written (P := ReadFrom t) (fun t' c h => readFrom_comment hc h c) hstart v
    exact ⟨wordStart, isOpaque, hquote ▸ hvalue, by rintro ⟨⟩⟩

/-- A value is written for the tracker that a line continuation leaves. -/
theorem advance_quote (hsettled : Settled t) (h : t.unsupported = none) (v : Text) :
    t.advance (t.quote v) = { t with pending := .token .none }.advance (t.quoteInContext v) := by
  by_cases hread : Readable t
  · exact advance_continuation hread ((supported h).2.2.1 hread) v
  · have hp : t.pending = .token .none := by
      apply hsettled
      revert hread
      unfold Readable
      cases t.context <;> simp
    unfold quote
    rw [hp]
    dsimp only
    rw [← hp]

/-- A quoted value is read back as literal text. -/
theorem advanceValue_quote (hsettled : Settled t) (h : t.unsupported = none) (v : Text) :
    ∃ wordStart, t.advanceValue (t.quote v) = t.readAs wordStart true ∧ (t.context = .bare → wordStart = false) := by
  obtain ⟨wordStart, isOpaque, hvalue, hbare⟩ :=
    advance_quoteInContext (t := { t with pending := .token .none }) rfl v
  refine ⟨wordStart, ?_, hbare⟩
  unfold advanceValue
  rw [advance_quote hsettled h v]
  rw [show t.quoteInContext v = { t with pending := .token .none }.quoteInContext v from rfl, hvalue]
  rfl

/-! ### Trackers that differ in the word-start flag inside quotes or a comment -/

/-- The same tracker, but for the start of a word where the context does not look at it. -/
def Alike (t₁ t₂ : ShellTracker) : Prop :=
  ∃ wordStart, t₂ = { t₁ with wordStart := wordStart } ∧ (t₁.context = .bare → wordStart = t₁.wordStart)

theorem Alike.refl (t : ShellTracker) : Alike t t := ⟨t.wordStart, rfl, fun _ => rfl⟩

theorem Alike.context (h : Alike t₁ t₂) : t₂.context = t₁.context := by
  obtain ⟨_, rfl, _⟩ := h
  rfl

theorem Alike.settled (h : Alike t₁ t₂) (hsettled : Settled t₁) : Settled t₂ := by
  obtain ⟨_, rfl, _⟩ := h
  exact hsettled

theorem Alike.unsupported (h : Alike t₁ t₂) : t₂.unsupported = t₁.unsupported := by
  obtain ⟨_, rfl, _⟩ := h
  rfl

theorem Alike.quote (h : Alike t₁ t₂) (v : Text) : t₂.quote v = t₁.quote v := by
  obtain ⟨_, rfl, _⟩ := h
  rfl

theorem stepRedirect_doubleQuoted (hc : t.context = .doubleQuoted) (wordStart : Bool) (c : Char) :
    Alike (t.stepRedirect c) ({ t with wordStart := wordStart }.stepRedirect c) := by
  unfold stepRedirect
  split
  · exact ⟨wordStart, rfl, fun hbare => by cases hc.symm.trans hbare⟩
  · exact Alike.refl _

theorem stepChar_doubleQuoted (hc : t.context = .doubleQuoted) (wordStart : Bool) (c : Char) :
    Alike (t.stepChar c) ({ t with wordStart := wordStart }.stepChar c) := by
  have hkept : ∀ construct, Alike (t.flag construct) ({ t with wordStart := wordStart }.flag construct) :=
    fun _ => ⟨wordStart, rfl, fun hbare => by cases hc.symm.trans hbare⟩
  unfold stepChar
  by_cases hdollar : c = '$'
  · rw [if_pos hdollar, if_pos hdollar]
    exact Alike.refl _
  · rw [if_neg hdollar, if_neg hdollar]
    by_cases htick : c = '`'
    · rw [if_pos htick, if_pos htick]
      exact hkept _
    · rw [if_neg htick, if_neg htick, if_pos hc,
        if_pos (show context { t with wordStart := wordStart } = .doubleQuoted from hc)]
      by_cases hquote : c = '"'
      · rw [if_pos hquote, if_pos hquote]
        exact Alike.refl _
      · rw [if_neg hquote, if_neg hquote]
        exact ⟨wordStart, rfl, fun hbare => by cases hc.symm.trans hbare⟩

theorem stepToken_doubleQuoted (hc : t.context = .doubleQuoted) (wordStart : Bool) (token : Token) (c : Char) :
    Alike (t.stepToken token c) ({ t with wordStart := wordStart }.stepToken token c) := by
  have hkept : ∀ pending construct,
      Alike { t with pending := pending, unsupportedConstruct := construct }
        { t with wordStart := wordStart, pending := pending, unsupportedConstruct := construct } :=
    fun _ _ => ⟨wordStart, rfl, fun hbare => by cases hc.symm.trans hbare⟩
  cases token with
  | dollar =>
    unfold stepToken
    by_cases hparen : c = '('
    · dsimp only
      rw [if_pos hparen, if_pos hparen]
      exact hkept _ _
    · dsimp only
      rw [if_neg hparen, if_neg hparen]
      by_cases hbrace : c = '\x7b'
      · rw [if_pos hbrace, if_pos hbrace, if_pos hc, if_pos (by exact hc)]
        exact Alike.refl _
      · rw [if_neg hbrace, if_neg hbrace]
        exact Alike.refl _
  | dollarParen =>
    unfold stepToken
    by_cases hparen : c = '('
    · dsimp only
      rw [if_pos hparen, if_pos hparen]
      exact hkept _ _
    · dsimp only
      rw [if_neg hparen, if_neg hparen]
      exact Alike.refl _
  | less =>
    unfold stepToken
    by_cases hless : c = '<'
    · dsimp only
      rw [if_pos hless, if_pos hless]
      exact hkept _ _
    · dsimp only
      rw [if_neg hless, if_neg hless]
      exact stepRedirect_doubleQuoted hc wordStart c
  | redirect => exact stepRedirect_doubleQuoted hc wordStart c
  | none => exact stepChar_doubleQuoted hc wordStart c

/-- Alike trackers read a character alike. -/
theorem Alike.step (h : Alike t₁ t₂) (c : Char) : Alike (t₁.step c) (t₂.step c) := by
  obtain ⟨wordStart, rfl, hbare⟩ := h
  cases hc : t₁.context with
  | bare =>
    rw [hbare hc]
    exact Alike.refl _
  | singleQuoted =>
    rw [step_singleQuoted hc, step_singleQuoted (by exact hc)]
    by_cases hquote : c = '\''
    · rw [if_pos hquote, if_pos hquote]
      exact Alike.refl _
    · rw [if_neg hquote, if_neg hquote]
      exact ⟨wordStart, rfl, hbare⟩
  | comment =>
    rw [step_comment hc, step_comment (by exact hc)]
    by_cases hline : c = '\n'
    · rw [if_pos hline, if_pos hline]
      exact Alike.refl _
    · rw [if_neg hline, if_neg hline]
      exact ⟨wordStart, rfl, hbare⟩
  | doubleQuoted =>
    rw [step_readable (.inr hc), step_readable (.inr (by exact hc))]
    dsimp only
    cases t₁.pending with
    | escape interrupted =>
      by_cases hline : c = '\n'
      · dsimp only
        rw [if_pos hline, if_pos hline]
        exact ⟨wordStart, rfl, hbare⟩
      · dsimp only
        rw [if_neg hline, if_neg hline]
        exact Alike.refl _
    | token token =>
      by_cases hback : c = '\\'
      · dsimp only
        rw [if_pos hback, if_pos hback]
        exact ⟨wordStart, rfl, hbare⟩
      · dsimp only
        rw [if_neg hback, if_neg hback]
        exact stepToken_doubleQuoted (t := { t₁ with pending := .token .none }) hc wordStart token c

theorem Alike.advance (h : Alike t₁ t₂) (text : Text) : Alike (t₁.advance text) (t₂.advance text) := by
  induction text generalizing t₁ t₂ with
  | nil => exact h
  | cons c text ih => exact ih (h.step c)

/-- Alike trackers are alike again after any two values. -/
theorem Alike.advanceValue (h : Alike t₁ t₂) (hsettled : Settled t₁) (hnone : t₁.unsupported = none) (v w : Text) :
    Alike (t₁.advanceValue (t₁.quote v)) (t₂.advanceValue (t₂.quote w)) := by
  obtain ⟨before, hbefore, hbare₁⟩ := advanceValue_quote hsettled hnone v
  obtain ⟨later, hlater, hbare₂⟩ := advanceValue_quote (h.settled hsettled) (h.unsupported.trans hnone) w
  rw [hbefore, hlater]
  refine ⟨later, ?_, fun hc => ?_⟩
  · obtain ⟨_, rfl, _⟩ := h
    rfl
  · rw [hbare₂ (h.context.trans hc)]
    exact (hbare₁ hc).symm

end ShellTracker

/-! ### The rest of a template -/

open ShellTracker

/-- Two results that fail alike or are related. -/
inductive SameFate {ε ρ : Type} (R : ρ → ρ → Prop) : Except ε ρ → Except ε ρ → Prop where
  | error (e : ε) : SameFate R (.error e) (.error e)
  | ok {r₁ r₂ : ρ} : R r₁ r₂ → SameFate R (.ok r₁) (.ok r₂)

/-- A loop whose bodies keep a relation ends in it, or fails alike. -/
theorem sameFate_foldlM {ε ρ σ : Type} {R : ρ → ρ → Prop} {f₁ f₂ : ρ → σ → Except ε ρ} {xs : List σ}
    (hbody : ∀ x ∈ xs, ∀ r₁ r₂, R r₁ r₂ → SameFate R (f₁ r₁ x) (f₂ r₂ x)) {r₁ r₂ : ρ} (h : R r₁ r₂) :
    SameFate R (xs.foldlM f₁ r₁) (xs.foldlM f₂ r₂) := by
  induction xs generalizing r₁ r₂ with
  | nil => exact .ok h
  | cons x xs ih =>
    rw [List.foldlM_cons, List.foldlM_cons]
    have hfate := hbody x List.mem_cons_self r₁ r₂ h
    generalize f₁ r₁ x = next₁, f₂ r₂ x = next₂ at hfate
    cases hfate with
    | error e => exact .error e
    | ok hnext => exact ih (fun y hy => hbody y (List.mem_cons_of_mem _ hy)) hnext

/-- Two renderings in alike shells, that have appended the same text where their values agree. -/
structure Abreast (sameValues : Prop) (out₁ out₂ : Text) (r₁ r₂ : Rendering) : Prop where
  alike : Alike r₁.shell r₂.shell
  settled : Settled r₁.shell
  appended : sameValues → ∃ text, r₁.out = out₁ ++ text ∧ r₂.out = out₂ ++ text

variable {toString : Json → Text} {root₁ root₂ : Json} {env : Text → Except TemplateErrorKind Text} {raw : Text}
  {out₁ out₂ : Text} {r₁ r₂ : Rendering}

theorem Abreast.verbatim {sameValues : Prop} (h : Abreast sameValues out₁ out₂ r₁ r₂) (text : Text) :
    Abreast sameValues out₁ out₂ (r₁.verbatim .shell text) (r₂.verbatim .shell text) where
  alike := h.alike.advance text
  settled := h.settled.advance text
  appended := by
    intro hsame
    obtain ⟨appended, h₁, h₂⟩ := h.appended hsame
    refine ⟨appended ++ text, ?_, ?_⟩
    · unfold Rendering.verbatim
      rw [h₁, List.append_assoc]
    · unfold Rendering.verbatim
      rw [h₂, List.append_assoc]

/-- One segment renders alike from alike shells, whatever the values are. -/
theorem Abreast.renderSegment {segment : Segment}
    (hpaths : ∀ path, segment = .notificationPath path → (walkPath root₁ path).isSome = (walkPath root₂ path).isSome)
    (h : Abreast (root₁ = root₂) out₁ out₂ r₁ r₂) :
    SameFate (Abreast (root₁ = root₂) out₁ out₂) (renderSegment toString root₁ env .shell raw r₁ segment)
      (renderSegment toString root₂ env .shell raw r₂ segment) := by
  unfold Template.renderSegment
  cases segment with
  | literal text => exact .ok (h.verbatim text)
  | envVar name =>
    dsimp only
    cases env name with
    | error kind => exact .error _
    | ok text => exact .ok (h.verbatim text)
  | notificationPath path =>
    have hpath := hpaths path rfl
    dsimp only
    cases hw₁ : walkPath root₁ path with
    | none =>
      cases hw₂ : walkPath root₂ path with
      | none => exact .error _
      | some _ => simp [hw₁, hw₂] at hpath
    | some v₁ =>
      cases hw₂ : walkPath root₂ path with
      | none => simp [hw₁, hw₂] at hpath
      | some v₂ =>
        unfold Rendering.value
        dsimp only
        rw [h.alike.unsupported]
        cases hnone : r₁.shell.unsupported with
        | some construct => exact .error _
        | none =>
          refine .ok ⟨h.alike.advanceValue h.settled hnone _ _, ?_, ?_⟩
          · exact h.settled.advance _
          · intro hsame
            obtain ⟨appended, h₁, h₂⟩ := h.appended hsame
            have hv : v₁ = v₂ := by
              subst hsame
              exact Option.some.inj (hw₁.symm.trans hw₂)
            subst hv
            refine ⟨appended ++ r₁.shell.quote (renderValue toString v₁), ?_, ?_⟩
            · rw [h₁, List.append_assoc]
            · rw [h.alike.quote, h₂, List.append_assoc]

/-! ### Value neutrality -/

/-- A value put here leaves the tracker where it was, with nothing flagged or pending. -/
structure Restored (t after : ShellTracker) : Prop where
  level : after.level = t.level
  outer : after.outer = t.outer
  commandWord : after.commandWord = t.commandWord
  reparsingCommand : after.reparsingCommand = t.reparsingCommand
  redirectOperand : after.word.redirectOperand = t.word.redirectOperand
  unflagged : after.unsupportedConstruct = none
  allowed : after.unsupported = none
  idle : after.pending = .token .none

/-- The rest of a template, rendered for the shell after the value `v` is put at `t`. -/
def restAfter (toString : Json → Text) (root : Json) (env : Text → Except TemplateErrorKind Text) (raw : Text)
    (segments : List Segment) (t : ShellTracker) (v : Text) (url : UrlTracker) (out : Text) :
    Except TemplateError Rendering :=
  segments.foldlM (renderSegment toString root env .shell raw) ⟨t.advanceValue (t.quote v), url, out⟩

/-- The same paths of the segments lead to a value in both notifications. -/
def SamePaths (root₁ root₂ : Json) (segments : List Segment) : Prop :=
  ∀ path, Segment.notificationPath path ∈ segments → (walkPath root₁ path).isSome = (walkPath root₂ path).isSome

/-- The values put at `t` decide neither the tracker after them nor what follows in the template. -/
structure Neutral (t : ShellTracker) : Prop where
  restored : ∀ v, Restored t (t.advanceValue (t.quote v))
  alike : ∀ v w, Alike (t.advanceValue (t.quote v)) (t.advanceValue (t.quote w))
  /-- Whether the rest of a template renders depends on no value, here or there. -/
  whether : ∀ toString root₁ root₂ env raw segments, SamePaths root₁ root₂ segments → ∀ v w url₁ url₂ out₁ out₂,
    (restAfter toString root₁ env raw segments t v url₁ out₁).map (fun _ => ()) =
      (restAfter toString root₂ env raw segments t w url₂ out₂).map (fun _ => ())
  /-- The rest of a template renders to the same text after every value. -/
  rest : ∀ toString root env raw segments, ∃ rendered : Except TemplateError Text, ∀ v url out,
    (restAfter toString root env raw segments t v url out).map Rendering.out = rendered.map (out ++ ·)

theorem restored_value {t : ShellTracker} (hsettled : Settled t) (hnone : t.unsupported = none) (v : Text) :
    Restored t (t.advanceValue (t.quote v)) := by
  obtain ⟨wordStart, hvalue, _⟩ := advanceValue_quote hsettled hnone v
  rw [hvalue]
  exact ⟨rfl, rfl, rfl, rfl, rfl, (supported hnone).1, unsupported_readAs hnone _ _, rfl⟩

/-- The rest of a template has one fate after any two values. -/
theorem restAfter_abreast {t : ShellTracker} (hsettled : Settled t) (hnone : t.unsupported = none)
    (toString : Json → Text) (env : Text → Except TemplateErrorKind Text) (raw : Text) {segments : List Segment}
    (hpaths : SamePaths root₁ root₂ segments) (v w : Text) (url₁ url₂ : UrlTracker) (out₁ out₂ : Text) :
    SameFate (Abreast (root₁ = root₂) out₁ out₂) (restAfter toString root₁ env raw segments t v url₁ out₁)
      (restAfter toString root₂ env raw segments t w url₂ out₂) := by
  refine sameFate_foldlM (fun segment hsegment r₁ r₂ h => ?_) ⟨?_, ?_, ?_⟩
  · exact h.renderSegment fun path hpath => hpaths path (hpath ▸ hsegment)
  · exact (Alike.refl t).advanceValue hsettled hnone v w
  · exact hsettled.advance _
  · intro _
    exact ⟨[], (List.append_nil _).symm, (List.append_nil _).symm⟩

/-- Where a value may be placed, no value is told from another by what the tracker does next. -/
theorem value_neutrality (t : ShellTracker) (hreached : Reached t) (hnone : t.unsupported = none) : Neutral t := by
  have hsettled := hreached.settled
  refine ⟨restored_value hsettled hnone, (Alike.refl t).advanceValue hsettled hnone, ?_, ?_⟩
  · intro toString root₁ root₂ env raw segments hpaths v w url₁ url₂ out₁ out₂
    have hfate := restAfter_abreast hsettled hnone toString env raw hpaths v w url₁ url₂ out₁ out₂
    generalize restAfter toString root₁ env raw segments t v url₁ out₁ = after at hfate ⊢
    generalize restAfter toString root₂ env raw segments t w url₂ out₂ = afterward at hfate ⊢
    cases hfate with
    | error e => rfl
    | ok _ => rfl
  · intro toString root env raw segments
    refine ⟨(restAfter toString root env raw segments t [] .new []).map Rendering.out, fun v url out => ?_⟩
    have hfate := restAfter_abreast hsettled hnone toString env raw
      (show SamePaths root root segments from fun path _ => rfl) v [] url .new out []
    generalize restAfter toString root env raw segments t v url out = after at hfate ⊢
    generalize restAfter toString root env raw segments t [] .new [] = plain at hfate ⊢
    cases hfate with
    | error e => rfl
    | ok habreast =>
      obtain ⟨text, hout, hplain⟩ := habreast.appended rfl
      simp [Except.map, hout, hplain]

/-- `echo \` may be followed by a value, which goes on a line of its own after the backslash. -/
theorem value_neutrality_escape : Neutral (ShellTracker.new.advance "echo \\".toList) :=
  value_neutrality _ (.text _ .new) (by decide)

end Aviso.Template
