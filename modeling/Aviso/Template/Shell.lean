import Aviso.Basics

namespace Aviso.Template

/-- The quoting state of the shell at one level of command substitution. -/
inductive Context where
  | bare
  | singleQuoted
  | doubleQuoted
  | comment
  deriving DecidableEq, Repr

/-- The start of a token that needs one more character to be recognised. -/
inductive Token where
  | none
  | dollar
  | dollarParen
  | less
  | redirect
  deriving DecidableEq, Repr

/-- What the tracker is waiting for. -/
inductive Pending where
  | token (t : Token)
  /-- A backslash that escapes whatever comes next. -/
  | escape (interrupted : Token)
  deriving DecidableEq, Repr

/-- What kind of bracket opened a level. -/
inductive Opener where
  | none
  | substitution
  | group
  | brace
  deriving DecidableEq, Repr

/-- One open command or expansion. -/
structure Level where
  context : Context
  opener : Opener
  outerCommandWord : Bool
  outerReparsing : Bool
  outerRedirectOperand : Bool
  deriving DecidableEq, Repr

/-- The bare word being read. -/
structure Word where
  text : Text
  assignment : Bool
  redirectOperand : Bool
  isOpaque : Bool
  deriving DecidableEq, Repr

namespace Word

/-- `Word::clear` leaves the default word. -/
def empty : Word := ⟨[], false, false, false⟩

def push (w : Word) (c : Char) : Word :=
  let w := if c = '=' then { w with assignment := true } else w
  if c = '/' then { w with text := [] }
  else if w.text.len < 8 then { w with text := w.text ++ [c] }
  else w

def isEmpty (w : Word) : Bool :=
  w.text.isEmpty && !w.assignment && !w.redirectOperand && !w.isOpaque

end Word

/-- Follows a command string the way `sh` reads it. -/
structure ShellTracker where
  /-- The innermost level, and the ones it is open in. -/
  level : Level
  outer : List Level
  wordStart : Bool
  word : Word
  commandWord : Bool
  reparsingCommand : Bool
  pending : Pending
  unsupportedConstruct : Option String
  deriving DecidableEq, Repr

namespace ShellTracker

def new : ShellTracker where
  level := ⟨.bare, .none, false, false, false⟩
  outer := []
  wordStart := true
  word := .empty
  commandWord := true
  reparsingCommand := false
  pending := .token .none
  unsupportedConstruct := none

def context (t : ShellTracker) : Context := t.level.context

def setContext (t : ShellTracker) (context : Context) : ShellTracker :=
  { t with level := { t.level with context := context } }

def opener (t : ShellTracker) : Opener := t.level.opener

def openLevel (t : ShellTracker) (opener : Opener) : ShellTracker :=
  let reparsing := t.reparsingCommand || (t.commandWord && opener ≠ .group)
  let insideRedirect := t.word.redirectOperand && opener ≠ .group
  { t with
    level := ⟨.bare, opener, t.commandWord, reparsing, t.word.redirectOperand⟩
    outer := t.level :: t.outer
    wordStart := true
    word := .empty
    commandWord := opener ≠ .brace
    reparsingCommand := reparsing || insideRedirect }

/-- Closes the innermost level, if it is not the outer command. -/
def closeLevel (t : ShellTracker) : Option Level × ShellTracker :=
  match t.outer with
  | [] => (none, t)
  | level :: outer =>
    let closed := t.level
    let word :=
      if closed.opener = .group then t.word
      else { t.word with isOpaque := true, redirectOperand := closed.outerRedirectOperand }
    (some closed,
      { t with
        level := level
        outer := outer
        commandWord := closed.outerCommandWord
        reparsingCommand := closed.outerReparsing
        word := word })

/-- Records a bare character as part of the current word. -/
def noteWordChar (t : ShellTracker) (c : Char) : ShellTracker :=
  { t with word := (if t.wordStart then Word.empty else t.word).push c }

def flag (t : ShellTracker) (construct : String) : ShellTracker :=
  { t with unsupportedConstruct := t.unsupportedConstruct.or (some construct) }

/-- The commands that read their arguments as shell code a second time. -/
def reparsesItsArguments (word : Text) : Bool :=
  ["eval", "trap", ".", "source", "sh", "bash", "dash", "zsh", "ksh", "ash", "busybox"].any
    fun name => name.toList = word

/-- The first words after which the next word is still the command name. -/
def leavesCommandPositionOpen (word : Word) : Bool :=
  (["!", "\x7b", "if", "then", "else", "elif", "while", "until", "do", "time", "command", "exec",
      "builtin", "nohup", "env", "nice", "xargs", "sudo", "doas", "timeout", "stdbuf", "setsid",
      "chroot", "flock", "watch"].any fun name => name.toList = word.text) ||
    word.assignment || word.text.head?.any fun c => c = '-' || c.isDigit

/-- Closes the current word. -/
def endWord (t : ShellTracker) (separatorStartsCommand : Bool) : ShellTracker :=
  let t := if t.word.text = "case".toList then t.flag "a case statement" else t
  let t :=
    if !t.word.isEmpty && !t.word.redirectOperand && !leavesCommandPositionOpen t.word then
      { t with
        reparsingCommand :=
          t.reparsingCommand || (t.commandWord && t.word.isOpaque) || reparsesItsArguments t.word.text
        commandWord := false }
    else t
  let t := { t with word := .empty }
  if separatorStartsCommand then { t with commandWord := true, reparsingCommand := false } else t

/-- Why a notification value cannot be placed here, if it cannot. -/
def unsupported (t : ShellTracker) : Option String :=
  let waits (tokens : List Token) : Bool :=
    match t.pending with
    | .token token | .escape token => tokens.contains token
  if t.unsupportedConstruct.isSome then t.unsupportedConstruct
  else if waits [.dollar, .dollarParen] && t.context ≠ .singleQuoted then
    some "a `$` right before the placeholder"
  else if waits [.less, .redirect] && t.context ≠ .singleQuoted then some "a redirection"
  else if t.opener = .brace then some "an open `$\x7b \x7d` expansion"
  else if t.context ≠ .comment then
    if t.word.redirectOperand then some "a redirection"
    else if t.commandWord then some "the command word"
    else if t.reparsingCommand then some "an argument to a command the engine cannot name"
    else none
  else none

/-- Handles one ordinary character in bare or double-quoted text, once pending tokens
have been dealt with. -/
def stepChar (t : ShellTracker) (c : Char) : ShellTracker :=
  if c = '$' then
    { t with
      pending := .token .dollar
      wordStart := false
      word := { t.word with isOpaque := true } }
  else if c = '`' then t.flag "backticks"
  else if t.context = .doubleQuoted then
    if c = '"' then { t.setContext .bare with wordStart := false } else t
  else if c = '#' && t.wordStart then t.setContext .comment
  else if c = '\'' then
    { t.setContext .singleQuoted with word := { t.word with isOpaque := true } }
  else if c = '"' then
    { t.setContext .doubleQuoted with word := { t.word with isOpaque := true } }
  else if c = '<' then { t with pending := .token .less, wordStart := false }
  else if c = '>' then { t with pending := .token .redirect, wordStart := false }
  else if t.opener = .brace then
    if c = '\x7d' then { t.closeLevel.2 with wordStart := false } else t
  else if c = '(' then (t.endWord true).openLevel .group
  else if c = ')' then
    let (closed, t) := (t.endWord true).closeLevel
    let wordStart := closed.all fun level => level.opener = .group
    { t with wordStart := wordStart, commandWord := wordStart || t.commandWord }
  else if c = ' ' || c = '\t' then { t.endWord false with wordStart := true }
  else if c = '\n' || c = ';' || c = '&' || c = '|' then { t.endWord true with wordStart := true }
  else { t.noteWordChar c with wordStart := false }

/-- The characters that name a parameter right after a `$`. -/
def isParameterChar (c : Char) : Bool :=
  c.isAlphanum || ['_', '#', '?', '!', '@', '*', '-', '$'].contains c

/-- The operand of a redirection starts with its first character. -/
def stepRedirect (t : ShellTracker) (c : Char) : ShellTracker :=
  if c = '>' || c = ' ' || c = '\t' then { t with pending := .token .redirect }
  else
    { t with
      word := { Word.empty with redirectOperand := true }
      wordStart := false }.stepChar c

/-- Finishes a token that was waiting for this character. -/
def stepToken (t : ShellTracker) (token : Token) (c : Char) : ShellTracker :=
  match token with
  | .dollar =>
    if c = '(' then { t with pending := .token .dollarParen }
    else if c = '\x7b' then
      (if t.context = .doubleQuoted then t.flag "a `$\x7b \x7d` expansion inside double quotes"
        else t).openLevel .brace
    else
      let t := { t with wordStart := false, word := { t.word with isOpaque := true } }
      if isParameterChar c then t else t.stepChar c
  | .dollarParen =>
    if c = '(' then t.flag "arithmetic expansion" else (t.openLevel .substitution).stepChar c
  | .less =>
    if c = '<' then t.flag "a here-document" else t.stepRedirect c
  | .redirect => t.stepRedirect c
  | .none => t.stepChar c

def step (t : ShellTracker) (c : Char) : ShellTracker :=
  match t.context with
  | .singleQuoted =>
    if c = '\'' then { t.setContext .bare with wordStart := false } else t
  | .comment =>
    if c = '\n' then
      { t.setContext .bare with wordStart := true, commandWord := true, reparsingCommand := false }
    else t
  | .bare | .doubleQuoted =>
    let resumed := { t with pending := .token .none }
    match t.pending with
    | .escape interrupted =>
      if c = '\n' then { t with pending := .token interrupted }
      else { resumed with wordStart := false, word := { t.word with isOpaque := true } }
    | .token token =>
      if c = '\\' then { t with pending := .escape token } else resumed.stepToken token c

def advance (t : ShellTracker) (text : Text) : ShellTracker := text.foldl step t

/-- Reads a quoted notification value. -/
def advanceValue (t : ShellTracker) (quoted : Text) : ShellTracker :=
  let t := t.advance quoted
  { t with word := { t.word with isOpaque := true } }

def quoteInContext (t : ShellTracker) (value : Text) : Text :=
  let escapeQuotes := value.flatMap fun c => if c = '\'' then "'\\''".toList else [c]
  match t.context with
  | .bare => '\'' :: escapeQuotes ++ ['\'']
  | .singleQuoted => escapeQuotes
  | .doubleQuoted =>
    value.flatMap fun c => if c = '\\' || c = '$' || c = '`' || c = '"' then ['\\', c] else [c]
  | .comment => value.map fun c => if c = '\n' then ' ' else c

/-- `value`, written so that the shell reads it as literal text in the current state. -/
def quote (t : ShellTracker) (value : Text) : Text :=
  let quoted := t.quoteInContext value
  match t.pending with
  | .escape _ => if t.context ≠ .singleQuoted then '\n' :: quoted else quoted
  | .token _ => quoted

variable {t : ShellTracker}

/-! ### The operations in each context -/

/-- Outside single quotes and comments. -/
def Readable (t : ShellTracker) : Prop := t.context = .bare ∨ t.context = .doubleQuoted

/-- What the end of a word leaves as it is, and that it flags the word `case`. -/
structure WordEnded (t t' : ShellTracker) : Prop where
  level : t'.level = t.level
  outer : t'.outer = t.outer
  wordStart : t'.wordStart = t.wordStart
  pending : t'.pending = t.pending
  flagged : t'.unsupportedConstruct = none →
    t.unsupportedConstruct = none ∧ t.word.text ≠ "case".toList

theorem wordEnded (t : ShellTracker) (separatorStartsCommand : Bool) :
    WordEnded t (t.endWord separatorStartsCommand) := by
  unfold endWord
  extract_lets flagged named cleared
  have hflagged : WordEnded t flagged := by
    unfold flagged
    by_cases hcase : t.word.text = "case".toList
    · rw [if_pos hcase]
      refine ⟨rfl, rfl, rfl, rfl, fun hnone => ?_⟩
      cases h : t.unsupportedConstruct <;> simp [flag, h] at hnone
    · rw [if_neg hcase]
      exact ⟨rfl, rfl, rfl, rfl, fun hnone => ⟨hnone, hcase⟩⟩
  clear_value flagged
  have hnamed : WordEnded t named := by
    unfold named
    split
    · exact ⟨hflagged.1, hflagged.2, hflagged.3, hflagged.4, hflagged.5⟩
    · exact hflagged
  clear_value named
  have hcleared : WordEnded t cleared := ⟨hnamed.1, hnamed.2, hnamed.3, hnamed.4, hnamed.5⟩
  clear_value cleared
  split
  · exact ⟨hcleared.1, hcleared.2, hcleared.3, hcleared.4, hcleared.5⟩
  · exact hcleared

@[simp] theorem pending_closeLevel (t : ShellTracker) : t.closeLevel.2.pending = t.pending := by
  unfold closeLevel
  split <;> rfl

theorem step_readable (h : Readable t) (c : Char) :
    t.step c =
      match t.pending with
      | .escape interrupted =>
        if c = '\n' then { t with pending := .token interrupted }
        else
          { t with
            pending := .token .none
            wordStart := false
            word := { t.word with isOpaque := true } }
      | .token token =>
        if c = '\\' then { t with pending := .escape token }
        else { t with pending := .token .none }.stepToken token c := by
  unfold step
  rcases h with h | h
  · rw [h]
  · rw [h]

theorem step_singleQuoted (h : t.context = .singleQuoted) (c : Char) :
    t.step c = if c = '\'' then { t.setContext .bare with wordStart := false } else t := by
  unfold step
  rw [h]

theorem step_comment (h : t.context = .comment) (c : Char) :
    t.step c =
      if c = '\n' then
        { t.setContext .bare with wordStart := true, commandWord := true, reparsingCommand := false }
      else t := by
  unfold step
  rw [h]

theorem advance_append (t : ShellTracker) (a b : Text) : t.advance (a ++ b) = (t.advance a).advance b :=
  List.foldl_append

theorem advance_cons (t : ShellTracker) (c : Char) (text : Text) :
    t.advance (c :: text) = (t.step c).advance text := rfl

end ShellTracker
end Aviso.Template
