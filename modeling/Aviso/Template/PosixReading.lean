import Aviso.Lib.Transducer
import Aviso.Template.Engine
import Aviso.Template.PosixLexer

namespace Aviso.Template.Posix
namespace Lexer

/-- The text of a word that an unquoted or double-quoted character is by itself. -/
def plainText (l : Lexer) (c : Char) : Text :=
  if c = '$' || c = '`' || c = '"' then []
  else if l.frame.context = .doubleQuoted then [c]
  else if c = '\'' then []
  else if l.frame.opener = .brace then if c = '\x7d' then [] else [c]
  else if ['(', ')', '<', '>', ' ', '\t', '\n', ';', '&', '|'].contains c then []
  else if c = '#' && l.position.startsToken then []
  else [c]

/-- The text of a word that is complete with this character: quotes, escapes, operators and
what names an expansion are none. -/
def text (l : Lexer) (c : Char) : Text :=
  match l.frame.context with
  | .singleQuoted => if c = '\'' then [] else [c]
  | .comment => []
  | .bare | .doubleQuoted =>
    -- A `$` that no expansion follows stands for itself.
    let dollar := if l.ahead = .dollar then ['$'] else []
    if l.escaped then
      if c = '\n' then []
      else if l.frame.context = .doubleQuoted && !(['$', '`', '"', '\\'].contains c) then dollar ++ ['\\', c]
      else dollar ++ [c]
    else if c = '\\' then []
    else
      match l.ahead with
      | .none | .less => l.plainText c
      | .dollar =>
        if c = '(' || c = '\x7b' || startsName c || isParameter c then [] else dollar ++ l.plainText c
      | .dollarParen => (l.openFrame .substitution).plainText c
      | .name => if continuesName c then [] else l.plainText c

/-- Reads a character, if the text so far was of the fragment the lexer reads. -/
def reading : Lib.Step (Option Lexer) Char Char
  | none, _ => (none, [])
  | some l, c => (l.step c, l.text c)

def after (l : Option Lexer) (text : Text) : Option Lexer := (reading.run l text).1

/-- The states before each character of a text, and after it. -/
def states (l : Option Lexer) (text : Text) : List (Option Lexer) :=
  text.scanl (fun l c => (reading l c).1) l

/-- The state after a value, whatever its characters are. -/
def afterValue (l : Lexer) : Lexer :=
  if l.frame.context = .comment then l
  else { l with position := l.frame.inside, ahead := .none, escaped := false }

/-- While a value is read in `l`: its word has not started, or nothing but the word goes on. -/
def Within (l l' : Lexer) : Prop :=
  l' = l ∨ l' = { l with escaped := false } ∨
    l'.frame.opener = l.frame.opener ∧ l'.outer = l.outer ∧ l'.position = l.frame.inside ∧ l'.ahead = .none

/-- The value `v`, written as `w`, is text of one word, or of a comment. -/
inductive Literal (l : Lexer) (v w : Text) : Prop where
  | word : l.frame.context ≠ .comment → reading.run (some l) w = (some l.afterValue, v) →
      (∀ p, p <+: w → ∃ l', after (some l) p = some l' ∧ l.Within l') → Literal l v w
  | comment : l.frame.context = .comment → w = v.map (fun c => if c = '\n' then ' ' else c) →
      (∀ p, p <+: w → after (some l) p = some l) → Literal l v w

end Lexer

/-! ### The pieces of a rendered text -/

/-- A piece of a rendered text: the operator's own, or a value and how it is written. -/
inductive Span where
  | text (s : Text)
  | value (v : Text) (written : Text)
  deriving DecidableEq, Repr

namespace Span

def written : Span → Text
  | .text s => s
  | .value _ w => w

/-- The operator's text, and where the values stand. -/
def operator : Span → Option Text
  | .text s => some s
  | .value _ _ => none

end Span

open Lexer

/-- The token, quoting and nesting structure: the states of the lexer along the operator's
text and after each value. -/
def skeleton : Option Lexer → List Span → List (List (Option Lexer))
  | _, [] => []
  | l, .text s :: rest => states l s :: skeleton (after l s) rest
  | l, .value _ w :: rest => [after l w] :: skeleton (after l w) rest

/-- Every value is literal where it stands. -/
def Literals : Option Lexer → List Span → Prop
  | _, [] => True
  | l, .text s :: rest => Literals (after l s) rest
  | l, .value v w :: rest => (∃ l', l = some l' ∧ l'.Literal v w) ∧ Literals (after l w) rest

/-- The shell reads both texts with one structure, and every value in them as text. -/
structure ReadAlike (spans₁ spans₂ : List Span) : Prop where
  operator : spans₁.map Span.operator = spans₂.map Span.operator
  skeleton : skeleton (some .new) spans₁ = skeleton (some .new) spans₂
  literals₁ : Literals (some .new) spans₁
  literals₂ : Literals (some .new) spans₂

/-- What a rendering for the shell appends, segment by segment, from the tracker's state. -/
def spansFrom (toString : Json → Text) (root : Json) (env : Text → Except TemplateErrorKind Text)
    (t : ShellTracker) : List Segment → List Span
  | [] => []
  | .literal s :: rest => .text s :: spansFrom toString root env (t.advance s) rest
  | .envVar name :: rest =>
    let s := (env name).toOption.getD []
    .text s :: spansFrom toString root env (t.advance s) rest
  | .notificationPath path :: rest =>
    let v := ((walkPath root path).map (renderValue toString)).getD []
    .value v (t.quote v) :: spansFrom toString root env (t.advanceValue (t.quote v)) rest

def spans (toString : Json → Text) (t : CompiledTemplate) (n : Watch.Notification)
    (env : Text → Except TemplateErrorKind Text) : List Span :=
  spansFrom toString (toValue n) env .new t.segments

end Aviso.Template.Posix
