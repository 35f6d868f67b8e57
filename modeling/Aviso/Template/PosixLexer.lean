import Aviso.Template.Shell

namespace Aviso.Template.Posix

/-- An open command or expansion, with the quoting of the text read in it. -/
structure Frame where
  opener : Opener
  context : Context
  deriving DecidableEq, Repr

/-- Where in its token the next character stands. -/
inductive Position where
  | fresh
  /-- Right after the `(` of a `( )`. -/
  | opened
  /-- The start of the token after `<` or `>`. -/
  | operand
  /-- Inside a word, with its text while all of it is bare. -/
  | word (text : Option Text)
  /-- Inside `${ }`; `plain` until a quote, an escape, an expansion, `<` or `>` is read. -/
  | braces (plain : Bool)
  deriving DecidableEq, Repr

/-- What has been read of an expansion or operator that the next character decides. -/
inductive Ahead where
  | none
  | dollar
  | dollarParen
  /-- The name of a parameter, which the next character may go on with. -/
  | name
  | less
  deriving DecidableEq, Repr

/-- The lexical state of `sh` between two characters. -/
structure Lexer where
  frame : Frame
  outer : List Frame
  position : Position
  ahead : Ahead
  /-- A backslash was read. -/
  escaped : Bool
  deriving DecidableEq, Repr

/-- A token would start here. -/
def Position.startsToken : Position → Bool
  | .fresh | .opened | .operand => true
  | .word _ | .braces _ => false

/-- Inside the word, or the braces, that a quote or an expansion in this frame is part of. -/
def Frame.inside (frame : Frame) : Position := if frame.opener = .brace then .braces false else .word none

namespace Lexer

def new : Lexer := ⟨⟨.none, .bare⟩, [], .fresh, .none, false⟩

/-- The quoting changes inside a word. -/
def quote (l : Lexer) (context : Context) : Lexer :=
  { l with frame := { l.frame with context := context }, position := l.frame.inside }

/-- A comment starts at `#` and ends before the newline. -/
def comment (l : Lexer) : Lexer := { l with frame := { l.frame with context := .comment } }

def openFrame (l : Lexer) (opener : Opener) : Lexer where
  frame := ⟨opener, .bare⟩
  outer := l.frame :: l.outer
  position :=
    match opener with
    | .brace => .braces true
    | .group => .opened
    | .none | .substitution => .fresh
  ahead := .none
  escaped := false

/-- The end of a `( )` ends a token; an expansion is part of the word around it. -/
def closeFrame (l : Lexer) : Lexer :=
  match l.outer with
  | [] => { l with position := .fresh }
  | frame :: outer =>
    { l with
      frame := frame
      outer := outer
      position := if l.frame.opener = .group then .fresh else frame.inside }

/-- An ordinary character goes on with the word, or starts one. -/
def wordChar (l : Lexer) (c : Char) : Lexer :=
  { l with
    position :=
      match l.position with
      | .fresh | .opened | .operand => .word (some [c])
      | .word text => .word (text.map (· ++ [c]))
      | .braces plain => .braces (plain && c ≠ '<' && c ≠ '>') }

/-- An unquoted character of a command: operators and blanks end the token before them. -/
def readCommand (l : Lexer) (c : Char) : Option Lexer :=
  if c = '(' then
    -- A `((` may be an arithmetic command.
    if l.position = .opened then none else some (l.openFrame .group)
  else if c = ')' then some l.closeFrame
  else if c = '<' then some { l with position := .operand, ahead := .less }
  else if c = '>' then some { l with position := .operand }
  else if c = ' ' || c = '\t' then
    -- The patterns of a `case` statement have a `)` of their own.
    if l.position = .word (some "case".toList) then none
    else some { l with position := if l.position = .operand then .operand else .fresh }
  else if c = '\n' || c = ';' || c = '&' || c = '|' then some { l with position := .fresh }
  else if c = '#' && l.position.startsToken then some l.comment
  else some (l.wordChar c)

/-- A character that no escape and no half-read token claims. -/
def read (l : Lexer) (c : Char) : Option Lexer :=
  if c = '$' then some { l with position := l.frame.inside, ahead := .dollar }
  else if c = '`' then none
  else if l.frame.context = .doubleQuoted then some (if c = '"' then l.quote .bare else l)
  else if c = '\'' then some (l.quote .singleQuoted)
  else if c = '"' then some (l.quote .doubleQuoted)
  else if l.frame.opener = .brace then some (if c = '\x7d' then l.closeFrame else l.wordChar c)
  else l.readCommand c

def startsName (c : Char) : Bool := c.isAlpha || c = '_'

def continuesName (c : Char) : Bool := c.isAlphanum || c = '_'

/-- The positional and special parameters, named by one character. -/
def isParameter (c : Char) : Bool := c.isDigit || ['@', '*', '#', '?', '-', '$', '!'].contains c

/-- Finishes what the character after it decides: `$((`, `<<`, a `$'` outside double quotes and
a `${` inside them are read by rules of their own. -/
def readAhead (l : Lexer) (c : Char) : Option Lexer :=
  match l.ahead with
  | .none => l.read c
  | .dollar =>
    if c = '(' then some { l with ahead := .dollarParen }
    else if c = '\x7b' then
      if l.frame.context = .doubleQuoted then none else some (l.openFrame .brace)
    else if startsName c then some { l with ahead := .name }
    else if isParameter c then some { l with ahead := .none }
    else if c = '\'' && l.frame.context = .bare then none
    else { l with ahead := .none }.read c
  | .dollarParen => if c = '(' then none else (l.openFrame .substitution).read c
  | .name => if continuesName c then some l else { l with ahead := .none }.read c
  | .less => if c = '<' then none else { l with ahead := .none }.read c

/-- A quoted character: the `$(` before it is complete, any other start of a token is text. -/
def literal (l : Lexer) : Lexer :=
  let l := if l.ahead = .dollarParen then l.openFrame .substitution else l
  { l with position := l.frame.inside, ahead := .none, escaped := false }

/-- The lexical state after a character, as long as the text is of commands, quotes, comments,
`( )`, `$( )` and `${ }`. -/
def step (l : Lexer) (c : Char) : Option Lexer :=
  match l.frame.context with
  | .singleQuoted => some (if c = '\'' then l.quote .bare else l)
  | .comment => some (if c = '\n' then { l with frame := { l.frame with context := .bare }, position := .fresh } else l)
  | .bare | .doubleQuoted =>
    if l.escaped then
      -- A backslash and a newline are removed before the text is split into tokens.
      some (if c = '\n' then { l with escaped := false } else l.literal)
    else if c = '\\' then some { l with escaped := true }
    else l.readAhead c

def lex (text : Text) : Option Lexer := text.foldlM step new

end Lexer
end Aviso.Template.Posix
