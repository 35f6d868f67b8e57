import Aviso.Template.PosixReading

namespace Aviso.Template.Posix

/-! ### Words and commands -/

/-- How much of a word is known as text. -/
inductive Spelling where
  /-- Nothing in it is quoted. -/
  | bare (text : Text)
  /-- Its text after quote removal. -/
  | quoted (text : Text)
  /-- An expansion is part of it, or its text cannot matter where it stands. -/
  | unknown
  deriving DecidableEq, Repr

namespace Spelling

def text : Spelling → Option Text
  | .bare s | .quoted s => some s
  | .unknown => none

def push : Spelling → Char → Spelling
  | .bare s, c => .bare (s ++ [c])
  | .quoted s, c => .quoted (s ++ [c])
  | .unknown, _ => .unknown

def quote : Spelling → Text → Spelling
  | .bare s, q | .quoted s, q => .quoted (s ++ q)
  | .unknown, _ => .unknown

/-- The name of a variable: an `=` after it makes the word an assignment. -/
def isName : Spelling → Bool
  | .bare (c :: s) => Lexer.startsName c && s.all Lexer.continuesName
  | _ => false

/-- A number right before `<` or `>` belongs to the redirection. -/
def isNumber : Spelling → Bool
  | .bare s => s.all Char.isDigit
  | _ => false

end Spelling

/-- The word being read. -/
structure Part where
  spelling : Spelling
  assignment : Bool
  deriving DecidableEq, Repr

def Part.new : Part := ⟨.bare [], false⟩

/-- A word that cannot matter. -/
def Part.other : Part := ⟨.unknown, false⟩

/-- Where in a command the next word stands, or the one being read. -/
inductive Role where
  /-- Where a command starts: the command word, unless it is an assignment or a reserved word.
  After the name of a `for`, on a line of its own, `in` is one. -/
  | start (third : Bool)
  /-- After an assignment or a redirection, where no word is reserved. -/
  | prefixed
  /-- After the command word, with its text where that is literal. -/
  | arguments (name : Option Text)
  /-- After the reserved word that ends a compound command. -/
  | closed
  | forName
  /-- After the name of a `for`. -/
  | forWords
  /-- Around a `( )`, and in `${ }`: no word of this command is being read. -/
  | nested
  deriving DecidableEq, Repr

/-- The reserved words after which a command starts. -/
def opensCommand (word : Text) : Bool :=
  ["!", "\x7b", "if", "then", "else", "elif", "while", "until", "do"].any fun w => w.toList = word

/-- Those of them that may follow the end of a compound command. -/
def continuesCompound (word : Text) : Bool :=
  ["then", "else", "elif", "do"].any fun w => w.toList = word

def closesCompound (word : Text) : Bool := ["\x7d", "fi", "done"].any fun w => w.toList = word

/-- The commands that read their arguments as shell code again, or run the file they name. -/
def rereads (name : Text) : Bool :=
  ["eval", "trap", ".", "source", "sh", "bash", "dash", "zsh", "ksh", "ash", "busybox"].any
    fun w => w.toList = name

namespace Role

/-- The text of a word that stands here decides what follows. -/
def isCommand : Role → Bool
  | .start _ | .prefixed => true
  | _ => false

def afterReserved (third : Bool) (word : Text) : Role :=
  if opensCommand word then .start false
  else if closesCompound word then .closed
  else if word = "for".toList then .forName
  else if third && word = "in".toList then .arguments none
  else .arguments (some word)

/-- Where the word after this one stands. -/
def after (role : Role) (part : Part) : Role :=
  match role with
  | .start third =>
    if part.assignment then .prefixed
    else
      match part.spelling with
      | .bare word => afterReserved third word
      | spelling => .arguments spelling.text
  | .prefixed => if part.assignment then .prefixed else .arguments part.spelling.text
  | .closed =>
    match part.spelling with
    | .bare word =>
      if continuesCompound word then .start false
      else if closesCompound word then .closed
      else .arguments none
    | _ => .arguments none
  | .forName => .forWords
  | .forWords => if part.spelling = .bare "do".toList then .start false else .arguments none
  | .arguments name => .arguments name
  | .nested => .nested

def redirected : Role → Role
  | .start _ => .prefixed
  | .closed | .forName | .forWords => .arguments none
  | role => role

/-- The word list of a `for` may start on a line of its own. -/
def nextLine : Role → Role
  | .forWords | .start true => .start true
  | _ => .start false

end Role

/-- A command, as far as it has been read. -/
structure Command where
  role : Role
  /-- The word being read; its spelling is empty before it starts. -/
  word : Part
  /-- That word is the operand of a redirection. -/
  operand : Bool
  deriving DecidableEq, Repr

/-- What a character is to the command it stands in. -/
inductive Event where
  | bare (c : Char)
  /-- Quoting, with the text quoted. -/
  | quoted (text : Text)
  | expansion
  | blank
  | newline
  | separator
  | redirect
  | opens (opener : Opener)
  | closes (opener : Opener)
  deriving DecidableEq, Repr

namespace Command

def new : Command := ⟨.start false, .new, false⟩

def nested : Command := ⟨.nested, .new, false⟩

/-- The word being read grows, or starts. -/
def grow (r : Command) (spell : Spelling → Spelling) (assigns : Spelling → Bool) : Command :=
  match r.role with
  | .nested => r
  | .arguments _ => { r with word := .other }
  | _ =>
    if r.operand then { r with word := .other }
    else { r with word := ⟨spell r.word.spelling, r.word.assignment || assigns r.word.spelling⟩ }

def push (r : Command) (c : Char) : Command :=
  r.grow (·.push c) fun spelling => c = '=' && spelling.isName

/-- Where only reserved words may stand, a quoted word is none of them. -/
def quote (r : Command) (text : Text) : Command :=
  r.grow (fun spelling => if r.role.isCommand then spelling.quote text else .unknown) fun _ => false

def expand (r : Command) : Command := r.grow (fun _ => .unknown) fun _ => false

/-- The word being read ends. -/
def endWord (r : Command) : Command :=
  if r.word = .new then r
  else if r.operand then { r with word := .new, operand := false }
  else { r with role := r.role.after r.word, word := .new }

def redirect (r : Command) : Command :=
  let ended := if !r.operand && r.word.spelling.isNumber then r else r.endWord
  if r.role = .nested then r else ⟨ended.role.redirected, .new, true⟩

/-- The word being read opens a command where only words of its own kind may: `do` right after the
name of a `for`, and the reserved words after the end of a compound command. -/
def reopens (r : Command) : Bool :=
  !r.operand &&
    match r.role with
    | .closed | .forWords => (r.role.after r.word).isCommand
    | _ => false

/-- The word being read is the name of a command that rereads its arguments. -/
def names (r : Command) : Bool := !r.operand && r.role.isCommand && r.word.spelling.text.any rereads

/-- A value here would be the command word or the operand of a redirection, or an argument that
is read as shell code again. -/
def exposes (r : Command) : Bool :=
  r.operand ||
    match r.role with
    | .start _ | .prefixed => !r.word.assignment
    | .arguments name => name.any rereads
    | .closed | .forName | .forWords | .nested => false

end Command

/-- The command being read, and those it is nested in. -/
structure Commands where
  command : Command
  outer : List Command
  deriving DecidableEq, Repr

namespace Commands

def new : Commands := ⟨.new, []⟩

/-- An expansion is part of the word around it. -/
def openCommand (cs : Commands) (opener : Opener) : Commands where
  command := if opener = .brace then .nested else .new
  outer := (if opener = .group then .nested else cs.command.expand) :: cs.outer

/-- After a `( )` a command may start: the body of a function, or the reserved word of the compound
command around it. -/
def closeCommand (cs : Commands) (opener : Opener) : Commands :=
  match cs.outer with
  | [] => .new
  | around :: outer => ⟨if opener = .group then .new else around, outer⟩

def read (cs : Commands) (e : Event) : Commands :=
  match e with
  | .bare c => { cs with command := cs.command.push c }
  | .quoted s => { cs with command := cs.command.quote s }
  | .expansion => { cs with command := cs.command.expand }
  | .blank => { cs with command := cs.command.endWord }
  | .newline => { cs with command := ⟨cs.command.endWord.role.nextLine, .new, false⟩ }
  | .separator => { cs with command := .new }
  | .redirect => { cs with command := cs.command.redirect }
  | .opens opener => cs.openCommand opener
  | .closes opener => cs.closeCommand opener

def exposes (cs : Commands) : Bool := cs.command.exposes || cs.outer.any Command.exposes

end Commands

/-! ### The characters -/

namespace Lexer

/-- A character that no escape and no half-read token claims. -/
def plainEvents (l : Lexer) (c : Char) : List Event :=
  if c = '$' then [.expansion]
  else if l.frame.context = .doubleQuoted then if c = '"' then [] else [.quoted [c]]
  else if c = '\'' || c = '"' then [.quoted []]
  else if l.frame.opener = .brace then if c = '\x7d' then [.closes .brace] else []
  else if c = '(' then [.opens .group]
  else if c = ')' then [.closes l.frame.opener]
  else if c = '<' || c = '>' then [.redirect]
  else if c = ' ' || c = '\t' then [.blank]
  else if c = '\n' then [.newline]
  else if c = '&' || c = '|' then
    -- `>&`, `<&` and `>|` are redirections as well.
    if l.position = .operand then [] else [.separator]
  else if c = ';' then [.separator]
  else if c = '#' && l.position.startsToken then []
  else [.bare c]

/-- What a character is, after the one before it: the first character of a `$( )` opens it too. -/
def events (l : Lexer) (c : Char) : List Event :=
  match l.frame.context with
  | .singleQuoted => if c = '\'' then [] else [.quoted [c]]
  | .comment => if c = '\n' then [.newline] else []
  | .bare | .doubleQuoted =>
    if l.escaped then
      if c = '\n' then []
      else if l.ahead = .dollarParen then [.opens .substitution, .quoted [c]]
      else [.quoted (l.text c)]
    else if c = '\\' then []
    else
      match l.ahead with
      | .none | .less => l.plainEvents c
      | .dollar =>
        if c = '(' then []
        else if c = '\x7b' then [.opens .brace]
        else if startsName c || isParameter c then [.expansion]
        else l.plainEvents c
      | .dollarParen => .opens .substitution :: (l.openFrame .substitution).plainEvents c
      | .name => if continuesName c then [.expansion] else l.plainEvents c

end Lexer

/-- `sh` between two characters of a program: what it has read of tokens and of commands. -/
structure Parser where
  lexer : Lexer
  commands : Commands
  deriving DecidableEq, Repr

namespace Parser

def new : Parser := ⟨.new, .new⟩

def step (p : Parser) (c : Char) : Option Parser :=
  (p.lexer.step c).map fun l => ⟨l, (p.lexer.events c).foldl Commands.read p.commands⟩

def after (p : Option Parser) (text : Text) : Option Parser := text.foldl (fun p c => p.bind (·.step c)) p

/-- The state after a value, whatever its characters are. -/
def afterValue (p : Parser) : Parser :=
  ⟨p.lexer.afterValue, if p.lexer.frame.context = .comment then p.commands else p.commands.read (.quoted [])⟩

/-- A value here would lie in a command word, in the operand of a redirection, or in an argument
that is read as shell code again, be it through the substitutions around it. -/
def exposes (p : Parser) : Bool := p.lexer.frame.context ≠ .comment && p.commands.exposes

end Parser

/-- No value lies in a command word, in the operand of a redirection, or in an argument that is read
as shell code again. -/
def Unexposed : Option Parser → List Span → Prop
  | _, [] => True
  | p, .text s :: rest => Unexposed (Parser.after p s) rest
  | p, .value _ w :: rest =>
    (∀ u, u <+: w → ∃ q, Parser.after p u = some q ∧ q.exposes = false) ∧ Unexposed (Parser.after p w) rest

end Aviso.Template.Posix
