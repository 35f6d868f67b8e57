import Aviso.Json

namespace Aviso

/-- The letters a JSON number is written with. -/
def isNumberChar (c : Char) : Bool := c.isDigit || ['-', '+', '.', 'e', 'E'].contains c

namespace JsonNumber

/-- `impl Display for serde_json::Number`. -/
def text : JsonNumber → Text
  | .posInt n => (toString n).toList
  | .negInt n => (toString n).toList
  | .float text => text

/-- The numbers `serde_json` can hold. -/
def WellFormed : JsonNumber → Prop
  | .posInt n => n ≤ u64Max
  | .negInt n => -(2 ^ 63) ≤ n ∧ n < 0
  | .float text => text ≠ [] ∧ text.all isNumberChar = true

end JsonNumber

namespace Json

/-- The digits of an escaped code point. -/
def hexDigits : Text := "0123456789abcdef".toList

def hexDigit (n : Nat) : Char := hexDigits.getD n '0'

/-- `CompactFormatter::write_char_escape`, for the characters that need it. -/
def escapeChar (c : Char) : Text :=
  if c = '"' then ['\\', '"']
  else if c = '\\' then ['\\', '\\']
  else if c = '\x08' then ['\\', 'b']
  else if c = '\x0c' then ['\\', 'f']
  else if c = '\n' then ['\\', 'n']
  else if c = '\r' then ['\\', 'r']
  else if c = '\t' then ['\\', 't']
  else if c.toNat < 0x20 then
    ['\\', 'u', '0', '0', hexDigit (c.toNat / 16), hexDigit (c.toNat % 16)]
  else [c]

def quote (s : Text) : Text := '"' :: (s.flatMap escapeChar ++ ['"'])

mutual

/-- The text that `serde_json::to_string` writes with its `CompactFormatter`: no white space, the entries
of an object in the order they are kept in. The parameters of `notify` spell their JSON values so. -/
def compact : Json → Text
  | .null => ['n', 'u', 'l', 'l']
  | .bool true => ['t', 'r', 'u', 'e']
  | .bool false => ['f', 'a', 'l', 's', 'e']
  | .number n => n.text
  | .string s => quote s
  | .array [] => ['[', ']']
  | .array (v :: rest) => '[' :: (compact v ++ (compactItems rest ++ [']']))
  | .object [] => ['\x7b', '\x7d']
  | .object ((k, v) :: rest) =>
    '\x7b' :: (quote k ++ (':' :: (compact v ++ (compactEntries rest ++ ['\x7d']))))

def compactItems : List Json → Text
  | [] => []
  | v :: rest => ',' :: (compact v ++ compactItems rest)

def compactEntries : List (Text × Json) → Text
  | [] => []
  | (k, v) :: rest => ',' :: (quote k ++ (':' :: (compact v ++ compactEntries rest)))

end

mutual

/-- How deep arrays and objects nest. -/
def depth : Json → Nat
  | .array items => depthItems items + 1
  | .object entries => depthEntries entries + 1
  | _ => 0

def depthItems : List Json → Nat
  | [] => 0
  | v :: rest => max (depth v) (depthItems rest)

def depthEntries : List (Text × Json) → Nat
  | [] => 0
  | (_, v) :: rest => max (depth v) (depthEntries rest)

end

mutual

/-- The values `serde_json` can hold: its numbers, and no key twice. -/
def WellFormed : Json → Prop
  | .number n => n.WellFormed
  | .array items => WellFormedItems items
  | .object entries => (entries.map Prod.fst).Nodup ∧ WellFormedEntries entries
  | _ => True

def WellFormedItems : List Json → Prop
  | [] => True
  | v :: rest => WellFormed v ∧ WellFormedItems rest

def WellFormedEntries : List (Text × Json) → Prop
  | [] => True
  | (_, v) :: rest => WellFormed v ∧ WellFormedEntries rest

end

/-- Arrays and objects. -/
def isStructured : Json → Bool
  | .array _ | .object _ => true
  | _ => false

end Json
end Aviso
