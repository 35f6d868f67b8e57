import Aviso.Basics

namespace Aviso

/-- `serde_json::Number`. A float is kept as the text it is written as. -/
inductive JsonNumber where
  | posInt (n : Nat)
  | negInt (n : Int)
  | float (text : Text)
  deriving DecidableEq, Repr

/-- `serde_json::Value`. -/
inductive Json where
  | null
  | bool (b : Bool)
  | number (n : JsonNumber)
  | string (s : Text)
  | array (items : List Json)
  | object (entries : List (Text × Json))
  deriving Repr

namespace Json

/-- `Value::get` with a key. -/
def get (v : Json) (key : Text) : Option Json :=
  match v with
  | .object entries => entries.lookup key
  | _ => none

def asStr : Json → Option Text
  | .string s => some s
  | _ => none

def asU64 : Json → Option Nat
  | .number (.posInt n) => some n
  | _ => none

end Json
end Aviso
