import Aviso.Basics
import Aviso.Lib.Walk

namespace Aviso.Py.Identifier

/-- A Python object as the casts see it. `ο` are the identities of objects and `ε` the exceptions that
their own methods raise. An object may answer to several casts. To go through a set or a frozen set,
which PyO3 does with their own iterators, is taken not to raise. -/
structure Object (ο ε : Type) where
  /-- Whether a float is finite. -/
  float : Option Bool := none
  string : Bool := false
  bytes : Bool := false
  byteArray : Bool := false
  set : Option (List ο) := none
  frozenSet : Option (List ο) := none
  /-- What `values` returns. -/
  mapping : Option (Except ε (List ο)) := none
  /-- What `len` and `get_item` return. -/
  sequence : Option (Except ε Nat × (Nat → Except ε ο)) := none

/-- The exception that refuses an identifier. -/
inductive Refusal (ε : Type) where
  | typeError (message : Text)
  | valueError (message : Text)
  | raised (e : ε)
  deriving DecidableEq, Repr

/-- `MAX_IDENTIFIER_NESTING`. -/
def maxIdentifierNesting : Nat := 100

variable {ο ε : Type}

def nonFinite : Refusal ε := .typeError "identifier values must not contain NaN or infinity".toList

def tooDeep : Refusal ε :=
  .valueError ("identifier values must not exceed ".toList ++ (Nat.repr maxIdentifierNesting).toList ++
    " nested containers".toList)

def cyclic : Refusal ε := .typeError "identifier values must not contain cyclic containers".toList

/-- The items of a container, by the first cast that it answers to. -/
def Object.items (o : Object ο ε) : List (Except (Refusal ε) ο) :=
  match o.set, o.frozenSet, o.mapping, o.sequence with
  | some items, _, _, _ => items.map .ok
  | none, some items, _, _ => items.map .ok
  | none, none, some (.ok values), _ => values.map .ok
  | none, none, some (.error e), _ => [.error (.raised e)]
  | none, none, none, some (.ok len, getItem) => (List.range len).map fun i => (getItem i).mapError .raised
  | none, none, none, some (.error e, _) => [.error (.raised e)]
  | none, none, none, none => []

def Object.isContainer (o : Object ο ε) : Bool :=
  o.set.isSome || o.frozenSet.isSome || o.mapping.isSome || o.sequence.isSome

/-- A container whose items are looked at. -/
def Object.opens (o : Object ο ε) : Bool := o.float.isNone && !(o.string || o.bytes || o.byteArray) && o.isContainer

/-- What the check sees of an object: a value of its own, or a container. -/
def Object.view (o : Object ο ε) : Lib.View (Refusal ε) ο :=
  match o.float with
  | some finite => .leaf (if finite then .ok () else .error nonFinite)
  | none =>
    if o.string || o.bytes || o.byteArray then .leaf (.ok ())
    else if !o.isContainer then .leaf (.ok ())
    else .inner o.items

def refusal : Lib.Fault (Refusal ε) → Refusal ε
  | .own e => e
  | .deep => tooDeep
  | .cyclic => cyclic

/-- `validate_identifier_inner`. The limit that is left stands for the depth, and the set of active
containers comes back with the result. -/
def validateIdentifierInner [DecidableEq ο] (heap : ο → Object ο ε) (left : Nat) (activeContainers : Finset ο) (value : ο) :
    Except (Lib.Fault (Refusal ε)) Unit × Finset ο :=
  Lib.Walk.walk (fun o => (heap o).view) left activeContainers value

def validateIdentifier [DecidableEq ο] (heap : ο → Object ο ε) (value : ο) : Except (Refusal ε) Unit :=
  (validateIdentifierInner heap maxIdentifierNesting ∅ value).1.mapError refusal

end Aviso.Py.Identifier
