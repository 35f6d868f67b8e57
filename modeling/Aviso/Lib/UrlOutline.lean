import Aviso.Lib.Slots
import Aviso.Lib.UrlPrefix

namespace Aviso.Lib.Url

open List (Forall₂)

variable {κ : Type}

/-- The text of a URL with places in it that are still to be filled. -/
abbrev Slotted (κ : Type) := List (Piece Char κ)

inductive OutlinePath (κ : Type) where
  | opaqueText (text : Slotted κ)
  | segments (list : List (Slotted κ))
  deriving DecidableEq, Repr

/-- What follows the authority of a URL, whatever its places are filled with. -/
structure Outline (κ : Type) where
  kind : Kind
  path : OutlinePath κ
  query : Option (Slotted κ)
  fragment : Option (Slotted κ)
  deriving DecidableEq, Repr

section Cutting

def outlinePath (special : Bool) (mode : PathMode) (text : Slotted κ) : OutlinePath κ :=
  match mode with
  | .opaqueText => .opaqueText text
  | .list => .segments (text.splitOnP (Piece.is (separatesPath special)))
  | .start =>
    match text with
    | [] => .segments (if special then [[]] else [])
    | piece :: rest =>
      .segments ((if piece.is (separatesPath special) then rest else text).splitOnP
        (Piece.is (separatesPath special)))

def slottedAfter (mark : Char) : Slotted κ → Option (Slotted κ)
  | .char c :: rest => if c = mark then some rest else none
  | _ => none

def outlineTail (kind : Kind) (mode : PathMode) (text : Slotted κ) : Outline κ :=
  let rest := text.dropWhile (!Piece.is endsPath ·)
  { kind := kind
    path := outlinePath kind.isSpecial mode (text.takeWhile (!Piece.is endsPath ·))
    query := (slottedAfter '?' rest).map (·.takeWhile (!Piece.is (· = '#') ·))
    fragment := slottedAfter '#' (rest.dropWhile (!Piece.is (· = '#') ·)) }

/-- The text before the first place. -/
def leadText : Slotted κ → List Char
  | .char c :: text => c :: leadText text
  | _ => []

/-- The text from the first place on. -/
def fromSlot : Slotted κ → Slotted κ
  | .char _ :: text => fromSlot text
  | text => text

def cleanSlotted (text : Slotted κ) : Slotted κ :=
  ((text.dropWhile (Piece.is isBlank)).rdropWhile (Piece.is isBlank)).filter (!Piece.is isTabOrNewline ·)

/-- The outline of a URL whose authority is over before its first place. -/
def outline (text : Slotted κ) : Option (Outline κ) :=
  (splitScheme (leadText (cleanSlotted text))).map fun (scheme, rest) =>
    let (_, mode, after) := cutAuthority (kindOf scheme) rest
    outlineTail (kindOf scheme) mode (after.map .char ++ fromSlot (cleanSlotted text))

end Cutting

section Folding

def outlineShorten (kind : Kind) (path : List (Slotted κ)) : List (Slotted κ) :=
  match kind, path with
  | .file, [segment] => if (literal segment).any isNormalizedDriveLetter then path else []
  | _, _ => path.dropLast

def outlineNormalize (kind : Kind) (path : List (Slotted κ)) (segment : Slotted κ) : Slotted κ :=
  if kind = .file && path.isEmpty && (literal segment).any isDriveLetter then segment.take 1 ++ [.char ':']
  else segment

/-- A segment with a place in it is neither dots nor a drive letter. -/
def outlineAdd (kind : Kind) (path : List (Slotted κ)) (segment : Slotted κ) (last : Bool) :
    List (Slotted κ) :=
  match (literal segment).bind dotsOf with
  | some dots =>
    let path := if dots = .double then outlineShorten kind path else path
    if last then path ++ [[]] else path
  | none => path ++ [outlineNormalize kind path segment]

def outlineFold (kind : Kind) (path : List (Slotted κ)) : List (Slotted κ) → List (Slotted κ)
  | [] => path
  | [segment] => outlineAdd kind path segment true
  | segment :: rest => outlineFold kind (outlineAdd kind path segment false) rest

def encodeSlotted (set : Char → Bool) (text : Slotted κ) : Slotted κ :=
  text.flatMap (Piece.flatMap fun c => encode set [c])

namespace Outline

/-- The segments of a path before they are folded. -/
def written (o : Outline κ) : List (Slotted κ) :=
  match o.path with
  | .opaqueText _ => []
  | .segments list => list.map (encodeSlotted pathSet)

def read (o : Outline κ) : Outline κ :=
  { kind := o.kind
    path :=
      match o.path with
      | .opaqueText text => .opaqueText (encodeSlotted controlSet text)
      | .segments _ => .segments (outlineFold o.kind [] o.written)
    query := o.query.map (encodeSlotted (if o.kind.isSpecial then specialQuerySet else querySet))
    fragment := o.fragment.map (encodeSlotted fragmentSet) }

/-- The sequences of the query, which are its parameters where they are not empty. -/
def sequences (o : Outline κ) : List (Slotted κ) :=
  (o.query.map (·.splitOnP (Piece.is (· = '&')))).getD []

def parameters (o : Outline κ) : List (Slotted κ) := o.sequences.filter (!·.isEmpty)

end Outline

end Folding

end Aviso.Lib.Url
