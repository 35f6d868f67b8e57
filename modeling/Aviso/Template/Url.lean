import Aviso.Basics

namespace Aviso.Template

/-- `str::bytes`. -/
def bytes (text : Text) : List UInt8 := text.flatMap String.utf8EncodeChar

/-- Which part of a URL the rendered text has reached. -/
structure UrlTracker where
  /-- How many bytes of `://` have matched so far, across pieces. -/
  separatorMatched : Nat
  seenSchemeSeparator : Bool
  inPath : Bool
  deriving DecidableEq, Repr

namespace UrlTracker

def new : UrlTracker := ⟨0, false, false⟩

def ascii (c : Char) : UInt8 := c.toNat.toUInt8

/-- The body of the loop of `advance`. -/
def step (t : UrlTracker) (byte : UInt8) : UrlTracker :=
  if t.inPath then t
  else if t.seenSchemeSeparator then
    { t with inPath := byte = ascii '/' || byte = ascii '?' || byte = ascii '#' }
  else
    let matched :=
      if byte = ascii ':' then 1
      else if (t.separatorMatched = 1 || t.separatorMatched = 2) && byte = ascii '/' then
        t.separatorMatched + 1
      else 0
    { t with separatorMatched := matched, seenSchemeSeparator := matched = 3 }

def advance (t : UrlTracker) (text : Text) : UrlTracker := (bytes text).foldl step t

end UrlTracker

/-- A byte `percent_encode` keeps: a letter, a digit, `-`, `_` or `~`. -/
def isKept (byte : UInt8) : Bool :=
  let c := Char.ofNat byte.toNat
  c.isAlphanum || c = '-' || c = '_' || c = '~'

def hex (n : Nat) : Char := "0123456789ABCDEF".toList.getD n '0'

def encodeByte (byte : UInt8) : Text :=
  if isKept byte then [Char.ofNat byte.toNat]
  else ['%', hex (byte.toNat / 16), hex (byte.toNat % 16)]

def percentEncode (value : Text) : Text := (bytes value).flatMap encodeByte

end Aviso.Template
