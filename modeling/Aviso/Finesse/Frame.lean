import Aviso.Basics

namespace Aviso.Finesse

/-- Bounds on how much a single line or a single event may hold. -/
structure Limits where
  maxLineBytes : Nat
  maxEventBytes : Nat
  deriving DecidableEq, Repr

def mib : Nat := 1024 * 1024

/-- `Limits::default`. -/
def Limits.default : Limits := ⟨16 * mib, 32 * mib⟩

/-- A bound was exceeded; the value is the bound. -/
inductive Overflow where
  | line (max : Nat)
  | event (max : Nat)
  deriving DecidableEq, Repr

def Overflow.message : Overflow → String
  | .line max => "SSE line exceeds " ++ toString max ++ " bytes"
  | .event max =>
    "SSE event exceeds " ++ toString max ++ " bytes of data without a dispatching blank line"

/-- A dispatched event. `id` stays `none` before the first `id` field. -/
structure Message where
  event : Text
  data : Text
  id : Option Text
  deriving DecidableEq, Repr

inductive Frame where
  | message (m : Message)
  | retry (millis : Nat)
  deriving DecidableEq, Repr

def LF : UInt8 := 0x0A
def CR : UInt8 := 0x0D
def colon : UInt8 := 0x3A
def space : UInt8 := 0x20

end Aviso.Finesse
