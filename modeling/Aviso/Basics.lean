import Aviso.Lib.Utf8

namespace Aviso

/-- Decoded text. The source's `String`, read as the characters it holds. -/
abbrev Text := List Char

/-- `String::len`: the bytes a text takes in UTF-8. -/
def Text.len (t : Text) : Nat := (t.map Char.utf8Size).sum

/-- Largest `usize` of the 64-bit targets the client is built for. -/
def usizeMax : Nat := 2 ^ 64 - 1

/-- Largest `u64`. -/
def u64Max : Nat := 2 ^ 64 - 1

def saturatingAdd (a b : Nat) : Nat := min (a + b) usizeMax

/-- `u64::checked_add(1)`. -/
def checkedSucc (n : Nat) : Option Nat := if n < u64Max then some (n + 1) else none

/-- `u32::saturating_add(1)`. -/
def saturatingSucc32 (n : Nat) : Nat := min (n + 1) (2 ^ 32 - 1)

theorem checkedSucc_some {n m : Nat} (h : checkedSucc n = some m) : m = n + 1 ∧ n < u64Max := by
  unfold checkedSucc at h
  split at h
  · cases h
    exact ⟨rfl, ‹_›⟩
  · cases h

theorem checkedSucc_none {n : Nat} (h : checkedSucc n = none) : u64Max ≤ n := by
  unfold checkedSucc at h
  split at h
  · cases h
  · omega

/-- The number a text of decimal digits stands for. -/
def decimal (digits : Text) : Nat :=
  digits.foldl (fun n c => n * 10 + (c.toNat - '0'.toNat)) 0

/-- `str::parse::<u64>`: decimal digits, after at most one plus sign. -/
def parseU64 (s : Text) : Option Nat :=
  let digits := if s.head? = some '+' then s.tail else s
  if digits.isEmpty || !digits.all Char.isDigit then none
  else if decimal digits ≤ u64Max then some (decimal digits) else none

theorem parseU64_le {s : Text} (h : parseU64 s = some n) : n ≤ u64Max := by
  unfold parseU64 at h
  generalize (if s.head? = some '+' then s.tail else s) = digits at h
  dsimp only at h
  split at h
  · cases h
  · split at h
    · cases h
      assumption
    · cases h

end Aviso
