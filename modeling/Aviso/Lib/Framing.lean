import Mathlib.Tactic.Ring

namespace Aviso.Lib

/-- The lowest `width` bytes of a number, the lowest first. -/
def leBytes : Nat → Nat → List UInt8
  | 0, _ => []
  | width + 1, n => UInt8.ofNat n :: leBytes width (n / 256)

theorem length_leBytes (width n : Nat) : (leBytes width n).length = width := by
  induction width generalizing n with
  | zero => rfl
  | succ width ih => rw [leBytes, List.length_cons, ih]

theorem leBytes_inj {width m n : Nat} (hm : m < 256 ^ width) (hn : n < 256 ^ width)
    (h : leBytes width m = leBytes width n) : m = n := by
  induction width generalizing m n with
  | zero => omega
  | succ width ih =>
    obtain ⟨hlow, hhigh⟩ := List.cons.inj h
    have hmod : m % 256 = n % 256 := by
      have := congrArg UInt8.toNat hlow
      simpa using this
    have hdiv : m / 256 = n / 256 := by
      refine ih ?_ ?_ hhigh
      · rw [Nat.pow_succ] at hm
        omega
      · rw [Nat.pow_succ] at hn
        omega
    omega

/-- A byte string behind its length in `width` bytes. -/
def frame (width : Nat) (bytes : List UInt8) : List UInt8 :=
  leBytes width bytes.length ++ bytes

/-- A byte string that may be absent, behind a tag. -/
def frameOption (width : Nat) : Option (List UInt8) → List UInt8
  | some bytes => 1 :: frame width bytes
  | none => [0]

section Framing

variable {width : Nat} {a b rest rest' : List UInt8}

/-- What follows a frame is told apart from what is in it. -/
theorem frame_append_inj (ha : a.length < 256 ^ width) (hb : b.length < 256 ^ width)
    (h : frame width a ++ rest = frame width b ++ rest') : a = b ∧ rest = rest' := by
  rw [frame, frame, List.append_assoc, List.append_assoc] at h
  obtain ⟨hlength, hbody⟩ := List.append_inj h (by rw [length_leBytes, length_leBytes])
  exact List.append_inj hbody (leBytes_inj ha hb hlength)

theorem frameOption_inj {x y : Option (List UInt8)} (hx : ∀ a ∈ x, a.length < 256 ^ width)
    (hy : ∀ b ∈ y, b.length < 256 ^ width) (h : frameOption width x = frameOption width y) :
    x = y := by
  cases x with
  | none =>
    cases y with
    | none => rfl
    | some b => cases (List.cons.inj h).1
  | some a =>
    cases y with
    | none => cases (List.cons.inj h).1
    | some b =>
      have hframe : frame width a ++ [] = frame width b ++ [] := by
        rw [List.append_nil, List.append_nil]
        exact (List.cons.inj h).2
      rw [(frame_append_inj (hx a rfl) (hy b rfl) hframe).1]

end Framing

end Aviso.Lib
