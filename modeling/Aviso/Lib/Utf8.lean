import Aviso.Lib.Transducer

namespace Aviso.Lib.Utf8

/-- The character that stands for bytes that are not UTF-8. -/
def replacement : Char := '\uFFFD'

/-- Where the decoder stands: between characters, or inside one with `need`
more bytes to come, the next of them in `[lower, upper]`. -/
inductive State where
  | start
  | inside (code : Nat) (need : Nat) (lower upper : Nat)
  deriving DecidableEq, Repr

/-- The first byte of a character, or a byte that cannot be one. -/
def first (b : UInt8) : State × List Char :=
  let n := b.toNat
  if n ≤ 0x7F then (.start, [Char.ofNat n])
  else if 0xC2 ≤ n ∧ n ≤ 0xDF then (.inside (n % 0x20) 1 0x80 0xBF, [])
  else if n = 0xE0 then (.inside (n % 0x10) 2 0xA0 0xBF, [])
  else if n = 0xED then (.inside (n % 0x10) 2 0x80 0x9F, [])
  else if 0xE1 ≤ n ∧ n ≤ 0xEF then (.inside (n % 0x10) 2 0x80 0xBF, [])
  else if n = 0xF0 then (.inside (n % 0x08) 3 0x90 0xBF, [])
  else if n = 0xF4 then (.inside (n % 0x08) 3 0x80 0x8F, [])
  else if 0xF1 ≤ n ∧ n ≤ 0xF3 then (.inside (n % 0x08) 3 0x80 0xBF, [])
  else (.start, [replacement])

/-- One byte. A byte that cannot continue the character begun before it is
read again as a first byte, after one replacement for that character. -/
def step : Step State UInt8 Char
  | .start, b => first b
  | .inside code need lower upper, b =>
    let n := b.toNat
    if lower ≤ n ∧ n ≤ upper then
      let code := code * 0x40 + n % 0x40
      if need = 1 then (.start, [Char.ofNat code])
      else (.inside code (need - 1) 0x80 0xBF, [])
    else ((first b).1, replacement :: (first b).2)

/-- A character cut short by the end of the input is replaced. -/
def flush : State → List Char
  | .start => []
  | .inside .. => [replacement]

/-- Decodes a whole byte string. -/
def decode (bytes : List UInt8) : List Char := step.output flush .start bytes

/-- Every code point from `lo` to `hi` is a character outside ASCII. -/
def Scalars (lo hi : Nat) : Prop := 0x80 ≤ lo ∧ (hi < 0xD800 ∨ 0xDFFF < lo ∧ hi < 0x110000)

/-- A range of characters stays one when it is narrowed. -/
theorem Scalars.narrow {lo hi lo' hi' : Nat} (h : Scalars lo hi) (hl : lo ≤ lo') (hh : hi' ≤ hi) :
    Scalars lo' hi' := by
  obtain ⟨h₁, h₂⟩ := h
  exact ⟨by omega, by omega⟩

/-- Continuation bytes lie above ASCII, and whatever they are the character
they complete is one and lies above ASCII. -/
def State.Sound : State → Prop
  | .start => True
  | .inside code need lower upper =>
    1 ≤ need ∧ 0x80 ≤ lower ∧ ∀ n, lower ≤ n → n ≤ upper →
      Scalars ((code * 0x40 + n % 0x40) * 0x40 ^ (need - 1))
        ((code * 0x40 + n % 0x40) * 0x40 ^ (need - 1) + (0x40 ^ (need - 1) - 1))

theorem first_sound (b : UInt8) : (first b).1.Sound := by
  have hb : b.toNat < 256 := b.toNat_lt
  unfold first
  dsimp only
  repeat' split
  all_goals simp only [State.Sound, Scalars]
  all_goals
    refine ⟨by decide, by decide, fun n hl hu => ?_⟩
    omega

/-- The characters under a prefix lie among those under a shorter one. -/
theorem range_narrows (c m p : Nat) (hp : 1 ≤ p) (hm : m < 0x40) :
    c * (p * 0x40) ≤ (c * 0x40 + m) * p ∧
      (c * 0x40 + m) * p + (p - 1) ≤ c * (p * 0x40) + (p * 0x40 - 1) := by
  have hexpand : (c * 0x40 + m) * p = c * (p * 0x40) + m * p := by
    rw [Nat.add_mul, Nat.mul_assoc, Nat.mul_comm 0x40 p]
  have hsmall : m * p ≤ 0x3F * p := Nat.mul_le_mul_right p (by omega)
  omega

theorem step_sound (s : State) (hs : s.Sound) (b : UInt8) : (step s b).1.Sound := by
  cases s with
  | start => exact first_sound b
  | inside code need lower upper =>
    obtain ⟨hneed, hlow, hall⟩ := hs
    simp only [step]
    split
    · rename_i hin
      split
      · trivial
      · obtain ⟨k, rfl⟩ : ∃ k, need = k + 2 := ⟨need - 2, by omega⟩
        have hcode := hall b.toNat hin.1 hin.2
        refine ⟨by omega, by decide, fun n hl hu => ?_⟩
        have hp : 1 ≤ 0x40 ^ k := Nat.one_le_pow _ _ (by decide)
        obtain ⟨hlo, hhi⟩ := range_narrows (code * 0x40 + b.toNat % 0x40) (n % 0x40) (0x40 ^ k) hp
          (Nat.mod_lt _ (by decide))
        exact hcode.narrow hlo hhi
    · exact first_sound b

theorem run_sound (s : State) (hs : s.Sound) (bytes : List UInt8) :
    (step.run s bytes).1.Sound := by
  induction bytes generalizing s with
  | nil => exact hs
  | cons b bytes ih =>
    rw [Step.run_cons]
    exact ih _ (step_sound s hs b)

/-- An ASCII byte ends whatever the decoder was in the middle of. -/
theorem step_ascii (s : State) (hs : s.Sound) (b : UInt8) (hb : b.toNat ≤ 0x7F) :
    step s b = (.start, flush s ++ [Char.ofNat b.toNat]) := by
  have hfirst : first b = (.start, [Char.ofNat b.toNat]) := by simp [first, hb]
  cases s with
  | start => simp [step, hfirst, flush]
  | inside code need lower upper =>
    have hlow : 0x80 ≤ lower := hs.2.1
    have hout : ¬ (lower ≤ b.toNat ∧ b.toNat ≤ upper) := by omega
    simp [step, hout, hfirst, flush]

theorem decode_nil : decode [] = [] := rfl

/-- Decoding may be cut at an ASCII byte: what lies on either side does not
affect how the other is decoded. -/
theorem decode_ascii (as bs : List UInt8) (b : UInt8) (hb : b.toNat ≤ 0x7F) :
    decode (as ++ b :: bs) = decode as ++ Char.ofNat b.toNat :: decode bs := by
  have hrun : (step.run .start as).1.Sound := run_sound .start trivial as
  unfold decode Step.output
  rw [Step.run_append, Step.run_cons, step_ascii _ hrun b hb]
  simp

theorem decode_cons_ascii (bs : List UInt8) (b : UInt8) (hb : b.toNat ≤ 0x7F) :
    decode (b :: bs) = Char.ofNat b.toNat :: decode bs := by
  simpa [decode_nil] using decode_ascii [] bs b hb

/-- ASCII characters come from ASCII bytes only. -/
def FromByte (b : UInt8) (c : Char) : Prop := c.toNat ≤ 0x7F → c.toNat = b.toNat

theorem toNat_ofNat_ascii {b : UInt8} (hb : b.toNat ≤ 0x7F) :
    (Char.ofNat b.toNat).toNat = b.toNat := by
  have hvalid : b.toNat.isValidChar := Or.inl (by omega)
  rw [Char.ofNat, dif_pos hvalid]
  rfl

theorem toNat_scalar {n : Nat} (h : Scalars n n) : (Char.ofNat n).toNat = n := by
  have hvalid : n.isValidChar := by
    obtain ⟨-, h | h⟩ := h
    · exact Or.inl h
    · exact Or.inr ⟨h.1, h.2⟩
  rw [Char.ofNat, dif_pos hvalid]
  rfl

theorem first_fromByte (b : UInt8) : ∀ c ∈ (first b).2, FromByte b c := by
  intro c hc
  unfold first at hc
  dsimp only at hc
  split at hc
  · rename_i hn
    rw [List.mem_singleton.mp hc]
    exact fun _ => toNat_ofNat_ascii hn
  · repeat' split at hc
    all_goals simp only [List.not_mem_nil, List.mem_singleton] at hc
    subst hc
    intro h
    exact absurd h (by decide)

theorem step_fromByte (s : State) (hs : s.Sound) (b : UInt8) : ∀ c ∈ (step s b).2, FromByte b c := by
  cases s with
  | start => exact first_fromByte b
  | inside code need lower upper =>
    obtain ⟨hneed, -, hall⟩ := hs
    simp only [step]
    split
    · rename_i hin
      split
      · rename_i hone
        subst hone
        intro c hc h
        have hcode := hall b.toNat hin.1 hin.2
        simp only [Nat.sub_self, Nat.pow_zero, Nat.mul_one, Nat.add_zero] at hcode
        rw [List.mem_singleton.mp hc, toNat_scalar hcode] at h
        obtain ⟨hbig, -⟩ := hcode
        omega
      · simp
    · intro c hc
      rcases List.mem_cons.mp hc with rfl | hc
      · intro h
        exact absurd h (by decide)
      · exact first_fromByte b c hc

theorem flush_replaces {s : State} {c : Char} (hc : c ∈ flush s) : c = replacement := by
  cases s with
  | start => simp [flush] at hc
  | inside code need lower upper => exact List.mem_singleton.mp hc

theorem mem_output {s : State} (hs : s.Sound) {bytes : List UInt8} {c : Char}
    (hc : c ∈ step.output flush s bytes) (ha : c.toNat ≤ 0x7F) :
    ∃ b ∈ bytes, c.toNat = b.toNat := by
  induction bytes generalizing s with
  | nil =>
    rw [Step.output_nil] at hc
    rw [flush_replaces hc] at ha
    exact absurd ha (by decide)
  | cons b bytes ih =>
    rw [Step.output_cons] at hc
    rcases List.mem_append.mp hc with hc | hc
    · exact ⟨b, by simp, step_fromByte s hs b c hc ha⟩
    · obtain ⟨b', hb', heq⟩ := ih (step_sound s hs b) hc
      exact ⟨b', by simp [hb'], heq⟩

/-- An ASCII character of the decoded text is a byte of the input. -/
theorem mem_decode {bytes : List UInt8} {c : Char} (hc : c ∈ decode bytes)
    (ha : c.toNat ≤ 0x7F) : ∃ b ∈ bytes, c.toNat = b.toNat :=
  mem_output (s := .start) trivial hc ha

theorem step_progress {s : State} {b : UInt8} (h : (step s b).1 = .start) : (step s b).2 ≠ [] := by
  have hfirst : (first b).1 = .start → (first b).2 ≠ [] := by
    unfold first
    dsimp only
    repeat' split
    all_goals simp
  cases s with
  | start => exact hfirst h
  | inside code need lower upper =>
    simp only [step] at h ⊢
    repeat' split
    all_goals simp_all

theorem output_ne_nil {s : State} {bytes : List UInt8} (h : s ≠ .start ∨ bytes ≠ []) :
    step.output flush s bytes ≠ [] := by
  induction bytes generalizing s with
  | nil =>
    rw [Step.output_nil]
    cases s with
    | start => simp at h
    | inside code need lower upper => simp [flush]
  | cons b bytes ih =>
    rw [Step.output_cons]
    by_cases hstart : (step s b).1 = .start
    · simp [step_progress hstart]
    · simp [ih (Or.inl hstart)]

/-- No input but the empty one decodes to nothing. -/
theorem decode_eq_nil {bytes : List UInt8} : decode bytes = [] ↔ bytes = [] :=
  ⟨fun h => Classical.byContradiction fun hne => output_ne_nil (Or.inr hne) h,
    fun h => h ▸ decode_nil⟩

/-- Text that does not start with an ASCII character. -/
def HeadHigh (text : List Char) : Prop := ∃ c rest, text = c :: rest ∧ 0x7F < c.toNat

theorem replacement_headHigh (text : List Char) : HeadHigh (replacement :: text) :=
  ⟨replacement, text, rfl, by decide⟩

/-- A character begun with a byte above ASCII is no ASCII character. -/
theorem inside_headHigh {s : State} (hs : s.Sound) (hin : s ≠ .start) (bytes : List UInt8) :
    HeadHigh (step.output flush s bytes) := by
  induction bytes generalizing s with
  | nil =>
    rw [Step.output_nil]
    cases s with
    | start => exact absurd rfl hin
    | inside code need lower upper => exact replacement_headHigh []
  | cons b bytes ih =>
    have hnext := step_sound s hs b
    rw [Step.output_cons]
    cases s with
    | start => exact absurd rfl hin
    | inside code need lower upper =>
      obtain ⟨hneed, -, hall⟩ := hs
      simp only [step] at hnext ⊢
      split
      · rename_i hrange
        split
        · rename_i hone
          subst hone
          have hcode := hall b.toNat hrange.1 hrange.2
          simp only [Nat.sub_self, Nat.pow_zero, Nat.mul_one, Nat.add_zero] at hcode
          have hchar := toNat_scalar hcode
          obtain ⟨hbig, -⟩ := hcode
          exact ⟨_, _, rfl, by omega⟩
        · rename_i hmore
          rw [if_pos hrange, if_neg hmore] at hnext
          exact ih hnext (by simp)
      · exact replacement_headHigh _

/-- A byte above ASCII begins a character or is replaced at once. -/
theorem first_above {b : UInt8} (hb : 0x7F < b.toNat) :
    (∃ s, s ≠ .start ∧ first b = (s, [])) ∨ first b = (.start, [replacement]) := by
  unfold first
  dsimp only
  rw [if_neg (by omega)]
  repeat' split
  all_goals simp

theorem cons_headHigh {b : UInt8} (hb : 0x7F < b.toNat) (bytes : List UInt8) :
    HeadHigh (decode (b :: bytes)) := by
  have hsound := first_sound b
  rw [decode, Step.output_cons]
  simp only [step]
  rcases first_above hb with ⟨s, hin, hs⟩ | hs
  · rw [hs] at hsound ⊢
    exact inside_headHigh hsound hin bytes
  · rw [hs]
    exact replacement_headHigh _

/-- The decoded text starts with an ASCII character only when the input starts
with its byte. -/
theorem head_decode (bytes : List UInt8) {b : UInt8} (hb : b.toNat ≤ 0x7F) :
    (decode bytes).head? = some (Char.ofNat b.toNat) ↔ bytes.head? = some b := by
  cases bytes with
  | nil => simp [decode_nil]
  | cons b' bytes =>
    rcases Nat.lt_or_ge 0x7F b'.toNat with hhigh | hlow
    · obtain ⟨c, rest, hdecode, hc⟩ := cons_headHigh hhigh bytes
      have hne : c ≠ Char.ofNat b.toNat := fun h => by
        rw [h, toNat_ofNat_ascii hb] at hc
        omega
      have hne' : b' ≠ b := fun h => by subst h; omega
      simp [hdecode, hne, hne']
    · rw [decode_cons_ascii bytes b' hlow]
      simp only [List.head?_cons, Option.some.injEq]
      constructor
      · intro h
        have hnat := congrArg Char.toNat h
        rw [toNat_ofNat_ascii hlow, toNat_ofNat_ascii hb] at hnat
        exact UInt8.toNat_inj.mp hnat
      · intro h
        rw [h]

/-- An ASCII character is encoded as itself. -/
theorem encodeChar_ascii {c : Char} (h : c.toNat ≤ 0x7F) :
    String.utf8EncodeChar c = [c.toNat.toUInt8] :=
  if_pos h

/-- The bytes of any other character are none of ASCII. -/
theorem encodeChar_high {c : Char} (h : 0x7F < c.toNat) {b : UInt8}
    (hb : b ∈ String.utf8EncodeChar c) : 0x7F < b.toNat := by
  have hlow : ¬ c.val.toNat ≤ 0x7F := Nat.not_le.mpr h
  unfold String.utf8EncodeChar at hb
  simp only [hlow, if_false] at hb
  split at hb
  · simp only [List.mem_cons, List.not_mem_nil, or_false] at hb
    rcases hb with rfl | rfl <;> simp only [UInt8.toNat_ofNat'] <;> omega
  · split at hb
    · simp only [List.mem_cons, List.not_mem_nil, or_false] at hb
      rcases hb with rfl | rfl | rfl <;> simp only [UInt8.toNat_ofNat'] <;> omega
    · simp only [List.mem_cons, List.not_mem_nil, or_false] at hb
      rcases hb with rfl | rfl | rfl | rfl <;> simp only [UInt8.toNat_ofNat'] <;> omega

/-- Texts that are encoded alike are the same. -/
theorem encode_injective {s t : List Char}
    (h : s.flatMap String.utf8EncodeChar = t.flatMap String.utf8EncodeChar) : s = t := by
  have hencode : s.utf8Encode = t.utf8Encode := by
    rw [List.utf8Encode, List.utf8Encode, h]
  have hstring : String.ofList s = String.ofList t := by
    apply String.toByteArray_inj.mp
    rw [String.toByteArray_ofList, String.toByteArray_ofList, hencode]
  rw [← String.toList_ofList (l := s), hstring, String.toList_ofList]

end Aviso.Lib.Utf8
