import Aviso.Lib.UrlReading
import Aviso.Lib.Utf8

namespace Aviso.Lib.Url

variable {κ : Type} {fill : κ → List Char} {value : κ → List UInt8} {x y z : Slotted κ} {s : List Char}

section Trimmed

/-- What is cut off at the end of an input, as it would be written: blanks, plain or escaped,
and places with nothing in them. -/
inductive Trimmed (fill : κ → List Char) : Slotted κ → Prop where
  | nil : Trimmed fill []
  | blank {c : Char} {z : Slotted κ} (hc : isBlank c = true) (hz : Trimmed fill z) : Trimmed fill (.char c :: z)
  | escape {c : Char} {z : Slotted κ} (hc : isBlank c = true) (hz : Trimmed fill z) :
      Trimmed fill ((percentEncodeByte c.toNat.toUInt8).map .char ++ z)
  | slot {key : κ} {z : Slotted κ} (hkey : fill key = []) (hz : Trimmed fill z) : Trimmed fill (.slot key :: z)

theorem encode_blank {c : Char} (hc : isBlank c = true) (set : Char → Bool) :
    encode set [c] = [c] ∨ encode set [c] = percentEncodeByte c.toNat.toUInt8 := by
  have hnat : c.toNat ≤ 0x20 := by simpa [isBlank] using hc
  rw [encode, List.flatMap_singleton]
  split
  · rw [Utf8.encodeChar_ascii (by omega), List.flatMap_singleton]
    exact .inr rfl
  · exact .inl rfl

theorem trimmed_blanks (set : Char → Bool) (hz : Blanks fill z) : Trimmed fill (encodeSlotted set z) := by
  induction z with
  | nil => exact .nil
  | cons piece z ih =>
    have hrest := ih ⟨fun c hc => hz.1 c (List.mem_cons_of_mem _ hc),
      fun key hkey => hz.2 key (List.mem_cons_of_mem _ hkey)⟩
    rw [encodeSlotted, List.flatMap_cons]
    cases piece with
    | slot key => exact .slot (hz.2 key List.mem_cons_self) hrest
    | char c =>
      have hc := hz.1 c List.mem_cons_self
      rw [Piece.flatMap]
      rcases encode_blank hc set with heq | heq
      · rw [heq]
        exact .blank hc hrest
      · rw [heq]
        exact .escape hc hrest

end Trimmed

section Escapes

/-- Whether a text starts with an escape. -/
def startsEscape : List Char → Bool
  | '%' :: high :: low :: _ => (hexValue high).isSome && (hexValue low).isSome
  | _ => false

/-- Whether two characters that are no place come next. -/
def ownNext : Slotted κ → Bool
  | .char _ :: .char _ :: _ => true
  | _ => false

/-- No escape that an outline starts takes in what fills a place, or what follows one. -/
def apart (fill : κ → List Char) : Slotted κ → Bool
  | [] => true
  | .slot _ :: x => apart fill x
  | .char c :: x => (!startsEscape (c :: spell fill x) || ownNext x) && apart fill x

theorem startsEscape_ne {c : Char} (hc : c ≠ '%') (s : List Char) : startsEscape (c :: s) = false := by
  unfold startsEscape
  split
  · rename_i heq
    exact absurd (List.cons.inj heq).1 hc
  · rfl

theorem hexValue_ne {c : Char} {n : Nat} (h : hexValue c = some n) : c ≠ '%' := by
  intro heq
  subst heq
  cases h

theorem startsEscape_cases (h : startsEscape s = true) :
    ∃ high low rest m n, s = '%' :: high :: low :: rest ∧ hexValue high = some m ∧ hexValue low = some n := by
  unfold startsEscape at h
  split at h
  · rename_i high low rest
    rw [Bool.and_eq_true] at h
    obtain ⟨m, hm⟩ := Option.isSome_iff_exists.mp h.1
    obtain ⟨n, hn⟩ := Option.isSome_iff_exists.mp h.2
    exact ⟨high, low, rest, m, n, rfl, hm, hn⟩
  · cases h

/-- An escape that ends behind a text is one of the text if no digit follows it. -/
theorem startsEscape_append {c : Char} {a b : List Char} (h : startsEscape (c :: (a ++ b)) = true)
    (hb : ∀ d ∈ b.head?, hexValue d = none) : startsEscape (c :: a) = true := by
  obtain ⟨high, low, rest, m, n, heq, hm, hn⟩ := startsEscape_cases h
  obtain ⟨rfl, htext⟩ := List.cons.inj heq
  match a with
  | [] =>
    rw [List.nil_append] at htext
    have hnone := hb high (by rw [htext]; rfl)
    rw [hm] at hnone
    cases hnone
  | [first] =>
    obtain ⟨-, hlow⟩ := List.cons.inj htext
    have hnone := hb low (by rw [← List.nil_append b]; exact congrArg List.head? hlow)
    rw [hn] at hnone
    cases hnone
  | first :: second :: a => exact h

/-- The parts of an outline are as far apart from its places as the outline is. -/
theorem apart_append (h : apart fill (x ++ y) = true) : apart fill x = true ∧ apart fill y = true := by
  induction x with
  | nil => exact ⟨rfl, h⟩
  | cons piece x ih =>
    cases piece with
    | slot key => exact ih h
    | char c =>
      simp only [List.cons_append, apart, Bool.and_eq_true, Bool.or_eq_true, Bool.not_eq_true'] at h ⊢
      obtain ⟨hc, hrest⟩ := h
      obtain ⟨hx, hy⟩ := ih hrest
      refine ⟨⟨?_, hx⟩, hy⟩
      cases hstarts : startsEscape (c :: spell fill x) with
      | false => exact .inl rfl
      | true =>
        obtain ⟨high, low, rest, m, n, heq, hm, hn⟩ := startsEscape_cases hstarts
        obtain ⟨rfl, htext⟩ := List.cons.inj heq
        have hown : ownNext (x ++ y) = true := by
          rw [spell_append, htext] at hc
          simpa [startsEscape, hm, hn] using hc
        right
        match x with
        | [] => cases htext
        | .slot _ :: _ => cases hown
        | [.char _] => cases htext
        | .char _ :: .slot _ :: _ => cases hown
        | .char _ :: .char _ :: _ => rfl

end Escapes

section Decoding

theorem percentDecode_plain {c : Char} (h : startsEscape (c :: s) = false) :
    percentDecode (c :: s) = String.utf8EncodeChar c ++ percentDecode s := by
  by_cases hc : c = '%'
  · subst hc
    match s with
    | [] => simp [percentDecode]
    | [_] => simp [percentDecode]
    | high :: low :: s =>
      simp only [startsEscape, Bool.and_eq_false_iff] at h
      rw [percentDecode]
      cases hhigh : hexValue high with
      | none => rfl
      | some _ =>
        cases hlow : hexValue low with
        | none => rfl
        | some _ => simp [hhigh, hlow] at h
  · rw [percentDecode]
    intro high low rest heq
    exact absurd heq hc

theorem percentDecode_escape {high low : Char} {m n : Nat} (hm : hexValue high = some m)
    (hn : hexValue low = some n) (s : List Char) :
    percentDecode ('%' :: high :: low :: s) = (m * 16 + n).toUInt8 :: percentDecode s := by
  simp [percentDecode, hm, hn]

theorem hexValue_hexDigit {n : Nat} (h : n < 16) : hexValue (hexDigit n) = some n := by
  have hall : ∀ n < 16, hexValue (hexDigit n) = some n := by decide +kernel
  exact hall n h

/-- The code of a byte is decoded to it. -/
theorem percentDecode_byte (b : UInt8) (rest : List Char) :
    percentDecode (percentEncodeByte b ++ rest) = b :: percentDecode rest := by
  have hb : b.toNat < 256 := b.toNat_lt
  have hhigh := hexValue_hexDigit (show b.toNat / 16 < 16 by omega)
  have hlow := hexValue_hexDigit (show b.toNat % 16 < 16 by omega)
  refine (percentDecode_escape hhigh hlow rest).trans ?_
  rw [show b.toNat / 16 * 16 + b.toNat % 16 = b.toNat by omega]
  simp

/-- The bytes an outline stands for: its own text decoded, and in each place a value. -/
def decodeSlotted (value : κ → List UInt8) : Slotted κ → List UInt8
  | .slot key :: x => value key ++ decodeSlotted value x
  | .char '%' :: .char high :: .char low :: x =>
    match hexValue high, hexValue low with
    | some m, some n => (m * 16 + n).toUInt8 :: decodeSlotted value x
    | _, _ => String.utf8EncodeChar '%' ++ decodeSlotted value (.char high :: .char low :: x)
  | .char c :: x => String.utf8EncodeChar c ++ decodeSlotted value x
  | [] => []

/-- What fills a place is decoded to its value, whatever follows it. -/
def Stands (fill : κ → List Char) (value : κ → List UInt8) : Prop :=
  ∀ key rest, percentDecode (fill key ++ rest) = value key ++ percentDecode rest

theorem apart_own (c high low : Char) (x : Slotted κ) :
    apart fill (.char c :: .char high :: .char low :: x) = apart fill (.char high :: .char low :: x) := by
  simp [apart, ownNext]

theorem apart_plain {c : Char} (h : startsEscape (c :: spell fill x) = false) :
    apart fill (.char c :: x) = apart fill x := by
  simp [apart, h]

theorem apart_escape {high low : Char} {m n : Nat} (hm : hexValue high = some m) (hn : hexValue low = some n)
    (x : Slotted κ) : apart fill (.char '%' :: .char high :: .char low :: x) = apart fill x := by
  rw [apart_own, apart_plain (startsEscape_ne (hexValue_ne hm) _),
    apart_plain (startsEscape_ne (hexValue_ne hn) _)]

/-- What is decoded is what is meant if `kept`, and shorter if not. -/
structure Decoded (kept : Bool) (got meant : List UInt8) : Prop where
  same : kept = true → got = meant
  shorter : kept = false → got.length < meant.length

theorem Decoded.prepend {kept : Bool} {got meant : List UInt8} (l : List UInt8) (h : Decoded kept got meant) :
    Decoded kept (l ++ got) (l ++ meant) where
  same hkept := by rw [h.same hkept]
  shorter hkept := by
    have hlt := h.shorter hkept
    simp only [List.length_append]
    omega

theorem Decoded.length_le {kept : Bool} {got meant : List UInt8} (h : Decoded kept got meant) :
    got.length ≤ meant.length := by
  cases hkept : kept with
  | true => rw [h.same hkept]
  | false => exact (h.shorter hkept).le

/-- An outline is decoded as it says exactly if its escapes are its own; an escape that takes
in more makes what is decoded shorter. -/
theorem decode_slotted (hstands : Stands fill value) (x : Slotted κ) :
    Decoded (apart fill x) (percentDecode (spell fill x)) (decodeSlotted value x) := by
  fun_induction decodeSlotted value x with
  | case1 key x ih =>
    rw [spell_slot, hstands, apart]
    exact ih.prepend (value key)
  | case2 high low x m n hlow hhigh ih =>
    rw [spell_char, spell_char, spell_char, percentDecode_escape hhigh hlow, apart_escape hhigh hlow]
    exact ih.prepend [_]
  | case3 high low x hx ih =>
    have hplain : startsEscape ('%' :: spell fill (.char high :: .char low :: x)) = false := by
      by_contra hstarts
      obtain ⟨_, _, _, m, n, heq, hm, hn⟩ := startsEscape_cases (Bool.eq_true_of_not_eq_false hstarts)
      cases heq
      exact hx m n hm hn
    rw [spell_char, percentDecode_plain hplain, apart_plain hplain]
    exact ih.prepend _
  | case4 c x hx ih =>
    cases hstarts : startsEscape (c :: spell fill x) with
    | false =>
      rw [spell_char, percentDecode_plain hstarts, apart_plain hstarts]
      exact ih.prepend _
    | true =>
      obtain ⟨high, low, rest, m, n, heq, hm, hn⟩ := startsEscape_cases hstarts
      obtain ⟨rfl, htext⟩ := List.cons.inj heq
      -- the digits are not the outline's own, or the case before would have taken them
      have hown : ownNext x = false := by
        unfold ownNext
        split
        · exact absurd rfl (hx _ _ _ rfl)
        · rfl
      have hapart : apart fill (.char '%' :: x) = false := by
        simp [apart, hstarts, hown]
      rw [hapart]
      refine ⟨nofun, fun _ => ?_⟩
      have hle := ih.length_le
      have hhigh := startsEscape_ne (hexValue_ne hm) (low :: rest)
      have hlow := startsEscape_ne (hexValue_ne hn) rest
      rw [htext, percentDecode_plain hhigh, percentDecode_plain hlow] at hle
      rw [spell_char, htext, percentDecode_escape hm hn]
      have hpos (c : Char) : 0 < (String.utf8EncodeChar c).length := by
        rw [String.length_utf8EncodeChar]
        exact c.utf8Size_pos
      have hhighLength := hpos high
      have hlowLength := hpos low
      have hmark := hpos '%'
      simp only [List.length_append, List.length_cons] at hle ⊢
      omega
  | case5 => exact ⟨fun _ => rfl, nofun⟩

theorem decode_eq_iff (hstands : Stands fill value) (x : Slotted κ) :
    percentDecode (spell fill x) = decodeSlotted value x ↔ apart fill x = true := by
  have h := decode_slotted hstands x
  constructor
  · intro heq
    by_contra hnot
    have hlt := h.shorter (Bool.eq_false_of_not_eq_true hnot)
    rw [heq] at hlt
    exact lt_irrefl _ hlt
  · exact h.same

end Decoding

section Cut

theorem blank_hexValue {c : Char} (hc : isBlank c = true) : hexValue c = none := by
  have hall : ∀ n ≤ 0x20, hexValue (Char.ofNat n) = none := by
    decide
  have hnone := hall c.toNat (by simpa [isBlank] using hc)
  rwa [Char.ofNat_toNat] at hnone

/-- What is cut off starts with no digit of an escape. -/
theorem trimmed_head (hz : Trimmed fill z) : ∀ d ∈ (spell fill z).head?, hexValue d = none := by
  induction hz with
  | nil => nofun
  | blank hc hz ih =>
    intro d hd
    cases hd
    exact blank_hexValue hc
  | escape hc hz ih =>
    intro d hd
    cases hd
    rfl
  | slot hkey hz ih => rwa [spell_slot, hkey]

/-- The escapes of what is cut off are its own. -/
theorem trimmed_apart (hz : Trimmed fill z) : apart fill z = true := by
  induction hz with
  | nil => rfl
  | @blank c z hc hz ih =>
    have hne : c ≠ '%' := blank_ne hc rfl
    rw [apart_plain (startsEscape_ne hne _)]
    exact ih
  | @escape c z hc hz ih =>
    have hbyte : c.toNat.toUInt8.toNat < 256 := c.toNat.toUInt8.toNat_lt
    have hhigh := hexValue_hexDigit (show c.toNat.toUInt8.toNat / 16 < 16 by omega)
    have hlow := hexValue_hexDigit (show c.toNat.toUInt8.toNat % 16 < 16 by omega)
    exact (apart_escape hhigh hlow z).trans ih
  | slot hkey hz ih => exact ih

/-- What is cut off has nothing to do with the escapes before it. -/
theorem apart_trimmed (hz : Trimmed fill z) (h : apart fill y = true) : apart fill (y ++ z) = true := by
  induction y with
  | nil => exact trimmed_apart hz
  | cons piece y ih =>
    cases piece with
    | slot key => exact ih h
    | char c =>
      simp only [List.cons_append, apart, Bool.and_eq_true, Bool.or_eq_true, Bool.not_eq_true'] at h ⊢
      refine ⟨?_, ih h.2⟩
      rw [spell_append]
      cases hstarts : startsEscape (c :: (spell fill y ++ spell fill z)) with
      | false => exact .inl rfl
      | true =>
        have hown := startsEscape_append hstarts (trimmed_head hz)
        rw [hown] at h
        right
        match y with
        | .char _ :: .char _ :: _ => rfl
        | [] | .slot _ :: _ | [.char _] | .char _ :: .slot _ :: _ => simp [ownNext] at h

end Cut

section Parts

/-- A part of a URL that is what its outline says, and is decoded to the values in it. -/
def Decodes (value : κ → List UInt8) (fill : κ → List Char) (x : Slotted κ) (s : List Char) : Prop :=
  ∃ y z, x = y ++ z ∧ s = spell fill y ∧ Trimmed fill z ∧ (z ≠ [] → ∃ key, .slot key ∈ z) ∧
    percentDecode s = decodeSlotted value y

theorem apart_splitOnP (p : Piece Char κ → Bool) (h : apart fill x = true) :
    ∀ y ∈ x.splitOnP p, apart fill y = true := by
  induction hn : x.length using Nat.strong_induction_on generalizing x with
  | _ n ih =>
    obtain ⟨htake, hdrop⟩ := apart_append (x := x.takeWhile (!p ·)) (y := x.dropWhile (!p ·))
      (by rwa [List.takeWhile_append_dropWhile])
    rw [splitOnP_scan p x]
    refine List.forall_mem_cons.mpr ⟨htake, ?_⟩
    cases hrest : x.dropWhile (!p ·) with
    | nil => nofun
    | cons piece rest =>
      have hlength := (List.dropWhile_suffix (l := x) (!p ·)).length_le
      rw [hrest] at hdrop hlength
      rw [List.length_cons] at hlength
      exact ih rest.length (by omega) (apart_append (x := [piece]) hdrop).2 rfl

/-- A part shows the values in it if its escapes are its own. -/
theorem decodes_iff (hstands : Stands fill value) :
    Decodes value fill x s ↔ Reads (Trimmed fill) fill x s ∧ apart fill x = true := by
  constructor
  · rintro ⟨y, z, rfl, rfl, hz, hslot, hdecode⟩
    exact ⟨⟨y, z, rfl, rfl, hz, hslot⟩, apart_trimmed hz ((decode_eq_iff hstands y).mp hdecode)⟩
  · rintro ⟨⟨y, z, rfl, rfl, hz, hslot⟩, hapart⟩
    exact ⟨y, z, rfl, rfl, hz, hslot, (decode_eq_iff hstands y).mpr (apart_append hapart).1⟩

end Parts

end Aviso.Lib.Url
