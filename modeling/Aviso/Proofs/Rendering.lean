import Aviso.Proofs.UrlTracker
import Aviso.Lib.UrlDecoding

namespace Aviso.Template

open Watch (Notification)
open Lib (spell)
open Lib.Url (HasPath Inert Slotted Stands isInert leadText)

section Encoding

theorem hex_inert (n : Nat) : isInert (hex n) = true := by
  match n with
  | 0 | 1 | 2 | 3 | 4 | 5 | 6 | 7 | 8 | 9 | 10 | 11 | 12 | 13 | 14 | 15 => rfl
  | n + 16 => rfl

theorem encodeByte_inert (b : UInt8) : ∀ c ∈ encodeByte b, isInert c = true := by
  intro c hc
  unfold encodeByte at hc
  split at hc
  · rename_i hkept
    rw [List.mem_singleton] at hc
    subst hc
    simp only [isKept, Bool.or_eq_true, decide_eq_true_eq] at hkept
    simp only [isInert, Bool.or_eq_true, decide_eq_true_eq]
    exact .inl hkept
  · simp only [List.mem_cons, List.not_mem_nil, or_false] at hc
    rcases hc with rfl | rfl | rfl
    · rfl
    · exact hex_inert _
    · exact hex_inert _

theorem percentEncode_inert (value : Text) : ∀ c ∈ percentEncode value, isInert c = true := by
  intro c hc
  obtain ⟨b, -, hb⟩ := List.mem_flatMap.mp hc
  exact encodeByte_inert b c hb

theorem hexValue_hex {n : Nat} (h : n < 16) : Lib.Url.hexValue (hex n) = some n := by
  have hall : ∀ n < 16, Lib.Url.hexValue (hex n) = some n := by
    decide +kernel
  exact hall n h

/-- A byte that is kept is the ASCII character it is written as. -/
theorem isKept_ascii {b : UInt8} (h : isKept b = true) :
    b.toNat ≤ 0x7F ∧ Char.ofNat b.toNat ≠ '%' := by
  have hall : ∀ n < 256, isKept (UInt8.ofNat n) = true → n ≤ 0x7F ∧ Char.ofNat n ≠ '%' := by
    decide +kernel
  have hb := hall b.toNat b.toNat_lt
  rw [UInt8.ofNat_toNat] at hb
  exact hb h

theorem percentDecode_encodeByte (b : UInt8) (rest : Text) :
    Lib.Url.percentDecode (encodeByte b ++ rest) = b :: Lib.Url.percentDecode rest := by
  unfold encodeByte
  split
  · rename_i hkept
    obtain ⟨hascii, hpercent⟩ := isKept_ascii hkept
    rw [List.singleton_append, Lib.Url.percentDecode_plain (Lib.Url.startsEscape_ne hpercent rest),
      Lib.Utf8.encodeChar_ascii (by rw [Lib.Utf8.toNat_ofNat_ascii hascii]; exact hascii),
      Lib.Utf8.toNat_ofNat_ascii hascii]
    simp
  · have hb : b.toNat < 256 := b.toNat_lt
    have hhigh := hexValue_hex (show b.toNat / 16 < 16 by omega)
    have hlow := hexValue_hex (show b.toNat % 16 < 16 by omega)
    refine (Lib.Url.percentDecode_escape hhigh hlow rest).trans ?_
    rw [show b.toNat / 16 * 16 + b.toNat % 16 = b.toNat by omega]
    simp

/-- What is written for a value is read back as its bytes, whatever follows it. -/
theorem percentDecode_percentEncode (value rest : Text) :
    Lib.Url.percentDecode (percentEncode value ++ rest) = bytes value ++ Lib.Url.percentDecode rest := by
  have hall (bs : List UInt8) :
      Lib.Url.percentDecode (bs.flatMap encodeByte ++ rest) = bs ++ Lib.Url.percentDecode rest := by
    induction bs with
    | nil => rfl
    | cons b bs ih => rw [List.flatMap_cons, List.append_assoc, percentDecode_encodeByte, ih, List.cons_append]
  exact hall (bytes value)

end Encoding

section Rendering

variable {toString : Json → Text} {env : Text → Except TemplateErrorKind Text} {raw : Text}
  {segments : List Segment} {r r₁ : Rendering} {n : Notification}

/-- A segment list with a notification placeholder in it. -/
def HasSlot (segments : List Segment) : Prop := ∃ path, .notificationPath path ∈ segments

/-- The operator's text before the first notification placeholder. -/
def leadOf (env : Text → Except TemplateErrorKind Text) : List Segment → Text
  | [] => []
  | .literal s :: segments => s ++ leadOf env segments
  | .envVar name :: segments => (env name).toOption.getD [] ++ leadOf env segments
  | .notificationPath _ :: _ => []

/-- The text of a template under an environment, with its notification placeholders as
places. -/
def slotted (env : Text → Except TemplateErrorKind Text) : List Segment → Slotted (List Text)
  | [] => []
  | .literal s :: segments => s.map .char ++ slotted env segments
  | .envVar name :: segments => ((env name).toOption.getD []).map .char ++ slotted env segments
  | .notificationPath path :: segments => .slot path :: slotted env segments

/-- The value of a notification at a path, as text. -/
def valueAt (toString : Json → Text) (n : Notification) (path : List Text) : Text :=
  ((walkPath (toValue n) path).map (renderValue toString)).getD []

/-- What is written for a placeholder of a URL. -/
def fillOf (toString : Json → Text) (n : Notification) (path : List Text) : Text :=
  percentEncode (valueAt toString n path)

theorem fillOf_inert (toString : Json → Text) (n : Notification) : Inert (fillOf toString n) :=
  fun _ => percentEncode_inert _

/-- The bytes of the value of a notification at a path. -/
def bytesAt (toString : Json → Text) (n : Notification) (path : List Text) : List UInt8 :=
  bytes (valueAt toString n path)

theorem fillOf_stands (toString : Json → Text) (n : Notification) :
    Stands (fillOf toString n) (bytesAt toString n) :=
  fun _ => percentDecode_percentEncode _

theorem slot_mem {path : List Text} : .slot path ∈ slotted env segments ↔ .notificationPath path ∈ segments := by
  induction segments with
  | nil => simp [slotted]
  | cons segment segments ih => cases segment <;> simp [slotted, ih]

theorem leadText_slotted (env : Text → Except TemplateErrorKind Text) (segments : List Segment) :
    leadText (slotted env segments) = leadOf env segments := by
  have hchars (s : Text) (text : Slotted (List Text)) :
      leadText (s.map .char ++ text) = s ++ leadText text := by
    induction s with
    | nil => rfl
    | cons c s ih => rw [List.map_cons, List.cons_append, leadText, ih, List.cons_append]
  induction segments with
  | nil => rfl
  | cons segment segments ih =>
    cases segment with
    | literal s => rw [slotted, hchars, ih, leadOf]
    | envVar name => rw [slotted, hchars, ih, leadOf]
    | notificationPath path => rfl

theorem foldlM_cons_ok {f : Rendering → Segment → Except TemplateError Rendering} {segment : Segment}
    (h : (segment :: segments).foldlM f r = .ok r₁) :
    ∃ mid, f r segment = .ok mid ∧ segments.foldlM f mid = .ok r₁ := by
  rw [List.foldlM_cons] at h
  cases hmid : f r segment with
  | error e =>
    rw [hmid] at h
    cases h
  | ok mid =>
    rw [hmid] at h
    exact ⟨mid, rfl, h⟩

/-- The operator's text is written as it is, and is all that is known of a variable. -/
theorem renderSegment_env {name : Text}
    (h : renderSegment toString (toValue n) env .url raw r (.envVar name) = .ok r₁) :
    r₁ = r.verbatim .url ((env name).toOption.getD []) := by
  unfold renderSegment at h
  dsimp only at h
  cases henv : env name with
  | error kind =>
    rw [henv] at h
    cases h
  | ok text =>
    rw [henv] at h
    cases h
    rfl

/-- A value is written only once the tracker has found the path. -/
theorem renderSegment_value {path : List Text}
    (h : renderSegment toString (toValue n) env .url raw r (.notificationPath path) = .ok r₁) :
    ∃ v, walkPath (toValue n) path = some v ∧ r.url.inPath = true ∧
      r₁.out = r.out ++ percentEncode (renderValue toString v) := by
  unfold renderSegment at h
  dsimp only at h
  cases hwalk : walkPath (toValue n) path with
  | none =>
    rw [hwalk] at h
    cases h
  | some v =>
    rw [hwalk] at h
    simp only [Rendering.value] at h
    split at h
    · cases h
    · rename_i hpath
      cases h
      exact ⟨v, rfl, by simpa using hpath, rfl⟩

/-- A rendering is the text of the template with its places filled. -/
theorem render_spell (h : segments.foldlM (renderSegment toString (toValue n) env .url raw) r = .ok r₁) :
    r₁.out = r.out ++ spell (fillOf toString n) (slotted env segments) := by
  induction segments generalizing r with
  | nil =>
    cases h
    simp [slotted]
  | cons segment segments ih =>
    obtain ⟨mid, hmid, hrest⟩ := foldlM_cons_ok h
    rw [ih hrest]
    cases segment with
    | literal text =>
      cases hmid
      simp [slotted, Rendering.verbatim]
    | envVar name =>
      cases renderSegment_env hmid
      simp [slotted, Rendering.verbatim]
    | notificationPath path =>
      obtain ⟨v, hv, -, hout⟩ := renderSegment_value hmid
      rw [hout, slotted, Lib.spell_slot, fillOf, valueAt, hv, List.append_assoc]
      rfl

/-- The tracker has found the path in the text before the first value. -/
theorem render_lead (hurl : r.url = UrlTracker.new.advance r.out) (hslot : HasSlot segments)
    (h : segments.foldlM (renderSegment toString (toValue n) env .url raw) r = .ok r₁) :
    HasPath (r.out ++ leadOf env segments) := by
  induction segments generalizing r with
  | nil =>
    obtain ⟨path, hmem⟩ := hslot
    cases hmem
  | cons segment segments ih =>
    obtain ⟨mid, hmid, hrest⟩ := foldlM_cons_ok h
    have hnext (text : Text) (hmid' : mid = r.verbatim .url text) (hslot : HasSlot segments) :
        HasPath (r.out ++ (text ++ leadOf env segments)) := by
      subst hmid'
      rw [← List.append_assoc]
      exact ih (r := r.verbatim .url text)
        (by simp [Rendering.verbatim, hurl, UrlTracker.advance_append]) hslot hrest
    cases segment with
    | literal text =>
      cases hmid
      exact hnext text rfl (by simpa [HasSlot] using hslot)
    | envVar name => exact hnext _ (renderSegment_env hmid) (by simpa [HasSlot] using hslot)
    | notificationPath path =>
      obtain ⟨v, -, hpath, -⟩ := renderSegment_value hmid
      rw [leadOf, List.append_nil]
      exact UrlTracker.hasPath (hurl ▸ hpath)

end Rendering

end Aviso.Template
