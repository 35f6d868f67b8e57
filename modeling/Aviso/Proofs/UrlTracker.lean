import Aviso.Template.Engine
import Aviso.Lib.UrlPrefix

namespace Aviso.Template

open Lib.Url

namespace UrlTracker

/-- Bytes that are none of ASCII. -/
def pass (t : UrlTracker) : UrlTracker :=
  if t.inPath then t
  else if t.seenSchemeSeparator then { t with inPath := false }
  else { t with separatorMatched := 0, seenSchemeSeparator := false }

theorem pass_pass (t : UrlTracker) : t.pass.pass = t.pass := by
  obtain ⟨matched, seen, inPath⟩ := t
  cases inPath <;> cases seen <;> rfl

theorem step_high (t : UrlTracker) {b : UInt8} (hb : 0x7F < b.toNat) : t.step b = t.pass := by
  have hne (c : Char) (hc : c.toNat ≤ 0x7F) : b ≠ ascii c := by
    rintro rfl
    simp only [ascii, Nat.toUInt8, UInt8.toNat_ofNat'] at hb
    omega
  simp [step, pass, hne ':' (by decide), hne '/' (by decide), hne '?' (by decide), hne '#' (by decide)]

theorem foldl_high (t : UrlTracker) {bs : List UInt8} (hne : bs ≠ []) (hbs : ∀ b ∈ bs, 0x7F < b.toNat) :
    bs.foldl step t = t.pass := by
  induction bs generalizing t with
  | nil => exact absurd rfl hne
  | cons b bs ih =>
    rw [List.foldl_cons, step_high t (hbs b (by simp))]
    cases bs with
    | nil => rfl
    | cons b' bs => rw [ih t.pass (by simp) fun b hb => hbs b (by simp [hb]), pass_pass]

theorem ascii_inj {c d : Char} (hc : c.toNat ≤ 0x7F) (hd : d.toNat ≤ 0x7F) :
    ascii c = ascii d ↔ c = d := by
  constructor
  · intro h
    have hnat := congrArg UInt8.toNat h
    simp only [ascii, Nat.toUInt8, UInt8.toNat_ofNat'] at hnat
    exact Char.toNat_inj.mp (by omega)
  · rintro rfl
    rfl

end UrlTracker

/-- A text with the separator of a scheme in it. -/
def HasScheme (text : Text) : Prop := ∃ lead rest, text = lead ++ ':' :: '/' :: '/' :: rest

theorem HasScheme.snoc (h : HasScheme text) (c : Char) : HasScheme (text ++ [c]) := by
  obtain ⟨lead, rest, rfl⟩ := h
  exact ⟨lead, rest ++ [c], by simp⟩

theorem HasScheme.mark (h : HasScheme text) (hc : endsAuthority false c = true) : HasPath (text ++ [c]) := by
  obtain ⟨lead, rest, rfl⟩ := h
  exact ⟨lead, rest, c, [], by simp, hc⟩

theorem hasPath_snoc (h : HasPath text) (c : Char) : HasPath (text ++ [c]) := by
  obtain ⟨lead, between, mark, rest, rfl, hmark⟩ := h
  exact ⟨lead, between, mark, rest ++ [c], by simp, hmark⟩

namespace UrlTracker

/-- What the tracker knows of the text it read. -/
structure Reads (text : Text) (t : UrlTracker) : Prop where
  colon : t.seenSchemeSeparator = false → t.separatorMatched = 1 → ∃ lead, text = lead ++ [':']
  slash : t.seenSchemeSeparator = false → t.separatorMatched = 2 → ∃ lead, text = lead ++ [':', '/']
  seen : t.seenSchemeSeparator = true → HasScheme text
  inPath : t.inPath = true → t.seenSchemeSeparator = true ∧ HasPath text

theorem Reads.new : Reads [] .new where
  colon := nofun
  slash := nofun
  seen := nofun
  inPath := nofun

theorem Reads.pass (h : Reads text t) (c : Char) : Reads (text ++ [c]) t.pass := by
  unfold UrlTracker.pass
  split
  · rename_i hin
    obtain ⟨hseen, hpath⟩ := h.inPath hin
    refine ⟨?_, ?_, fun _ => (h.seen hseen).snoc c, fun _ => ⟨hseen, hasPath_snoc hpath c⟩⟩
    · rw [hseen]
      exact nofun
    · rw [hseen]
      exact nofun
  · split
    · rename_i hseen
      refine ⟨?_, ?_, fun _ => (h.seen hseen).snoc c, nofun⟩
      · rw [hseen]
        exact nofun
      · rw [hseen]
        exact nofun
    · rename_i hin _
      exact ⟨nofun, nofun, nofun, fun hpath => absurd hpath hin⟩

/-- What the tracker knows after one more character of ASCII. -/
theorem Reads.step (h : Reads text t) (c : Char) (hc : c.toNat ≤ 0x7F) :
    Reads (text ++ [c]) (t.step (ascii c)) := by
  unfold UrlTracker.step
  simp only [ascii_inj hc (show Char.toNat ':' ≤ 0x7F by decide), ascii_inj hc (show Char.toNat '/' ≤ 0x7F by decide),
    ascii_inj hc (show Char.toNat '?' ≤ 0x7F by decide), ascii_inj hc (show Char.toNat '#' ≤ 0x7F by decide)]
  split
  · rename_i hin
    obtain ⟨hseen, hpath⟩ := h.inPath hin
    refine ⟨?_, ?_, fun _ => (h.seen hseen).snoc c, fun _ => ⟨hseen, hasPath_snoc hpath c⟩⟩
    · rw [hseen]
      rintro ⟨⟩
    · rw [hseen]
      rintro ⟨⟩
  · split
    · rename_i hseen
      refine ⟨?_, ?_, fun _ => (h.seen hseen).snoc c, ?_⟩
      · rw [hseen]
        rintro ⟨⟩
      · rw [hseen]
        rintro ⟨⟩
      · intro hends
        exact ⟨hseen, (h.seen hseen).mark (by simpa [endsAuthority] using hends)⟩
    · rename_i hin hseen
      have hseen : t.seenSchemeSeparator = false := Bool.eq_false_of_not_eq_true hseen
      split
      · rename_i hcolon
        subst hcolon
        exact ⟨fun _ _ => ⟨text, rfl⟩, (by simp), (by simp), fun hpath => absurd hpath hin⟩
      · split
        · rename_i hmatched
          simp only [Bool.and_eq_true, Bool.or_eq_true, decide_eq_true_eq] at hmatched
          obtain ⟨hone | htwo, rfl⟩ := hmatched
          · obtain ⟨lead, rfl⟩ := h.colon hseen hone
            refine ⟨?_, ?_, ?_, fun hpath => absurd hpath hin⟩
            · simp [hone]
            · intro _ _
              exact ⟨lead, by simp⟩
            · simp [hone]
          · obtain ⟨lead, rfl⟩ := h.slash hseen htwo
            refine ⟨?_, ?_, fun _ => ⟨lead, [], by simp⟩, fun hpath => absurd hpath hin⟩
            · simp [htwo]
            · simp [htwo]
        · exact ⟨(by simp), (by simp), (by simp), fun hpath => absurd hpath hin⟩

/-- What the tracker knows after one more character. -/
theorem Reads.snoc (h : Reads text t) (c : Char) :
    Reads (text ++ [c]) ((String.utf8EncodeChar c).foldl UrlTracker.step t) := by
  rcases Nat.lt_or_ge 0x7F c.toNat with hhigh | hlow
  · rw [foldl_high t String.utf8EncodeChar_ne_nil fun b hb => Lib.Utf8.encodeChar_high hhigh hb]
    exact h.pass c
  · rw [Lib.Utf8.encodeChar_ascii hlow]
    exact h.step c hlow

theorem advance_append (t : UrlTracker) (text more : Text) :
    t.advance (text ++ more) = (t.advance text).advance more := by
  simp [advance, bytes, List.foldl_append]

theorem reads (text : Text) : Reads text (new.advance text) := by
  induction text using List.reverseRecOn with
  | nil => exact .new
  | append_singleton text c ih =>
    have hsnoc := ih.snoc c
    rw [advance_append]
    simpa [advance, bytes] using hsnoc

/-- The tracker finds a path only after the separator of a scheme and a character that
ends an authority. -/
theorem hasPath {text : Text} (h : (new.advance text).inPath = true) : HasPath text :=
  ((reads text).inPath h).2

end UrlTracker

end Aviso.Template
