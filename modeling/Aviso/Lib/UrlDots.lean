import Aviso.Lib.UrlFolding
import Aviso.Lib.Utf8

namespace Aviso.Lib.Url

open List (Forall₂)

variable {κ : Type} {fill : κ → List Char} {value : κ → List UInt8} {x : Slotted κ} {s : List Char} {kind : Kind}
  {path ss : List (List Char)}

section Lengths

theorem shorten_length (kind : Kind) (path : List (List Char)) : (shorten kind path).length ≤ path.length := by
  unfold shorten
  split
  · split
    · exact le_rfl
    · simp
  · simp

theorem addSegment_length (kind : Kind) (path : List (List Char)) (s : List Char) (last : Bool) :
    (addSegment kind path s last).length ≤ path.length + 1 ∧
      (dotsOf s ≠ none → (addSegment kind path s false).length ≤ path.length) := by
  have hshorten := shorten_length kind path
  unfold addSegment
  cases dotsOf s with
  | none => simp
  | some dots =>
    cases dots <;> cases last <;> simp <;> omega

theorem fold_length (kind : Kind) (path ss : List (List Char)) :
    (fold kind path ss).length ≤ path.length + ss.length := by
  induction ss generalizing path with
  | nil => simp [fold]
  | cons s rest ih =>
    cases rest with
    | nil => exact (addSegment_length kind path s true).1
    | cons next rest =>
      have hadd := (addSegment_length kind path s false).1
      have hrest := ih (addSegment kind path s false)
      simp only [fold, List.length_cons] at hrest ⊢
      omega

/-- A path that keeps its length has no dots before its last segment. -/
theorem fold_full (h : (fold kind path ss).length = path.length + ss.length) :
    ∀ s ∈ ss.dropLast, dotsOf s = none := by
  induction ss generalizing path with
  | nil => simp
  | cons s rest ih =>
    cases rest with
    | nil => simp
    | cons next rest =>
      have hadd := addSegment_length kind path s false
      have hrest := fold_length kind (addSegment kind path s false) (next :: rest)
      simp only [fold, List.length_cons] at h hrest
      have hs : dotsOf s = none := by
        by_contra hdots
        have hle := hadd.2 hdots
        omega
      have hone : (addSegment kind path s false).length = path.length + 1 := by
        simp [addSegment, hs]
      intro t ht
      rw [List.dropLast_cons_cons] at ht
      rcases List.mem_cons.mp ht with rfl | ht
      · exact hs
      · have hfull : (fold kind (addSegment kind path s false) (next :: rest)).length =
            (addSegment kind path s false).length + (next :: rest).length := by
          simp only [List.length_cons]
          omega
        exact ih hfull t ht

end Lengths

section Folding

theorem normalize_eq (hkind : kind ≠ .file) (path : List (List Char)) (s : List Char) :
    normalize kind path s = s := by
  simp [normalize, hkind]

/-- Without dots among its first segments a path is folded at its last one only. -/
theorem fold_concat (hkind : kind ≠ .file) {init : List (List Char)} (hinit : ∀ s ∈ init, dotsOf s = none)
    (path : List (List Char)) (last : List Char) :
    fold kind path (init ++ [last]) = addSegment kind (path ++ init) last true := by
  induction init generalizing path with
  | nil => simp [fold]
  | cons s init ih =>
    obtain ⟨hs, hinit⟩ := List.forall_mem_cons.mp hinit
    have hadd : addSegment kind path s false = path ++ [s] := by
      simp [addSegment, hs, normalize_eq hkind]
    cases init with
    | nil => simp [fold, hadd]
    | cons t init =>
      have hrest := ih hinit (path ++ [s])
      rw [List.cons_append, List.cons_append, fold, hadd, ← List.cons_append, hrest]
      · simp
      · simp

theorem outlineFold_eq (hkind : kind ≠ .file) {xs : List (Slotted κ)}
    (hxs : ∀ x ∈ xs, (literal x).bind dotsOf = none) (path : List (Slotted κ)) :
    outlineFold kind path xs = path ++ xs := by
  induction xs generalizing path with
  | nil => simp [outlineFold]
  | cons x xs ih =>
    obtain ⟨hx, hxs⟩ := List.forall_mem_cons.mp hxs
    have hadd (last : Bool) : outlineAdd kind path x last = path ++ [x] := by
      simp [outlineAdd, hx, outlineNormalize, hkind]
    cases xs with
    | nil => simp [outlineFold, hadd]
    | cons y xs => simp [outlineFold, hadd, ih hxs]

end Folding

section Dots

/-- The first characters of a dot segment, in lower case. -/
def DotStart (text : List Char) : Prop :=
  text.head? = some '.' ∨ text.take 3 = "%2e".toList

theorem dotsOf_start (hs : dotsOf s ≠ none) (rest : List Char) : DotStart ((s ++ rest).map Char.toLower) := by
  have hmem : ∃ dots ∈ [".", "%2e", "..", ".%2e", "%2e.", "%2e%2e"], dots.toList = s.map Char.toLower := by
    unfold dotsOf at hs
    dsimp only at hs
    split at hs
    · rename_i hany
      obtain ⟨dots, hdots, heq⟩ := List.any_eq_true.mp hany
      exact ⟨dots, by simp at hdots ⊢; tauto, by simpa using heq⟩
    · split at hs
      · rename_i hany
        obtain ⟨dots, hdots, heq⟩ := List.any_eq_true.mp hany
        exact ⟨dots, by simp at hdots ⊢; tauto, by simpa using heq⟩
      · exact absurd rfl hs
  obtain ⟨dots, hdots, heq⟩ := hmem
  rw [List.map_append, ← heq]
  simp only [List.mem_cons, List.not_mem_nil, or_false] at hdots
  rcases hdots with rfl | rfl | rfl | rfl | rfl | rfl
  · exact .inl rfl
  · exact .inr rfl
  · exact .inl rfl
  · exact .inl rfl
  · exact .inr rfl
  · exact .inr rfl

/-- What is cut off at the end of an input does not start like a dot segment. -/
theorem trimmed_start {z : Slotted κ} (hz : Trimmed fill z) : ¬ DotStart ((spell fill z).map Char.toLower) := by
  have hplain : ∀ n < 0x21, (Char.ofNat n).toLower ≠ '.' ∧ (Char.ofNat n).toLower ≠ '%' ∧
      (percentEncodeByte (Char.ofNat n).toNat.toUInt8).map Char.toLower ≠ "%2e".toList := by
    decide
  have hblank {c : Char} (hc : isBlank c = true) : c.toLower ≠ '.' ∧ c.toLower ≠ '%' ∧
      (percentEncodeByte c.toNat.toUInt8).map Char.toLower ≠ "%2e".toList := by
    have hnat : c.toNat ≤ 0x20 := by simpa [isBlank] using hc
    have h := hplain c.toNat (by omega)
    rwa [Char.ofNat_toNat] at h
  induction hz with
  | nil =>
    intro h
    rcases h with h | h <;> cases h
  | blank hc hz ih =>
    obtain ⟨hdot, hpercent, -⟩ := hblank hc
    rintro (h | h)
    · exact hdot (Option.some.inj h)
    · exact hpercent (List.cons.inj h).1
  | escape hc hz ih =>
    obtain ⟨-, -, hhex⟩ := hblank hc
    rintro (h | h)
    · cases h
    · rw [spell_append, spell_chars, List.map_append] at h
      exact hhex h
  | slot hkey hz ih => rwa [spell_slot, hkey]

end Dots

section Converse

variable {xs : List (Slotted κ)}

theorem forall₂_last {α β : Type} {R : α → β → Prop} {l : List α} {m m' : List β} {b b' : β}
    (h : Forall₂ R l (m ++ [b])) (h' : Forall₂ R l (m' ++ [b'])) : ∃ a, R a b ∧ R a b' := by
  have hback := List.forall₂_reverse_iff.mpr h
  have hback' := List.forall₂_reverse_iff.mpr h'
  rw [List.reverse_append, List.reverse_singleton, List.singleton_append] at hback hback'
  generalize l.reverse = back at hback hback'
  cases hback with
  | cons hb _ =>
    cases hback' with
    | cons hb' _ => exact ⟨_, hb, hb'⟩

/-- Where an outline without dots is shown, none of its places is filled with dots. -/
theorem path_keeps (hkind : kind ≠ .file) (hown : ∀ x ∈ xs, (literal x).bind dotsOf = none)
    (hreads : Forall₂ (Reads (Trimmed fill) fill) xs ss)
    (h : Forall₂ (Reads (Trimmed fill) fill) (outlineFold kind [] xs) (fold kind [] ss)) :
    ∀ s ∈ ss, dotsOf s = none := by
  rw [outlineFold_eq hkind hown, List.nil_append] at h
  have hlength : (fold kind [] ss).length = ([] : List (List Char)).length + ss.length := by
    rw [← h.length_eq, ← hreads.length_eq, List.length_nil, Nat.zero_add]
  have hinit := fold_full hlength
  rcases List.eq_nil_or_concat' ss with rfl | ⟨init, last, rfl⟩
  · simp
  · rw [List.dropLast_concat] at hinit
    intro s hs
    rcases List.mem_append.mp hs with hs | hs
    · exact hinit s hs
    · rw [List.mem_singleton.mp hs]
      by_contra hdots
      obtain ⟨dots, hsome⟩ := Option.ne_none_iff_exists'.mp hdots
      rw [fold_concat hkind hinit] at h
      simp only [addSegment, hsome, if_true, List.nil_append] at h
      obtain ⟨x, ⟨y, z, rfl, hy, hz, -⟩, y', z', hx, rfl, -, -⟩ := forall₂_last h hreads
      have hspell := congrArg (spell fill) hx
      rw [spell_append, spell_append, ← hy, List.nil_append] at hspell
      exact trimmed_start hz (hspell ▸ dotsOf_start hdots _)

/-- No more parameters are read than an outline has. -/
theorem parameters_le {R : Slotted κ → List Char → Prop} (hR : ∀ s, R [] s → s = []) (h : Forall₂ R xs ss) :
    (ss.filter (!·.isEmpty)).length ≤ (xs.filter (!·.isEmpty)).length := by
  induction h with
  | nil => exact le_rfl
  | @cons x s xs ss hx hrest ih =>
    cases x with
    | nil =>
      rw [hR s hx]
      exact ih
    | cons piece x =>
      cases s with
      | nil => exact Nat.le_succ_of_le ih
      | cons c s => exact Nat.succ_le_succ ih

/-- The parameters of an outline are shown only if none of its sequences comes out empty
that has something in it. -/
theorem parameters_keep {R : Slotted κ → List Char → Prop} (hR : ∀ s, R [] s → s = []) (h : Forall₂ R xs ss)
    (hlength : (xs.filter (!·.isEmpty)).length = (ss.filter (!·.isEmpty)).length) :
    ∀ pair ∈ xs.zip ss, pair.1 ≠ [] → pair.2 ≠ [] := by
  induction h with
  | nil => simp
  | @cons x s xs ss hx hrest ih =>
    have hle := parameters_le hR hrest
    rw [List.zip_cons_cons]
    cases x with
    | nil =>
      rw [hR s hx] at hlength ⊢
      intro pair hpair
      rcases List.mem_cons.mp hpair with rfl | hpair
      · exact fun hne => absurd rfl hne
      · exact ih hlength pair hpair
    | cons piece x =>
      cases s with
      | nil =>
        have hsucc : (xs.filter (!·.isEmpty)).length + 1 = (ss.filter (!·.isEmpty)).length := hlength
        omega
      | cons c s =>
        intro pair hpair
        rcases List.mem_cons.mp hpair with rfl | hpair
        · exact fun _ => List.cons_ne_nil c s
        · exact ih (Nat.succ.inj hlength) pair hpair

/-- An outline without dots is shown by a URL, with the values in it, only if the values keep
its segments, its parameters and its escapes. -/
theorem Parsed.keeps {H : Type} {o : Outline κ} {tail : Tail} {u : Record H} (h : Parsed fill o tail u)
    (hfill : Inert fill) (hstands : Stands fill value) (hkind : o.kind ≠ .file)
    (hown : ∀ x ∈ o.written, (literal x).bind dotsOf = none) (hdecodes : Shows (Decodes value fill) o.read u) :
    Keeps fill o tail := by
  obtain ⟨hshows, hescapes⟩ := (shows_decodes_iff hstands).mp hdecodes
  have hwritten := written_reads hfill h.reads
  have hquery := h.query_reads hfill
  refine ⟨?_, ?_, hescapes⟩
  · have hpath := hshows.path
    rw [h.path] at hpath
    have hfold : Forall₂ (Reads (Trimmed fill) fill) (outlineFold o.kind [] o.written) (fold o.kind [] tail.written) := by
      obtain ⟨kind, path, query, fragment⟩ := o
      obtain ⟨raw, rawQuery, rawFragment⟩ := tail
      have hraw := h.reads.path
      cases path with
      | opaqueText x =>
        cases raw with
        | opaqueText s => exact .nil
        | segments ss => cases hraw
      | segments xs =>
        cases raw with
        | opaqueText s => cases hraw
        | segments ss => exact hpath
    have hdots := path_keeps hkind hown hwritten hfold
    intro pair hpair _
    exact ⟨hdots pair.2 (List.of_mem_zip hpair).2, fun hfile => absurd hfile hkind⟩
  · have hparameters := hshows.parameters
    rw [parameters_eq, h.query] at hparameters
    exact parameters_keep (fun s hs => hs.of_literal rfl) (sequences_reads hfill hquery) hparameters.length_eq

end Converse

end Aviso.Lib.Url
