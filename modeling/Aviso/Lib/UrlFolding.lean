import Aviso.Lib.UrlDecoding
import Mathlib.Data.List.Forall2

namespace Aviso.Lib.Url

open List (Forall₂)

variable {κ : Type} {fill : κ → List Char} {value : κ → List UInt8} {x : Slotted κ} {s : List Char} {kind : Kind}

section Encoding

/-- A percent-encode set with no inert character in it. -/
def Spares (set : Char → Bool) : Prop := ∀ c, isInert c = true → set c = false

theorem inert_ascii {c : Char} (h : isInert c = true) : c.toNat < 128 := by
  have hdash (d : Char) (hd : d.toNat < 128) (hc : c = d) : c.toNat < 128 := hc ▸ hd
  simp only [isInert, Bool.or_eq_true, decide_eq_true_eq] at h
  rcases h with (((h | h) | h) | h) | h
  · delta Char.isAlphanum Char.isAlpha Char.isUpper Char.isLower Char.isDigit at h
    simp only [Bool.or_eq_true, Bool.and_eq_true, decide_eq_true_eq, UInt32.le_iff_toNat_le] at h
    have hnat : c.toNat = c.val.toNat := rfl
    have hZ : 'Z'.val.toNat = 90 := rfl
    have hz : 'z'.val.toNat = 122 := rfl
    have hnine : '9'.val.toNat = 57 := rfl
    omega
  · exact hdash '-' (by decide) h
  · exact hdash '_' (by decide) h
  · exact hdash '~' (by decide) h
  · exact hdash '%' (by decide) h

theorem spares_of_ascii {set : Char → Bool}
    (h : ∀ n < 128, isInert (Char.ofNat n) = true → set (Char.ofNat n) = false) : Spares set := by
  intro c hc
  have hset := h c.toNat (inert_ascii hc)
  rw [Char.ofNat_toNat] at hset
  exact hset hc

theorem spares_controlSet : Spares controlSet := spares_of_ascii (by decide +kernel)

theorem spares_fragmentSet : Spares fragmentSet := spares_of_ascii (by decide +kernel)

theorem spares_pathSet : Spares pathSet := spares_of_ascii (by decide +kernel)

theorem spares_querySet (special : Bool) : Spares (if special then specialQuerySet else querySet) := by
  cases special with
  | true => exact spares_of_ascii (by decide +kernel)
  | false => exact spares_of_ascii (by decide +kernel)

theorem encode_flatMap (set : Char → Bool) (text : List Char) :
    text.flatMap (fun c => encode set [c]) = encode set text := by
  simp [encode]

theorem encode_spares {set : Char → Bool} (hset : Spares set) {value : List Char}
    (hvalue : ∀ c ∈ value, isInert c = true) : encode set value = value := by
  induction value with
  | nil => rfl
  | cons c value ih =>
    obtain ⟨hc, hvalue⟩ := List.forall_mem_cons.mp hvalue
    have hrest := ih hvalue
    simp only [encode] at hrest ⊢
    rw [List.flatMap_cons, hrest, hset c hc]
    rfl

/-- What is filled in is not encoded again. -/
theorem encode_reads {set : Char → Bool} (hset : Spares set) (hfill : Inert fill) (h : Reads (Blanks fill) fill x s) :
    Reads (Trimmed fill) fill (encodeSlotted set x) (encode set s) := by
  rw [← encode_flatMap]
  refine h.flatMap (fun z => trimmed_blanks set) ?_
  intro key
  rw [encode_flatMap, encode_spares hset (hfill key)]

end Encoding

section Folding

/-- A segment that takes its own place in a path. -/
structure Plain (kind : Kind) (segment : List Char) : Prop where
  dots : dotsOf segment = none
  drive : kind = .file → isDriveLetter segment = false

/-- A segment that is what its outline says, and plain if its outline has a place in it. -/
structure Fits (kind : Kind) (fill : κ → List Char) (x : Slotted κ) (s : List Char) : Prop where
  reads : Reads (Trimmed fill) fill x s
  plain : literal x = none → Plain kind s

/-- A segment of a path that is what its outline says. -/
structure Held (kind : Kind) (fill : κ → List Char) (x : Slotted κ) (s : List Char) : Prop where
  reads : Reads (Trimmed fill) fill x s
  drive : kind = .file → literal x = none → isDriveLetter s = false

theorem Fits.held (h : Fits kind fill x s) : Held kind fill x s :=
  ⟨h.reads, fun hkind hx => (h.plain hx).drive hkind⟩

theorem Fits.dots (h : Fits kind fill x s) : (literal x).bind dotsOf = dotsOf s := by
  cases hx : literal x with
  | none => exact (h.plain hx).dots.symm
  | some l => rw [h.reads.of_literal hx, Option.bind_some]

theorem Held.isDriveLetter (h : Held .file fill x s) : (literal x).any isDriveLetter = isDriveLetter s := by
  cases hx : literal x with
  | none => exact (h.drive rfl hx).symm
  | some l => rw [h.reads.of_literal hx, Option.any_some]

theorem Held.isNormalizedDriveLetter (h : Held .file fill x s) :
    (literal x).any isNormalizedDriveLetter = isNormalizedDriveLetter s := by
  cases hx : literal x with
  | none => simp [Url.isNormalizedDriveLetter, h.drive rfl hx]
  | some l => rw [h.reads.of_literal hx, Option.any_some]

theorem held_nil : Held kind fill ([] : Slotted κ) [] := ⟨.chars .nil [], nofun⟩

variable {xs path : List (Slotted κ)} {ss texts : List (List Char)}

theorem shorten_held (h : Forall₂ (Held kind fill) path texts) :
    Forall₂ (Held kind fill) (outlineShorten kind path) (shorten kind texts) := by
  have hinit : Forall₂ (Held kind fill) path.dropLast texts.dropLast := by
    rw [List.dropLast_eq_take, List.dropLast_eq_take, h.length_eq]
    exact List.forall₂_take _ h
  cases kind with
  | server port => exact hinit
  | other => exact hinit
  | file =>
    cases h with
    | nil => exact .nil
    | cons hx hrest =>
      cases hrest with
      | nil =>
        simp only [outlineShorten, shorten, hx.isNormalizedDriveLetter]
        split
        · exact .cons hx .nil
        · exact .nil
      | cons hy hrest => exact hinit

theorem normalize_held (h : Forall₂ (Held kind fill) path texts) (hx : Held kind fill x s) :
    Held kind fill (outlineNormalize kind path x) (normalize kind texts s) := by
  have hempty : path.isEmpty = texts.isEmpty := by
    cases h <;> rfl
  by_cases hkind : kind = .file
  · subst hkind
    simp only [outlineNormalize, normalize, hempty, hx.isDriveLetter]
    split
    · rename_i hdrive
      simp only [Bool.and_eq_true] at hdrive
      have hliteral : literal x = some s := by
        cases hl : literal x with
        | none =>
          rw [hx.drive rfl hl] at hdrive
          cases hdrive.2
        | some l => rw [hx.reads.of_literal hl]
      rw [literal_eq_some hliteral, ← List.map_take, ← List.map_singleton, ← List.map_append]
      refine ⟨.chars .nil _, ?_⟩
      intro _ hnone
      rw [literal_chars] at hnone
      cases hnone
    · exact hx
  · simpa [outlineNormalize, normalize, hkind] using hx

/-- A segment takes the same place in an outline and in what is read of it. -/
theorem add_held (h : Forall₂ (Held kind fill) path texts) (hx : Fits kind fill x s) (last : Bool) :
    Forall₂ (Held kind fill) (outlineAdd kind path x last) (addSegment kind texts s last) := by
  rw [outlineAdd, addSegment, hx.dots]
  cases dotsOf s with
  | none => exact List.rel_append h (.cons (normalize_held h hx.held) .nil)
  | some dots =>
    have hpath : Forall₂ (Held kind fill) (if dots = .double then outlineShorten kind path else path)
        (if dots = .double then shorten kind texts else texts) := by
      split
      · exact shorten_held h
      · exact h
    cases last with
    | true => exact List.rel_append hpath (.cons held_nil .nil)
    | false => exact hpath

theorem fold_held (h : Forall₂ (Held kind fill) path texts) (hxs : Forall₂ (Fits kind fill) xs ss) :
    Forall₂ (Held kind fill) (outlineFold kind path xs) (fold kind texts ss) := by
  induction hxs generalizing path texts with
  | nil => exact h
  | cons hx hrest ih =>
    cases hrest with
    | nil => exact add_held h hx true
    | cons hnext hrest => exact ih (add_held h hx false)

end Folding

section Parsing

variable {H : Type} {hosts : HostParser H}

/-- The path segments of a URL before they are folded. -/
def Tail.written (tail : Tail) : List (List Char) :=
  match tail.path with
  | .opaqueText _ => []
  | .segments list => list.map (encode pathSet)

/-- The sequences of a query, which are its parameters where they are not empty. -/
def sequences (query : Option (List Char)) : List (List Char) :=
  (query.map (·.splitOnP (· = '&'))).getD []

def OutlinePath.texts : OutlinePath κ → List (Slotted κ)
  | .opaqueText text => [text]
  | .segments list => list

/-- The texts of the path, the query and the fragment. -/
def Outline.texts (o : Outline κ) : List (Slotted κ) := o.path.texts ++ o.query.toList ++ o.fragment.toList

/-- Every path segment with a place in it is plain, no sequence of the query comes out empty
that has anything written in it, and the escapes of the outline are its own. -/
structure Keeps (fill : κ → List Char) (o : Outline κ) (tail : Tail) : Prop where
  path : ∀ pair ∈ o.written.zip tail.written, literal pair.1 = none → Plain o.kind pair.2
  query : ∀ pair ∈ o.read.sequences.zip (sequences (tail.query.map (readQuery o.kind))),
    pair.1 ≠ [] → pair.2 ≠ []
  escapes : ∀ x ∈ o.read.texts, apart fill x = true

def PathShows (R : Slotted κ → List Char → Prop) : OutlinePath κ → Path → Prop
  | .opaqueText x, .opaqueText s => R x s
  | .segments xs, .segments ss => Forall₂ R xs ss
  | _, _ => False

/-- A URL has the path segments, the query, its parameters and the fragment of an outline,
each of them as `R` has it. -/
structure Shows (R : Slotted κ → List Char → Prop) (o : Outline κ) (u : Record H) : Prop where
  path : PathShows R o.path u.path
  query : Option.Rel R o.query u.query
  parameters : Forall₂ R o.parameters ((u.query.map parameters).getD [])
  fragment : Option.Rel R o.fragment u.fragment

theorem forall₂_and_zip {α β : Type} {R Q : α → β → Prop} {l : List α} {m : List β} (h : Forall₂ R l m)
    (hQ : ∀ pair ∈ l.zip m, Q pair.1 pair.2) : Forall₂ (fun a b => R a b ∧ Q a b) l m := by
  obtain ⟨hlength, hR⟩ := List.forall₂_iff_zip.mp h
  exact List.forall₂_iff_zip.mpr ⟨hlength, fun hmem => ⟨hR hmem, hQ _ hmem⟩⟩

theorem hexDigit_inert (n : Nat) : isInert (hexDigit n) = true := by
  match n with
  | 0 | 1 | 2 | 3 | 4 | 5 | 6 | 7 | 8 | 9 | 10 | 11 | 12 | 13 | 14 | 15 => rfl
  | n + 16 => rfl

/-- A scan that passes inert characters and blanks passes what is cut off. -/
theorem Stops.trimmed {p : Char → Bool} (hp : Stops p) :
    ∀ z : Slotted κ, Trimmed fill z → ∀ piece ∈ z, piece.is p = false := by
  intro z hz
  induction hz with
  | nil => nofun
  | blank hc hz ih => exact List.forall_mem_cons.mpr ⟨hp.blank _ hc, ih⟩
  | escape hc hz ih =>
    refine List.forall_mem_append.mpr ⟨?_, ih⟩
    simp [percentEncodeByte, Piece.is, hp.inert _ (hexDigit_inert _), hp.inert '%' rfl]
  | slot hkey hz ih => exact List.forall_mem_cons.mpr ⟨rfl, ih⟩

theorem sequences_reads (hfill : Inert fill) {query : Option (Slotted κ)} {text : Option (List Char)}
    (h : Option.Rel (Reads (Trimmed fill) fill) query text) :
    Forall₂ (Reads (Trimmed fill) fill) ((query.map (·.splitOnP (Piece.is (· = '&')))).getD []) (sequences text) := by
  cases h with
  | none => exact .nil
  | some hreads =>
    exact hreads.splitOnP .nil (stops_mark rfl rfl).trimmed ((stops_mark rfl rfl).unseen hfill)

theorem parameters_eq (query : Option (List Char)) :
    (query.map parameters).getD [] = (sequences query).filter (!·.isEmpty) := by
  cases query <;> rfl

/-- The parameters are those of the outline where no sequence with something in it is
left empty. -/
theorem parameters_reads {xs : List (Slotted κ)} {ss : List (List Char)} (h : Forall₂ (Reads (Trimmed fill) fill) xs ss)
    (hkeeps : ∀ pair ∈ xs.zip ss, pair.1 ≠ [] → pair.2 ≠ []) :
    Forall₂ (Reads (Trimmed fill) fill) (xs.filter (!·.isEmpty)) (ss.filter (!·.isEmpty)) := by
  have hboth := forall₂_and_zip (Q := fun x s => x ≠ [] → s ≠ []) h hkeeps
  have hfilter : Forall₂ (fun x s => Reads (Trimmed fill) fill x s ∧ (x ≠ [] → s ≠ []))
      (xs.filter (!·.isEmpty)) (ss.filter (!·.isEmpty)) := by
    refine List.rel_filter ?_ hboth
    rintro x s ⟨hreads, hne⟩
    have hnil : x = [] → s = [] := by
      rintro rfl
      exact hreads.of_literal rfl
    simp only [Bool.not_eq_true', List.isEmpty_eq_false_iff]
    exact ⟨hne, fun hs hx => hs (hnil hx)⟩
  exact hfilter.imp fun _ _ hpair => hpair.1

theorem written_reads (hfill : Inert fill) {o : Outline κ} {tail : Tail} (h : TailReads fill o tail) :
    Forall₂ (Reads (Trimmed fill) fill) o.written tail.written := by
  obtain ⟨kind, path, query, fragment⟩ := o
  obtain ⟨raw, rawQuery, rawFragment⟩ := tail
  have hpath := h.path
  cases path with
  | opaqueText x =>
    cases raw with
    | opaqueText s => exact .nil
    | segments ss => cases hpath
  | segments xs =>
    cases raw with
    | opaqueText s => cases hpath
    | segments ss =>
      refine List.forall₂_map_left_iff.mpr (List.forall₂_map_right_iff.mpr ?_)
      exact hpath.imp fun _ _ hreads => encode_reads spares_pathSet hfill hreads

theorem path_shows (hfill : Inert fill) {o : Outline κ} {tail : Tail} (h : TailReads fill o tail)
    (hkeeps : Keeps fill o tail) : PathShows (Reads (Trimmed fill) fill) o.read.path (readPath o.kind tail.path) := by
  have hfits : Forall₂ (Fits o.kind fill) o.written tail.written :=
    (forall₂_and_zip (written_reads hfill h) hkeeps.path).imp fun _ _ hboth => ⟨hboth.1, hboth.2⟩
  have hfold := (fold_held .nil hfits).imp fun _ _ hheld => hheld.reads
  obtain ⟨kind, path, query, fragment⟩ := o
  obtain ⟨raw, rawQuery, rawFragment⟩ := tail
  have hpath := h.path
  cases path with
  | opaqueText x =>
    cases raw with
    | opaqueText s => exact encode_reads spares_controlSet hfill hpath
    | segments ss => cases hpath
  | segments xs =>
    cases raw with
    | opaqueText s => cases hpath
    | segments ss => exact hfold

section Both

variable {R Q : Slotted κ → List Char → Prop} {P : Slotted κ → Prop}

theorem forall₂_both {xs : List (Slotted κ)} {ss : List (List Char)} (hR : ∀ x s, R x s ↔ Q x s ∧ P x) :
    Forall₂ R xs ss ↔ Forall₂ Q xs ss ∧ ∀ x ∈ xs, P x := by
  have heq : R = fun x s => P x ∧ Q x s := by
    funext x s
    exact propext ((hR x s).trans And.comm)
  rw [heq, List.forall₂_and_left]
  exact And.comm

theorem pathShows_both {path : OutlinePath κ} {read : Path} (hR : ∀ x s, R x s ↔ Q x s ∧ P x) :
    PathShows R path read ↔ PathShows Q path read ∧ ∀ x ∈ path.texts, P x := by
  cases path with
  | opaqueText x =>
    cases read with
    | opaqueText s => simpa [PathShows, OutlinePath.texts] using hR x s
    | segments ss => simp [PathShows]
  | segments xs =>
    cases read with
    | opaqueText s => simp [PathShows]
    | segments ss => exact forall₂_both hR

theorem rel_both {x : Option (Slotted κ)} {s : Option (List Char)} (hR : ∀ x s, R x s ↔ Q x s ∧ P x) :
    Option.Rel R x s ↔ Option.Rel Q x s ∧ ∀ y ∈ x.toList, P y := by
  cases x with
  | none => cases s <;> simp
  | some x =>
    cases s with
    | none => simp
    | some s => simpa using hR x s

end Both

/-- A URL shows an outline with the values in it if it shows the outline, and the escapes of
the outline are its own. -/
theorem shows_decodes_iff (hstands : Stands fill value) {o : Outline κ} {u : Record H} :
    Shows (Decodes value fill) o u ↔
      Shows (Reads (Trimmed fill) fill) o u ∧ ∀ x ∈ o.texts, apart fill x = true := by
  have hR (x : Slotted κ) (s : List Char) := decodes_iff (x := x) (s := s) hstands
  have hparameters (hquery : ∀ x ∈ o.query.toList, apart fill x = true) :
      ∀ x ∈ o.parameters, apart fill x = true := by
    intro x hx
    have hmem := List.mem_of_mem_filter hx
    rw [Outline.sequences] at hmem
    cases htext : o.query with
    | none =>
      rw [htext] at hmem
      cases hmem
    | some query =>
      rw [htext] at hmem hquery
      exact apart_splitOnP _ (hquery query (by simp)) x hmem
  simp only [Outline.texts, List.forall_mem_append]
  constructor
  · rintro ⟨hpath, hquery, hparameters, hfragment⟩
    obtain ⟨hpath, hpathApart⟩ := (pathShows_both hR).mp hpath
    obtain ⟨hquery, hqueryApart⟩ := (rel_both hR).mp hquery
    obtain ⟨hfragment, hfragmentApart⟩ := (rel_both hR).mp hfragment
    exact ⟨⟨hpath, hquery, ((forall₂_both hR).mp hparameters).1, hfragment⟩,
      ⟨hpathApart, hqueryApart⟩, hfragmentApart⟩
  · rintro ⟨⟨hpath, hquery, hshown, hfragment⟩, ⟨hpathApart, hqueryApart⟩, hfragmentApart⟩
    exact ⟨(pathShows_both hR).mpr ⟨hpath, hpathApart⟩, (rel_both hR).mpr ⟨hquery, hqueryApart⟩,
      (forall₂_both hR).mpr ⟨hshown, hparameters hqueryApart⟩, (rel_both hR).mpr ⟨hfragment, hfragmentApart⟩⟩

/-- A URL that is read from a tail with an outline. -/
structure Parsed (fill : κ → List Char) (o : Outline κ) (tail : Tail) (u : Record H) : Prop where
  reads : TailReads fill o tail
  path : u.path = readPath o.kind tail.path
  query : u.query = tail.query.map (readQuery o.kind)
  fragment : u.fragment = tail.fragment.map (encode fragmentSet)

theorem parse_outline (hfill : Inert fill) {text : Slotted κ} (hsettled : Settled text) {u : Record H}
    (h : parse hosts (spell fill text) = some u) :
    ∃ o parts, outline text = some o ∧ cut (spell fill text) = some parts ∧ Parsed fill o parts.tail u := by
  obtain ⟨parts, hcut, hread⟩ := Option.bind_eq_some_iff.mp h
  obtain ⟨authority, -, rfl⟩ := Option.map_eq_some_iff.mp hread
  obtain ⟨o, houtline, hkind, htail⟩ := cut_outline hfill hsettled hcut
  exact ⟨o, parts, houtline, hcut, htail, by rw [hkind], by rw [hkind], rfl⟩

namespace Parsed

variable {o : Outline κ} {tail : Tail} {u : Record H}

theorem query_reads (h : Parsed fill o tail u) (hfill : Inert fill) :
    Option.Rel (Reads (Trimmed fill) fill) o.read.query (tail.query.map (readQuery o.kind)) :=
  rel_map (fun _ _ hreads => encode_reads (spares_querySet _) hfill hreads) h.reads.query

/-- A URL shows its outline if the values that are filled in keep the segments, the
parameters and the escapes. -/
theorem shows (h : Parsed fill o tail u) (hfill : Inert fill) (hstands : Stands fill value)
    (hkeeps : Keeps fill o tail) : Shows (Decodes value fill) o.read u := by
  have hquery := h.query_reads hfill
  have hshows : Shows (Reads (Trimmed fill) fill) o.read u := by
    constructor
    · rw [h.path]
      exact path_shows hfill h.reads hkeeps
    · rw [h.query]
      exact hquery
    · rw [parameters_eq, h.query]
      exact parameters_reads (sequences_reads hfill hquery) hkeeps.query
    · rw [h.fragment]
      exact rel_map (fun _ _ hreads => encode_reads spares_fragmentSet hfill hreads) h.reads.fragment
  exact (shows_decodes_iff hstands).mpr ⟨hshows, hkeeps.escapes⟩

end Parsed

end Parsing

end Aviso.Lib.Url
