import Aviso.Lib.UrlDots

namespace Aviso.Lib.Url

/-- What a program calls of a URL parser: `U` are the URLs it has read, and `E` says why a text is
none. -/
structure Parser (U E : Type) where
  parse : List Char → Except E U
  scheme : U → List Char
  path : U → List Char
  setPath : U → List Char → U
  join : U → List Char → Except E U

/-- A percent-encode set without the characters that stand for themselves in every URL. -/
def Unreserved (set : Char → Bool) : Prop := Spares set ∧ set '.' = false

/-- A text that leads on from the last segment of a base: it has no scheme, does not start at a root,
and says nothing of a query or a fragment. -/
structure Relative (list : List (List Char)) : Prop where
  plain : ∀ s ∈ list, ∀ c ∈ s, separatesPath true c = false ∧ endsPath c = false ∧ isTabOrNewline c = false
  starts : ∃ c s rest, list = (c :: s) :: rest ∧ isBlank c = false ∧ ':' ∉ c :: s
  ends : ∀ c ∈ (['/'].intercalate list).getLast?, isBlank c = false

/-- What the URL Standard says of a parser: `record` are the parts of a URL, `set` are the characters
that are encoded in a path. -/
structure Standard {U E H : Type} (p : Parser U E) (record : U → Record H) (set : Char → Bool) : Prop where
  unreserved : Unreserved set
  scheme : ∀ u, p.scheme u = (record u).scheme
  /-- The path of a server's URL is a list of segments, and is written with a slash before each. -/
  path : ∀ text u port, p.parse text = .ok u → kindOf (p.scheme u) = .server port → ∃ list,
    (record u).path = .segments list ∧ p.path u = list.flatMap ('/' :: ·) ∧ ∀ s ∈ list, '/' ∉ s
  /-- A slash after a path adds an empty segment to it. -/
  setPath : ∀ text u list, p.parse text = .ok u → (record u).path = .segments list →
    record (p.setPath u (p.path u ++ ['/'])) = { record u with path := .segments (list ++ [[]]) }
  /-- Blanks at the end of a reference are cut off. -/
  trim : ∀ base text, p.join base text = p.join base (text.rdropWhile isBlank)
  /-- The segments of a reference take the place of the base's last one, and dots among them are
  folded. -/
  join : ∀ base port path list, kindOf (record base).scheme = .server port →
    (record base).path = .segments path → Relative list → ∃ url,
      p.join base (['/'].intercalate list) = .ok url ∧
        record url = { record base with
          path := .segments (fold (.server port) path.dropLast (list.map (encode set)))
          query := none
          fragment := none }

section Decoding

/-- A text without `%` is read back from its encoding as its bytes. -/
theorem percentDecode_encode (set : Char → Bool) {text : List Char} (h : '%' ∉ text) :
    percentDecode (encode set text) = text.flatMap String.utf8EncodeChar := by
  have hbytes (bytes : List UInt8) (rest : List Char) :
      percentDecode (bytes.flatMap percentEncodeByte ++ rest) = bytes ++ percentDecode rest := by
    induction bytes with
    | nil => rfl
    | cons b bytes ih => rw [List.flatMap_cons, List.append_assoc, percentDecode_byte, ih, List.cons_append]
  induction text with
  | nil => rfl
  | cons c text ih =>
    rw [List.mem_cons, not_or] at h
    obtain ⟨hc, htext⟩ := h
    have hrest := ih htext
    simp only [encode, List.flatMap_cons] at hrest ⊢
    split
    · rw [hbytes, hrest]
    · rw [List.singleton_append, percentDecode_plain (startsEscape_ne (Ne.symm hc) _), hrest]

end Decoding

section Dots

variable {set : Char → Bool}

/-- The dot segments, in lower case. -/
def dotTexts : List (List Char) :=
  [".".toList, "%2e".toList, "..".toList, ".%2e".toList, "%2e.".toList, "%2e%2e".toList]

theorem mem_dotTexts {segment : List Char} (h : dotsOf segment ≠ none) : segment.map Char.toLower ∈ dotTexts := by
  unfold dotsOf at h
  dsimp only at h
  split at h
  · rename_i hany
    obtain ⟨dots, hdots, heq⟩ := List.any_eq_true.mp hany
    rw [← of_decide_eq_true heq]
    simp only [List.mem_cons, List.not_mem_nil, or_false] at hdots
    rcases hdots with rfl | rfl <;> simp [dotTexts]
  · split at h
    · rename_i hany
      obtain ⟨dots, hdots, heq⟩ := List.any_eq_true.mp hany
      rw [← of_decide_eq_true heq]
      simp only [List.mem_cons, List.not_mem_nil, or_false] at hdots
      rcases hdots with rfl | rfl | rfl | rfl <;> simp [dotTexts]
    · exact absurd rfl h

theorem toLower_high {c : Char} (hc : ¬c.toNat < 128) : c.toLower = c := by
  apply dif_neg
  intro hupper
  have hle : c.toNat ≤ 'Z'.toNat := hupper.2
  exact hc (Nat.lt_of_le_of_lt hle (by decide))

/-- What is below the small letters is there before it is put in lower case. -/
theorem toLower_low {c : Char} (h : c.toLower.toNat < 'a'.toNat) : c.toLower = c := by
  have hascii : ∀ n < 128, (Char.ofNat n).toLower.toNat < 'a'.toNat → (Char.ofNat n).toLower = Char.ofNat n := by
    decide +kernel
  by_cases hsmall : c.toNat < 128
  · have hsame := hascii c.toNat hsmall
    rw [Char.ofNat_toNat] at hsame
    exact hsame h
  · exact toLower_high hsmall

/-- The dot segments without a percent sign. -/
theorem dots_plain {segment : List Char} (h : dotsOf segment ≠ none) (hpercent : '%' ∉ segment) :
    segment = ".".toList ∨ segment = "..".toList := by
  have hplain : ∀ text ∈ dotTexts, '%' ∉ text → text = ".".toList ∨ text = "..".toList := by decide
  have hlow : ∀ text ∈ [".".toList, "..".toList], text.all (·.toNat < 'a'.toNat) = true := by decide
  have hlower : '%' ∉ segment.map Char.toLower := by
    intro hmem
    obtain ⟨c, hc, heq⟩ := List.mem_map.mp hmem
    have hsame : c.toLower = c := toLower_low (by rw [heq]; decide)
    rw [← hsame, heq] at hc
    exact hpercent hc
  have htext := hplain _ (mem_dotTexts h) hlower
  have hsame : segment.map Char.toLower = segment := by
    refine (List.map_congr_left ?_).trans (List.map_id segment)
    intro c hc
    have hall := List.all_eq_true.mp (hlow _ (by simpa using htext)) _ (List.mem_map_of_mem hc)
    exact toLower_low (of_decide_eq_true hall)
  rwa [hsame] at htext

/-- A dot segment has no character that is encoded. -/
theorem dots_kept (hset : Unreserved set) {segment : List Char} (h : dotsOf segment ≠ none) :
    ∀ c ∈ segment, set c = false := by
  have hlower : ∀ text ∈ dotTexts, text.all (fun d => d = '.' ∨ d = '%' ∨ d = '2' ∨ d = 'e') = true := by decide
  have hascii : ∀ n < 128, ((Char.ofNat n).toLower = '.' ∨ (Char.ofNat n).toLower = '%' ∨
      (Char.ofNat n).toLower = '2' ∨ (Char.ofNat n).toLower = 'e') →
        isInert (Char.ofNat n) = true ∨ Char.ofNat n = '.' := by
    decide +kernel
  intro c hc
  have hd := of_decide_eq_true (List.all_eq_true.mp (hlower _ (mem_dotTexts h)) c.toLower (List.mem_map_of_mem hc))
  by_cases hsmall : c.toNat < 128
  · have hkept := hascii c.toNat hsmall
    rw [Char.ofNat_toNat] at hkept
    rcases hkept hd with hinert | hdot
    · exact hset.1 c hinert
    · rw [hdot]
      exact hset.2
  · rw [toLower_high hsmall] at hd
    exfalso
    rcases hd with rfl | rfl | rfl | rfl <;> exact hsmall (by decide)

theorem encode_kept {text : List Char} (h : ∀ c ∈ text, set c = false) : encode set text = text := by
  induction text with
  | nil => rfl
  | cons c text ih =>
    obtain ⟨hc, htext⟩ := List.forall_mem_cons.mp h
    have hrest := ih htext
    simp only [encode] at hrest ⊢
    rw [List.flatMap_cons, hrest, hc]
    rfl

/-- An encoded character leaves the code of a byte that is no dot's. -/
theorem encode_code (hset : Unreserved set) {c : Char} (hc : set c = true) :
    ∃ b bytes, String.utf8EncodeChar c = b :: bytes ∧ b.toNat ≠ 0x2E := by
  by_cases hsmall : c.toNat ≤ 0x7F
  · refine ⟨c.toNat.toUInt8, [], Utf8.encodeChar_ascii hsmall, ?_⟩
    intro hdot
    have hbyte : (c.toNat.toUInt8).toNat = c.toNat := by
      simp only [Nat.toUInt8, UInt8.toNat_ofNat']
      omega
    have hsame : c = '.' := Char.toNat_inj.mp (hbyte.symm.trans hdot)
    rw [hsame, hset.2] at hc
    cases hc
  · cases hbytes : String.utf8EncodeChar c with
    | nil => exact absurd hbytes String.utf8EncodeChar_ne_nil
    | cons b bytes =>
      have hhigh := Utf8.encodeChar_high (Nat.lt_of_not_le hsmall) (hbytes ▸ List.mem_cons_self : b ∈ String.utf8EncodeChar c)
      exact ⟨b, bytes, rfl, by omega⟩

/-- What is encoded makes no dot segment. -/
theorem code_undotted {b : UInt8} (hb : b.toNat ≠ 0x2E) (before after : List Char) :
    dotsOf (before ++ percentEncodeByte b ++ after) = none := by
  by_contra h
  have hmem := mem_dotTexts h
  have hshape : ∀ text ∈ dotTexts, ∀ i < 6, text[i]? = some '%' → text[i + 1]? = some '2' ∧ text[i + 2]? = some 'e' := by
    decide
  have hshort : ∀ text ∈ dotTexts, text.length ≤ 6 := by decide
  have hhex : ∀ n < 256, (hexDigit (n / 16)).toLower = '2' → (hexDigit (n % 16)).toLower = 'e' → n = 0x2E := by
    decide +kernel
  generalize htext : (before ++ percentEncodeByte b ++ after).map Char.toLower = text at hmem
  have hat (k : Nat) (hk : k < 3) : text[before.length + k]? = (percentEncodeByte b)[k]?.map Char.toLower := by
    rw [← htext, List.append_assoc, List.getElem?_map, List.getElem?_append_right (Nat.le_add_right _ _),
      Nat.add_sub_cancel_left, List.getElem?_append_left hk]
  have hlength : before.length + 3 ≤ text.length := by
    rw [← htext, List.length_map, List.length_append, List.length_append]
    exact Nat.le_add_right _ _
  have hsix := hshort text hmem
  obtain ⟨htwo, he⟩ := hshape text hmem before.length (by omega) (hat 0 (by decide))
  have hhigh := (hat 1 (by decide)).symm.trans htwo
  have hlow := (hat 2 (by decide)).symm.trans he
  exact hb (hhex b.toNat b.toNat_lt (Option.some.inj hhigh) (Option.some.inj hlow))

/-- Encoding neither makes nor hides dots. -/
theorem dotsOf_encode (hset : Unreserved set) (segment : List Char) :
    dotsOf (encode set segment) = dotsOf segment := by
  by_cases hkept : ∀ c ∈ segment, set c = false
  · rw [encode_kept hkept]
  · have hnone : dotsOf segment = none := by
      by_contra h
      exact hkept (dots_kept hset h)
    rw [hnone]
    simp only [not_forall, Bool.not_eq_false] at hkept
    obtain ⟨c, hc, hencoded⟩ := hkept
    obtain ⟨before, after, rfl⟩ := List.append_of_mem hc
    obtain ⟨b, bytes, hbytes, hb⟩ := encode_code hset hencoded
    have hcode : encode set (before ++ c :: after) =
        encode set before ++ percentEncodeByte b ++ (bytes.flatMap percentEncodeByte ++ encode set after) := by
      simp [encode, hencoded, hbytes]
    rw [hcode]
    exact code_undotted hb _ _

end Dots

section Joining

variable {U E H : Type} {p : Parser U E} {record : U → Record H} {set : Char → Bool} {base : U}
  {above route : List (List Char)} {segment : List Char} {port : Nat}

/-- Where a last segment ends up: dots stand for the place they are in, or for the one above it. -/
def place (set : Char → Bool) (route : List (List Char)) (segment : List Char) : List (List Char) :=
  match dotsOf segment with
  | none => route ++ [encode set segment]
  | some .single => route ++ [[]]
  | some .double => route.dropLast ++ [[]]

/-- Dots in the last segment lead out of it, and out of the place before it at most. -/
theorem addSegment_place (hset : Unreserved set) {kind : Kind} (hkind : kind ≠ .file) (hroute : route ≠ [])
    (segment : List Char) :
    addSegment kind (above ++ route) (encode set segment) true = above ++ place set route segment := by
  have hshorten : shorten kind (above ++ route) = above ++ route.dropLast := by
    unfold shorten
    split
    · exact absurd rfl hkind
    · exact List.dropLast_append_of_ne_nil hroute
  unfold addSegment place
  rw [dotsOf_encode hset]
  cases dotsOf segment with
  | none => simp [normalize_eq hkind]
  | some dots => cases dots <;> simp [hshorten]

/-- The base with other segments after its own, and nothing else of a reference. -/
def under (base : Record H) (above route : List (List Char)) : Record H :=
  { base with path := .segments (above ++ route), query := none, fragment := none }

/-- Segments that lead on without a detour. -/
structure Leads (route : List (List Char)) : Prop where
  inert : ∀ s ∈ route, ∀ c ∈ s, isInert c = true
  undotted : ∀ s ∈ route, dotsOf s = none
  starts : ∃ c s rest, route = (c :: s) :: rest

/-- A text that stays in one segment of a path. -/
def Whole (segment : List Char) : Prop :=
  ∀ c ∈ segment, separatesPath true c = false ∧ endsPath c = false ∧ isTabOrNewline c = false

theorem mem_rdropWhile {p : Char → Bool} {c : Char} (h : c ∈ segment.rdropWhile p) : c ∈ segment :=
  (List.rdropWhile_prefix p segment).subset h

theorem intercalate_concat (hroute : route ≠ []) (segment : List Char) :
    ['/'].intercalate (route ++ [segment]) = ['/'].intercalate route ++ '/' :: segment := by
  induction route with
  | nil => exact absurd rfl hroute
  | cons s route ih =>
    cases route with
    | nil => simp [List.intercalate]
    | cons t route =>
      have hrest := ih (by simp)
      rw [List.cons_append] at hrest
      rw [List.cons_append, List.cons_append, List.intercalate_cons_cons, hrest, List.intercalate_cons_cons]
      simp

theorem relative_of (hleads : Leads route) (hsegment : Whole segment) :
    Relative (route ++ [segment.rdropWhile isBlank]) := by
  obtain ⟨c, s, rest, rfl⟩ := hleads.starts
  constructor
  · intro t ht d hd
    rcases List.mem_append.mp ht with ht | ht
    · have hinert := hleads.inert t ht d hd
      have hblank := isTabOrNewline_blank (inert_nonblank hinert)
      simp [separatesPath, endsPath, hblank, inert_ne hinert (d := '/') rfl, inert_ne hinert (d := '\\') rfl,
        inert_ne hinert (d := '?') rfl, inert_ne hinert (d := '#') rfl]
    · rw [List.mem_singleton.mp ht] at hd
      exact hsegment d (mem_rdropWhile hd)
  · have hinert := hleads.inert _ List.mem_cons_self
    refine ⟨c, s, _, rfl, inert_nonblank (hinert c List.mem_cons_self), ?_⟩
    intro hmem
    exact inert_ne (hinert _ hmem) rfl rfl
  · rw [intercalate_concat (List.cons_ne_nil _ _)]
    intro d hd
    rcases (segment.rdropWhile isBlank).eq_nil_or_concat' with hnil | ⟨init, last, hconcat⟩
    · rw [hnil, List.getLast?_concat] at hd
      cases hd
      rfl
    · have hlast := List.rdropWhile_last_not isBlank segment (by rw [hconcat]; simp)
      simp only [hconcat, List.getLast_append_singleton] at hlast
      rw [hconcat, ← List.cons_append, ← List.append_assoc, List.getLast?_concat] at hd
      cases hd
      exact Bool.eq_false_of_not_eq_true hlast

/-- A segment after a lead takes the place of the base's last one, with the lead before it. -/
theorem Standard.join_segment (hp : Standard p record set)
    (hkept : (record base).path = .segments (above ++ [[]])) (hkind : kindOf (record base).scheme = .server port)
    (hleads : Leads route) (hsegment : Whole segment) :
    ∃ url, p.join base (['/'].intercalate (route ++ [segment])) = .ok url ∧
      record url = under (record base) above (place set route (segment.rdropWhile isBlank)) := by
  have hroute : route ≠ [] := by
    obtain ⟨c, s, rest, rfl⟩ := hleads.starts
    simp
  have hencode : route.map (encode set) = route := by
    refine (List.map_congr_left ?_).trans (List.map_id route)
    intro s hs
    exact encode_spares hp.unreserved.1 (hleads.inert s hs)
  have htrim : (['/'].intercalate (route ++ [segment])).rdropWhile isBlank =
      ['/'].intercalate (route ++ [segment.rdropWhile isBlank]) := by
    rw [intercalate_concat hroute, intercalate_concat hroute, rdropWhile_stop '/' rfl]
  obtain ⟨url, hurl, hrecord⟩ := hp.join base port _ _ hkind hkept (relative_of hleads hsegment)
  refine ⟨url, by rw [hp.trim, htrim, hurl], ?_⟩
  have hfile : Kind.server port ≠ .file := nofun
  rw [hrecord, List.dropLast_concat, List.map_append, hencode, List.map_singleton,
    fold_concat hfile hleads.undotted, addSegment_place hp.unreserved hfile hroute]
  rfl

end Joining

end Aviso.Lib.Url
