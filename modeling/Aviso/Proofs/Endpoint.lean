import Aviso.Client.Endpoint

namespace Aviso.Client.Endpoint

open Lib.Url

variable {U E H : Type} {parser : Parser U E} {record : U → Record H} {set : Char → Bool} {raw segment : Text}
  {base url : U} {above : List Text}

section Checking

theorem validatePathSegment_ok : validatePathSegment segment = .ok () ↔
    segment ≠ [] ∧ segment ≠ ".".toList ∧ segment ≠ "..".toList ∧ ∀ c ∈ segment, forbids c = false := by
  unfold validatePathSegment
  split
  · simp_all
  · split
    · rename_i hdots
      simp only [Bool.or_eq_true, decide_eq_true_eq] at hdots
      constructor
      · exact nofun
      · rintro ⟨-, hsingle, hdouble, -⟩
        exact absurd hdots (not_or.mpr ⟨hsingle, hdouble⟩)
    · rename_i hnil hdots
      simp only [Bool.or_eq_true, decide_eq_true_eq, not_or] at hdots
      have hne : segment ≠ [] := by simpa using hnil
      cases hfind : segment.find? forbids with
      | none =>
        have hall : ∀ c ∈ segment, forbids c = false := by simpa using hfind
        exact iff_of_true rfl ⟨hne, hdots.1, hdots.2, hall⟩
      | some c =>
        have hc := List.find?_some hfind
        have hmem := List.mem_of_find?_eq_some hfind
        simp only [reduceCtorEq, false_iff]
        rintro ⟨-, -, -, hall⟩
        rw [hall c hmem] at hc
        cases hc

/-- What passes the check stays in one segment, as the parser of a server's URL reads it. -/
theorem whole_of_ok (h : validatePathSegment segment = .ok ()) : Whole segment := by
  obtain ⟨-, -, -, hall⟩ := validatePathSegment_ok.mp h
  intro c hc
  have hplain := hall c hc
  have hne (d : Char) (hd : forbids d = true) : c ≠ d := by
    rintro rfl
    rw [hplain] at hd
    cases hd
  refine ⟨?_, ?_, ?_⟩
  · simp [separatesPath, hne '/' rfl, hne '\\' rfl]
  · simp [endsPath, hne '?' rfl, hne '#' rfl]
  · simp [isTabOrNewline, hne '\t' rfl, hne '\n' rfl, hne '\r' rfl]

/-- The only blanks that pass the check are spaces. -/
theorem blank_of_ok (h : validatePathSegment segment = .ok ()) {c : Char} (hc : c ∈ segment) (hblank : isBlank c = true) :
    c = ' ' := by
  obtain ⟨-, -, -, hall⟩ := validatePathSegment_ok.mp h
  have hplain := hall c hc
  simp only [forbids, isControl, Bool.or_eq_false_iff, decide_eq_false_iff_not] at hplain
  have hlow : c.toNat ≤ 0x20 := by simpa [isBlank] using hblank
  apply Char.toNat_inj.mp
  have hspace : ' '.toNat = 0x20 := rfl
  omega

/-- The text of a segment that the parser reads. -/
def trimmed (segment : Text) : Text := segment.rdropWhile isBlank

theorem trimmed_eq (h : validatePathSegment segment = .ok ()) (hlast : segment.getLast? ≠ some ' ') :
    trimmed segment = segment := by
  rcases segment.eq_nil_or_concat' with rfl | ⟨init, last, rfl⟩
  · rfl
  · apply List.rdropWhile_concat_neg
    intro hblank
    have hspace := blank_of_ok h (by simp) hblank
    simp [hspace] at hlast

/-- Dots are found in a checked segment only behind a percent sign, or before a space at its end. -/
theorem strays_of_ok (h : validatePathSegment segment = .ok ()) (hdots : dotsOf (trimmed segment) ≠ none) :
    '%' ∈ segment ∨ segment.getLast? = some ' ' := by
  by_contra hnot
  rw [not_or] at hnot
  obtain ⟨hpercent, hlast⟩ := hnot
  rw [trimmed_eq h hlast] at hdots
  obtain ⟨-, hsingle, hdouble, -⟩ := validatePathSegment_ok.mp h
  rcases dots_plain hdots hpercent with rfl | rfl
  · exact hsingle rfl
  · exact hdouble rfl

theorem endpoint_ok {relativePath : Text} :
    endpoint parser base relativePath = .ok url ↔ parser.join base relativePath = .ok url := by
  unfold endpoint
  cases parser.join base relativePath <;> simp [Except.mapError]

theorem url_ok {r : Resource} : r.url parser base segment = .ok url ↔
    validatePathSegment segment = .ok () ∧ endpoint parser base (r.lead ++ '/' :: segment) = .ok url := by
  unfold Resource.url
  cases validatePathSegment segment with
  | error e => simp [Except.mapError, bind, Except.bind]
  | ok => simp [Except.mapError, bind, Except.bind]

end Checking

/-- The segments a resource is asked for under, before the caller's. -/
def Resource.route : Resource → List Text
  | .schemaFor => ["api".toList, "v1".toList, "schema".toList]
  | .deleteNotification => ["api".toList, "v1".toList, "admin".toList, "notification".toList]

section Leading

theorem leads_of {route : List Text} (hinert : ∀ s ∈ route, s.all isInert = true) (hundotted : ∀ s ∈ route, dotsOf s = none)
    (hstarts : ∃ c s rest, route = (c :: s) :: rest) : Leads route :=
  ⟨fun s hs => List.all_eq_true.mp (hinert s hs), hundotted, hstarts⟩

theorem Resource.leads (r : Resource) : Leads r.route := by
  cases r with
  | schemaFor => exact leads_of (by decide) (by decide) ⟨_, _, _, rfl⟩
  | deleteNotification => exact leads_of (by decide) (by decide) ⟨_, _, _, rfl⟩

theorem lead_eq (r : Resource) (segment : Text) :
    r.lead ++ '/' :: segment = ['/'].intercalate (r.route ++ [segment]) := by
  have hlead : r.lead = ['/'].intercalate r.route := by
    cases r <;> decide
  rw [intercalate_concat (by cases r <;> simp [Resource.route]), hlead]

/-- The last segment of a path is empty exactly if its text ends in a slash. -/
theorem path_ends {list : List Text} (hslash : ∀ s ∈ list, '/' ∉ s) :
    (list.flatMap ('/' :: ·)).getLast? = some '/' ↔ list.getLast? = some [] := by
  rcases list.eq_nil_or_concat' with rfl | ⟨init, last, rfl⟩
  · simp
  · have hlast := hslash last (by simp)
    rw [List.flatMap_append, List.flatMap_singleton, List.getLast?_concat]
    rcases last.eq_nil_or_concat' with rfl | ⟨front, c, rfl⟩
    · simp
    · rw [← List.cons_append, ← List.append_assoc, List.getLast?_concat]
      constructor
      · intro hslash
        cases hslash
        exact absurd (by simp) hlast
      · intro hnil
        simp at hnil

/-- The path of an address that is kept, and what kind of URL it is. -/
theorem baseUrl_ok (hparser : Standard parser record set) (h : baseUrl parser raw = .ok base) :
    (∃ port, kindOf (record base).scheme = .server port) ∧
      ∃ above, (record base).path = .segments (above ++ [[]]) := by
  unfold baseUrl at h
  cases hparse : parser.parse raw with
  | error e =>
    rw [hparse] at h
    cases h
  | ok url =>
    simp only [hparse] at h
    split at h
    · rename_i hscheme
      have hserver : ∃ port, kindOf (parser.scheme url) = .server port := by
        simp only [Bool.or_eq_true, decide_eq_true_eq] at hscheme
        rcases hscheme with hscheme | hscheme
        · exact ⟨80, by rw [hscheme]; decide⟩
        · exact ⟨443, by rw [hscheme]; decide⟩
      obtain ⟨port, hkind⟩ := hserver
      obtain ⟨list, hlist, hpath, hslash⟩ := hparser.path raw url port hparse hkind
      rw [hparser.scheme] at hkind
      split at h
      · rename_i hends
        cases h
        rw [hpath, path_ends hslash] at hends
        obtain ⟨above, rfl⟩ := List.getLast?_eq_some_iff.mp hends
        exact ⟨⟨port, hkind⟩, above, hlist⟩
      · cases h
        have hset := hparser.setPath raw url list hparse hlist
        rw [hset]
        exact ⟨⟨port, hkind⟩, list, rfl⟩
    · cases h

end Leading

variable (parser record set base) in
/-- Where the requests of a client with an address go. `above` is the path of the address. Whatever a
caller names, the scheme, the authority and what is above `api/v1` stay: a segment that passes the check
is read as the last one of its resource, unless it stands for dots, and segments that are written out
are told apart. -/
structure Routed (above : List Text) : Prop where
  kept : (record base).path = .segments (above ++ [[]])
  fixed : ∀ path ∈ fixedPaths, ∃ url, endpoint parser base path = .ok url ∧
    record url = under (record base) above (path.splitOn '/')
  reached : ∀ r segment, (∃ url, Resource.url r parser base segment = .ok url) ↔ validatePathSegment segment = .ok ()
  contained : ∀ r segment url, Resource.url r parser base segment = .ok url →
    record url = under (record base) above (place set r.route (trimmed segment))
  named : ∀ r segment url, Resource.url r parser base segment = .ok url →
    (record url = under (record base) above (r.route ++ [encode set (trimmed segment)]) ↔
      dotsOf (trimmed segment) = none)
  strays : ∀ segment, validatePathSegment segment = .ok () → dotsOf (trimmed segment) ≠ none →
    '%' ∈ segment ∨ segment.getLast? = some ' '
  decoded : ∀ r segment url, Resource.url r parser base segment = .ok url → '%' ∉ segment →
    segment.getLast? ≠ some ' ' → ∃ last, record url = under (record base) above (r.route ++ [last]) ∧
      percentDecode last = segment.flatMap String.utf8EncodeChar
  apart : ∀ r r' segment segment' url url', Resource.url r parser base segment = .ok url →
    Resource.url r' parser base segment' = .ok url' → '%' ∉ segment → segment.getLast? ≠ some ' ' →
    '%' ∉ segment' → segment'.getLast? ≠ some ' ' → record url = record url' → r = r' ∧ segment = segment'

section Routing

variable {port : Nat} {r : Resource}

theorem under_route {base : Record H} {route route' : List Text} (h : under base above route = under base above route') :
    route = route' := by
  have hpath := congrArg Record.path h
  exact List.append_cancel_left (Path.segments.inj hpath)

theorem route_ne_nil (r : Resource) : r.route ≠ [] := by
  cases r <;> simp [Resource.route]

/-- Dots never stand for a segment of their own. -/
theorem place_eq_iff (hset : Unreserved set) (segment : Text) :
    place set r.route segment = r.route ++ [encode set segment] ↔ dotsOf segment = none := by
  unfold place
  cases hdots : dotsOf segment with
  | none => simp
  | some dots =>
    have hne : encode set segment ≠ [] := by
      intro hnil
      have hsame := dotsOf_encode hset segment
      rw [hnil, hdots] at hsame
      cases hsame
    simp only [reduceCtorEq, iff_false]
    intro heq
    cases dots with
    | single => exact hne (List.cons.inj (List.append_cancel_left heq)).1.symm
    | double =>
      have hlength := congrArg List.length heq
      have hpos := List.length_pos_of_ne_nil (route_ne_nil r)
      simp only [List.length_append, List.length_dropLast, List.length_singleton] at hlength
      omega

variable (hparser : Standard parser record set) (hkept : (record base).path = .segments (above ++ [[]]))
  (hkind : kindOf (record base).scheme = .server port)

include hparser hkept hkind

theorem reached (h : validatePathSegment segment = .ok ()) : ∃ url, r.url parser base segment = .ok url ∧
    record url = under (record base) above (place set r.route (trimmed segment)) := by
  obtain ⟨url, hurl, hrecord⟩ := hparser.join_segment hkept hkind r.leads (whole_of_ok h)
  exact ⟨url, url_ok.mpr ⟨h, endpoint_ok.mpr (lead_eq r segment ▸ hurl)⟩, hrecord⟩

theorem contained (h : r.url parser base segment = .ok url) :
    record url = under (record base) above (place set r.route (trimmed segment)) := by
  obtain ⟨url', hurl', hrecord⟩ := reached hparser hkept hkind (r := r) (url_ok.mp h).1
  cases h.symm.trans hurl'
  exact hrecord

theorem decoded (h : r.url parser base segment = .ok url) (hpercent : '%' ∉ segment)
    (hlast : segment.getLast? ≠ some ' ') :
    record url = under (record base) above (r.route ++ [encode set segment]) ∧
      percentDecode (encode set segment) = segment.flatMap String.utf8EncodeChar := by
  have hcheck := (url_ok.mp h).1
  have htrimmed := trimmed_eq hcheck hlast
  have hdots : dotsOf (trimmed segment) = none := by
    by_contra hdots
    rcases strays_of_ok hcheck hdots with hmem | hspace
    · exact hpercent hmem
    · exact hlast hspace
  have hplace := (place_eq_iff (r := r) hparser.unreserved (trimmed segment)).mpr hdots
  have hurl := contained hparser hkept hkind h
  rw [hplace, htrimmed] at hurl
  exact ⟨hurl, percentDecode_encode _ hpercent⟩

/-- The addresses without a caller's segment are where they are written. -/
theorem fixed : ∀ path ∈ fixedPaths, ∃ url, endpoint parser base path = .ok url ∧
    record url = under (record base) above (path.splitOn '/') := by
  have hjoin {route : List Text} (segment : Text) (hleads : Leads route) (hsegment : Whole segment) :
      ∃ url, endpoint parser base (['/'].intercalate (route ++ [segment])) = .ok url ∧
        record url = under (record base) above (place set route (segment.rdropWhile isBlank)) := by
    obtain ⟨url, hurl, hrecord⟩ := hparser.join_segment hkept hkind hleads hsegment
    exact ⟨url, endpoint_ok.mpr hurl, hrecord⟩
  have hapi : Leads ["api".toList, "v1".toList] := leads_of (by decide) (by decide) ⟨_, _, _, rfl⟩
  have hwipe : Leads ["api".toList, "v1".toList, "admin".toList, "wipe".toList] :=
    leads_of (by decide) (by decide) ⟨_, _, _, rfl⟩
  have hplace {route : List Text} {segment : Text} (hdots : dotsOf segment = none)
      (hinert : segment.all isInert = true) : place set route segment = route ++ [segment] := by
    rw [place, hdots, encode_spares hparser.unreserved.1 (List.all_eq_true.mp hinert)]
  intro path hpath
  simp only [fixedPaths, List.mem_cons, List.not_mem_nil, or_false] at hpath
  have hfixed {route : List Text} (segment : Text) (hleads : Leads route)
      (hcheck : validatePathSegment segment = .ok ()) (hplain : segment.rdropWhile isBlank = segment)
      (hdots : dotsOf segment = none) (hinert : segment.all isInert = true)
      (heq : path = ['/'].intercalate (route ++ [segment])) (hsplit : path.splitOn '/' = route ++ [segment]) :
      ∃ url, endpoint parser base path = .ok url ∧ record url = under (record base) above (path.splitOn '/') := by
    obtain ⟨url, hurl, hrecord⟩ := hjoin segment hleads (whole_of_ok hcheck)
    rw [hplain, hplace hdots hinert] at hrecord
    rw [hsplit, heq]
    exact ⟨url, hurl, hrecord⟩
  rcases hpath with rfl | rfl | rfl | rfl | rfl | rfl
  · exact hfixed "notification".toList hapi rfl rfl rfl rfl rfl rfl
  · exact hfixed "watch".toList hapi rfl rfl rfl rfl rfl rfl
  · exact hfixed "replay".toList hapi rfl rfl rfl rfl rfl rfl
  · exact hfixed "schema".toList hapi rfl rfl rfl rfl rfl rfl
  · exact hfixed "stream".toList hwipe rfl rfl rfl rfl rfl rfl
  · exact hfixed "all".toList hwipe rfl rfl rfl rfl rfl rfl

end Routing

theorem routing_law (parser : Parser U E) (record : U → Record H) (set : Char → Bool)
    (hparser : Standard parser record set) (raw : Text) (base : U) (h : baseUrl parser raw = .ok base) :
    ∃ above, Routed parser record set base above := by
  obtain ⟨⟨port, hkind⟩, above, hkept⟩ := baseUrl_ok hparser h
  have hunreserved := hparser.unreserved
  refine ⟨above, ?_⟩
  constructor
  case kept => exact hkept
  case fixed => exact fixed hparser hkept hkind
  case reached =>
    intro r segment
    constructor
    · rintro ⟨url, hurl⟩
      exact (url_ok.mp hurl).1
    · intro hcheck
      obtain ⟨url, hurl, -⟩ := reached hparser hkept hkind (r := r) hcheck
      exact ⟨url, hurl⟩
  case contained => exact fun r segment url hurl => contained hparser hkept hkind hurl
  case named =>
    intro r segment url hurl
    rw [contained hparser hkept hkind hurl, ← place_eq_iff (r := r) hunreserved]
    constructor
    · exact under_route
    · exact congrArg _
  case strays => exact fun segment hcheck => strays_of_ok hcheck
  case decoded =>
    intro r segment url hurl hpercent hlast
    exact ⟨_, decoded hparser hkept hkind hurl hpercent hlast⟩
  case apart =>
    intro r r' segment segment' url url' hurl hurl' hpercent hlast hpercent' hlast' hrecord
    obtain ⟨heq, hbytes⟩ := decoded hparser hkept hkind hurl hpercent hlast
    obtain ⟨heq', hbytes'⟩ := decoded hparser hkept hkind hurl' hpercent' hlast'
    rw [hrecord] at heq
    have hroute := under_route (heq.symm.trans heq')
    obtain ⟨hfront, hback⟩ := List.append_inj' hroute rfl
    have hsame : r = r' := by
      cases r <;> cases r' <;> first | rfl | cases hfront
    refine ⟨hsame, Lib.Utf8.encode_injective ?_⟩
    rw [← hbytes, ← hbytes', (List.cons.inj hback).1]

/-- The address of a gateway that keeps the service under a path of its own. -/
def sampleUrl : Record Text where
  scheme := "https".toList
  authority := ⟨[], [], some (.parsed "gw.example.org".toList), none⟩
  path := .segments ["aviso".toList]
  query := none
  fragment := none

/-- What the crate encodes in a path. -/
def sampleSet (c : Char) : Bool := fragmentSet c || ['#', '?', '\x7b', '\x7d'].contains c

/-- A parser of one address and of what leads on from it. -/
def sampleParser : Parser (Record Text) Unit where
  parse text := if text = "https://gw.example.org/aviso".toList then .ok sampleUrl else .error ()
  scheme := Record.scheme
  path url :=
    match url.path with
    | .opaqueText text => text
    | .segments list => list.flatMap ('/' :: ·)
  setPath url text := { url with path := .segments ((text.drop 1).splitOn '/') }
  join base text :=
    match base.path with
    | .opaqueText _ => .error ()
    | .segments list =>
      .ok { base with
        path := .segments (fold (kindOf base.scheme) list.dropLast
          (((text.rdropWhile isBlank).splitOn '/').map (encode sampleSet)))
        query := none
        fragment := none }

theorem sampleParser_standard : Standard sampleParser id sampleSet where
  unreserved := ⟨spares_of_ascii (by decide +kernel), by decide⟩
  scheme _ := rfl
  path text u port hparse _ := by
    simp only [sampleParser] at hparse
    split at hparse
    · cases hparse
      exact ⟨["aviso".toList], rfl, rfl, by decide⟩
    · cases hparse
  setPath text u list hparse hlist := by
    simp only [sampleParser] at hparse
    split at hparse
    · cases hparse
      cases hlist
      rfl
    · cases hparse
  trim base text := by
    simp only [sampleParser, List.rdropWhile_idempotent]
  join base port path list hkind hpath hrelative := by
    obtain ⟨c, s, rest, hstart, -⟩ := hrelative.starts
    have htrim : (['/'].intercalate list).rdropWhile isBlank = ['/'].intercalate list := by
      refine List.rdropWhile_eq_self_iff.mpr ?_
      intro hne
      have hlast := hrelative.ends _ (List.getLast?_eq_some_getLast hne)
      simp [hlast]
    have hsplit : (['/'].intercalate list).splitOn '/' = list := by
      refine List.splitOn_intercalate '/' ?_ (by simp [hstart])
      intro segment hsegment hslash
      have hplain := (hrelative.plain segment hsegment '/' hslash).1
      cases hplain
    simp only [id_eq] at hkind hpath ⊢
    refine ⟨_, ?_, rfl⟩
    simp only [sampleParser, hpath, htrim, hsplit, hkind]

theorem routing_law_sample : ∃ above, Routed sampleParser id sampleSet
    { sampleUrl with path := .segments ["aviso".toList, []] } above :=
  routing_law sampleParser id sampleSet sampleParser_standard "https://gw.example.org/aviso".toList _
    (by decide +kernel)

/-- Dots that are percent-encoded pass the check and leave the resource. -/
example : (deleteNotification sampleParser { sampleUrl with path := .segments ["aviso".toList, []] } "%2e%2e".toList).toOption =
    some (under sampleUrl ["aviso".toList] ["api".toList, "v1".toList, "admin".toList, []]) := by
  decide +kernel

end Aviso.Client.Endpoint
