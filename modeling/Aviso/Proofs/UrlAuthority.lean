import Aviso.Proofs.Rendering

namespace Aviso.Template

open Watch (Notification)
open Lib (spell)
open Lib.Url

variable {toString : Json → Text} {env : Text → Except TemplateErrorKind Text} {t : CompiledTemplate}
  {n n₁ n₂ : Notification} {text text₁ text₂ : Text}

theorem map_ok {ε α β : Type} {f : α → β} {x : Except ε α} {b : β} (h : x.map f = .ok b) :
    ∃ a, x = .ok a ∧ f a = b := by
  cases x with
  | error e => cases h
  | ok a =>
    cases h
    exact ⟨a, rfl, rfl⟩

/-- The URL of a notification is the text of the template with its places filled. -/
theorem renderWithEnv_spell (h : t.renderWithEnv toString n env .url = .ok text) :
    text = spell (fillOf toString n) (slotted env t.segments) := by
  obtain ⟨r, hr, rfl⟩ := map_ok h
  exact render_spell hr

theorem renderWithEnv_lead (h : t.renderWithEnv toString n env .url = .ok text) (hslot : HasSlot t.segments) :
    HasPath (leadOf env t.segments) := by
  obtain ⟨r, hr, -⟩ := map_ok h
  exact render_lead (r := .new) rfl hslot hr

/-- Two renderings agree up to the first placeholder. -/
theorem renderWithEnv_split (h₁ : t.renderWithEnv toString n₁ env .url = .ok text₁)
    (h₂ : t.renderWithEnv toString n₂ env .url = .ok text₂) :
    (¬ HasSlot t.segments → text₁ = text₂) ∧
      (HasSlot t.segments → ∃ s₁ s₂,
        text₁ = leadOf env t.segments ++ s₁ ∧ text₂ = leadOf env t.segments ++ s₂) := by
  rw [renderWithEnv_spell h₁, renderWithEnv_spell h₂, ← leadText_slotted]
  rcases slotted_cases (slotted env t.segments) with ⟨s, hs⟩ | ⟨lead, path, rest, hs⟩
  · rw [hs]
    refine ⟨fun _ => by rw [Lib.spell_chars, Lib.spell_chars], ?_⟩
    rintro ⟨path, hpath⟩
    have hmem : .slot path ∈ slotted env t.segments := slot_mem.mpr hpath
    rw [hs] at hmem
    obtain ⟨c, -, hc⟩ := List.mem_map.mp hmem
    cases hc
  · refine ⟨fun hnone => absurd ⟨path, slot_mem.mp (by rw [hs]; simp)⟩ hnone, fun _ => ?_⟩
    rw [hs, (lead_slot lead path rest).1, Lib.spell_append, Lib.spell_append, Lib.spell_chars, Lib.spell_chars]
    exact ⟨_, _, rfl, rfl⟩

/-- The authority of a URL is over before the first notification value: its scheme is
none of the server schemes, or what follows the scheme's colon and the slashes and
backslashes after it has a slash, a backslash, a `?` or a `#`. -/
def AuthorityBefore (env : Text → Except TemplateErrorKind Text) (t : CompiledTemplate) : Prop :=
  HasSlot t.segments → Closed (leadOf env t.segments)

/-- Two texts with the same scheme and authority. -/
theorem cut_authority {lead s₁ s₂ : Text} {p₁ p₂ : Parts} (hpath : HasPath lead) (hclosed : Closed lead)
    (h₁ : cut (lead ++ s₁) = some p₁) (h₂ : cut (lead ++ s₂) = some p₂) :
    p₁.scheme = p₂.scheme ∧ p₁.authority = p₂.authority := by
  obtain ⟨blanks, -, -, hcut⟩ := cut_append hpath hclosed
  rw [hcut] at h₁ h₂
  cases hscheme : splitScheme (clean lead) with
  | none =>
    rw [hscheme] at h₁
    cases h₁
  | some split =>
    rw [hscheme] at h₁ h₂
    cases h₁
    cases h₂
    exact ⟨rfl, rfl⟩

theorem parse_cut {H : Type} {hosts : HostParser H} {u : Record H} (h : parse hosts text = some u) :
    ∃ parts, cut text = some parts ∧ u.scheme = parts.scheme ∧
      readAuthority hosts (kindOf parts.scheme) parts.authority = some u.authority := by
  obtain ⟨parts, hparts, hread⟩ := Option.bind_eq_some_iff.mp h
  obtain ⟨authority, hauthority, rfl⟩ := Option.map_eq_some_iff.mp hread
  exact ⟨parts, hparts, rfl, hauthority⟩

/-- The path of the first notification placeholder. -/
def firstSlot : List Segment → Option (List Text)
  | [] => none
  | .notificationPath path :: _ => some path
  | .literal _ :: segments | .envVar _ :: segments => firstSlot segments

/-- The first value of a rendering follows the lead. -/
theorem render_first {r r' : Rendering} {segments : List Segment} {raw : Text} (hslot : HasSlot segments)
    (h : segments.foldlM (renderSegment toString (toValue n) env .url raw) r = .ok r') :
    ∃ path v rest, firstSlot segments = some path ∧ walkPath (toValue n) path = some v ∧
      r'.out = r.out ++ leadOf env segments ++ (percentEncode (renderValue toString v) ++ rest) := by
  induction segments generalizing r with
  | nil =>
    obtain ⟨path, hmem⟩ := hslot
    cases hmem
  | cons segment segments ih =>
    obtain ⟨mid, hmid, hrest⟩ := foldlM_cons_ok h
    cases segment with
    | literal text =>
      cases hmid
      obtain ⟨path, v, rest, hpath, hv, hout⟩ := ih (by simpa [HasSlot] using hslot) hrest
      exact ⟨path, v, rest, hpath, hv, by simp [hout, Rendering.verbatim, leadOf]⟩
    | envVar name =>
      cases renderSegment_env hmid
      obtain ⟨path, v, rest, hpath, hv, hout⟩ := ih (by simpa [HasSlot] using hslot) hrest
      exact ⟨path, v, rest, hpath, hv, by simp [hout, Rendering.verbatim, leadOf]⟩
    | notificationPath path =>
      obtain ⟨v, hv, -, hout⟩ := renderSegment_value hmid
      refine ⟨path, v, spell (fillOf toString n) (slotted env segments), rfl, hv, ?_⟩
      rw [render_spell hrest, hout]
      simp [leadOf]

/-- The authority that a lead begins: what follows its scheme's colon and the slashes after it. -/
def authorityOf (lead : Text) : Text :=
  ((splitScheme (untab (lead.dropWhile isBlank))).elim [] Prod.snd).dropWhile isSlash

/-- The text of an authority holds what is written for the first value, right after what the lead of
the template gives it, if anything is written. -/
def InAuthority (toString : Json → Text) (env : Text → Except TemplateErrorKind Text) (t : CompiledTemplate)
    (n : Notification) (authority : RawAuthority) : Prop :=
  ∃ path v before after, firstSlot t.segments = some path ∧ walkPath (toValue n) path = some v ∧
    authority = .server (before ++ percentEncode (renderValue toString v) ++ after) ∧
    (percentEncode (renderValue toString v) ≠ [] → before = authorityOf (leadOf env t.segments))

/-- A text that follows a lead which is not closed is read in the authority. -/
theorem cut_open {lead value rest : Text} {parts : Parts} (hpath : HasPath lead) (hopen : ¬ Closed lead)
    (hvalue : ∀ c ∈ value, isInert c = true) (h : cut (lead ++ (value ++ rest)) = some parts) :
    ∃ before after, parts.authority = .server (before ++ value ++ after) ∧ (value ≠ [] → before = authorityOf lead) := by
  simp only [Closed, not_forall] at hopen
  obtain ⟨scheme, after, port, hscheme, hkind, hends⟩ := hopen
  obtain ⟨blanks, hblanks, huncut, happend⟩ := clean_append hpath.nonblank
  obtain ⟨before, between, mark, tail, hclean, -⟩ := hpath.clean
  rw [cut, happend, splitScheme_append (by rw [hclean]; simp), hscheme] at h
  simp only [Option.map_some, hkind, cutAuthority, Option.some.injEq] at h
  subst h
  dsimp only
  by_cases hne : value = []
  · subst hne
    exact ⟨_, [], by rw [List.append_nil, List.append_nil], fun hsome => absurd rfl hsome⟩
  · rw [rdropWhile_inert hne hvalue]
    have hlead : ∀ c ∈ (after ++ untab blanks).dropWhile isSlash, (!endsAuthority true c) = true := by
      intro c hc
      have hmem : c ∈ after.dropWhile isSlash ∨ c ∈ untab blanks := by
        rw [List.dropWhile_append] at hc
        split at hc
        · exact .inr ((List.dropWhile_suffix _).subset hc)
        · exact List.mem_append.mp hc
      rcases hmem with hmem | hmem
      · by_contra hnot
        exact hends ⟨c, hmem, by simpa using hnot⟩
      · simp [(blank_inside (hblanks c (List.mem_of_mem_filter hmem))).2]
    have hread : ∀ c ∈ value, (!endsAuthority true c) = true := by
      intro c hc
      simp [(inert_inside (hvalue c hc)).2]
    have huntab (r : Text) : untab (blanks ++ (value ++ r)) = untab blanks ++ (value ++ untab r) := by
      have hvalue := untab_inert hvalue
      simp only [untab, List.filter_append] at hvalue ⊢
      rw [hvalue]
    rw [huntab, ← List.append_assoc, dropSlashes_inert hne hvalue,
      List.takeWhile_append_of_pos hlead, List.takeWhile_append_of_pos hread]
    refine ⟨_, _, by rw [List.append_assoc], fun _ => ?_⟩
    rw [authorityOf, huncut, splitScheme_append (by rw [hclean]; simp), hscheme]
    rfl

/-- Two notifications give a URL the same scheme and authority if the authority is over
before the first value; if it is not, the value is part of it, after all that the lead gives it. -/
theorem url_authority {H : Type} (hosts : HostParser H) (toString : Json → Text) (t : CompiledTemplate)
    (env : Text → Except TemplateErrorKind Text) (n₁ n₂ : Notification) (text₁ text₂ : Text)
    (u₁ u₂ : Record H) (h₁ : t.renderWithEnv toString n₁ env .url = .ok text₁)
    (h₂ : t.renderWithEnv toString n₂ env .url = .ok text₂) (hu₁ : parse hosts text₁ = some u₁)
    (hu₂ : parse hosts text₂ = some u₂) :
    (AuthorityBefore env t → u₁.scheme = u₂.scheme ∧ u₁.authority = u₂.authority) ∧
      (¬ AuthorityBefore env t → ∃ parts, cut text₁ = some parts ∧ InAuthority toString env t n₁ parts.authority) := by
  obtain ⟨hnone, hsome⟩ := renderWithEnv_split h₁ h₂
  obtain ⟨p₁, hp₁, hscheme₁, hauthority₁⟩ := parse_cut hu₁
  obtain ⟨p₂, hp₂, hscheme₂, hauthority₂⟩ := parse_cut hu₂
  constructor
  · intro hbefore
    by_cases hslot : HasSlot t.segments
    · have hpath := renderWithEnv_lead h₁ hslot
      obtain ⟨s₁, s₂, rfl, rfl⟩ := hsome hslot
      obtain ⟨hscheme, hauthority⟩ := cut_authority hpath (hbefore hslot) hp₁ hp₂
      rw [hscheme, hauthority, hauthority₂] at hauthority₁
      exact ⟨by rw [hscheme₁, hscheme₂, hscheme], (Option.some.inj hauthority₁).symm⟩
    · obtain rfl := hnone hslot
      cases hu₁.symm.trans hu₂
      exact ⟨rfl, rfl⟩
  · intro hopen
    obtain ⟨hslot, hopen⟩ := Classical.not_imp.mp hopen
    have hpath := renderWithEnv_lead h₁ hslot
    obtain ⟨r, hr, rfl⟩ := map_ok h₁
    obtain ⟨path, v, rest, hfirst, hv, hout⟩ := render_first hslot hr
    have hcut : cut (leadOf env t.segments ++ (percentEncode (renderValue toString v) ++ rest)) = some p₁ := by
      rw [← hp₁, hout]
      rfl
    obtain ⟨before, after, hauthority, hbegins⟩ := cut_open hpath hopen (percentEncode_inert _) hcut
    exact ⟨p₁, hp₁, path, v, before, after, hfirst, hv, hauthority, hbegins⟩

/-- A host parser that knows names of letters. -/
def sampleHosts : HostParser Text where
  parse _ text := if text.all Char.isAlpha then some (text.map Char.toLower) else none
  isLocalhost host := host = "localhost".toList

def sampleNotification (payload : String) : Notification :=
  ⟨"mars".toList, 1, [], .string payload.toList, none⟩

def compactJson (_ : Json) : Text := []

/-- The environment of the samples: one variable, and it is empty. -/
def sampleEnv (name : Text) : Except TemplateErrorKind Text :=
  if name = "HOST".toList then .ok [] else .error .envNotSet

def hostSource : String := "https://\x7b\x7benv.HOST\x7d\x7d/\x7b\x7bnotification.payload\x7d\x7d"

def hostTemplate : CompiledTemplate :=
  ⟨hostSource.toList,
    [.literal "https://".toList, .envVar "HOST".toList, .literal "/".toList,
      .notificationPath ["payload".toList]]⟩

/-- The host of the template is an empty variable, and the value becomes the host. -/
theorem url_authority_empty_host :
    compile hostSource.toList = .ok hostTemplate ∧
      ∃ u₁ u₂,
        hostTemplate.renderWithEnv compactJson (sampleNotification "a") sampleEnv .url = .ok "https:///a".toList ∧
        hostTemplate.renderWithEnv compactJson (sampleNotification "b") sampleEnv .url = .ok "https:///b".toList ∧
        parse sampleHosts "https:///a".toList = some u₁ ∧ parse sampleHosts "https:///b".toList = some u₂ ∧
        u₁.authority ≠ u₂.authority := by
  refine ⟨by decide +kernel, ⟨"https".toList, ⟨[], [], some (.parsed ['a']), none⟩, .segments [[]], none, none⟩,
    ⟨"https".toList, ⟨[], [], some (.parsed ['b']), none⟩, .segments [[]], none, none⟩, ?_⟩
  decide +kernel

def pathTemplate : CompiledTemplate :=
  ⟨"https://h/\x7b\x7bnotification.payload\x7d\x7d".toList,
    [.literal "https://h/".toList, .notificationPath ["payload".toList]]⟩

theorem pathTemplate_before : AuthorityBefore sampleEnv pathTemplate := by
  intro _ scheme rest port hscheme hkind
  have hsplit : splitScheme (clean "https://h/".toList) = some ("https".toList, "//h/".toList) := by
    decide +kernel
  cases hsplit.symm.trans hscheme
  exact ⟨'/', by decide, rfl⟩

theorem url_authority_path : ∃ u₁ u₂,
    parse sampleHosts "https://h/a".toList = some u₁ ∧ parse sampleHosts "https://h/b".toList = some u₂ ∧
      u₁.authority = u₂.authority := by
  have h₁ : pathTemplate.renderWithEnv compactJson (sampleNotification "a") sampleEnv .url =
      .ok "https://h/a".toList := by
    decide +kernel
  have h₂ : pathTemplate.renderWithEnv compactJson (sampleNotification "b") sampleEnv .url =
      .ok "https://h/b".toList := by
    decide +kernel
  have hparses : (parse sampleHosts "https://h/a".toList).isSome = true ∧
      (parse sampleHosts "https://h/b".toList).isSome = true := by
    decide +kernel
  obtain ⟨u₁, hu₁⟩ := Option.isSome_iff_exists.mp hparses.1
  obtain ⟨u₂, hu₂⟩ := Option.isSome_iff_exists.mp hparses.2
  obtain ⟨hbefore, -⟩ := url_authority sampleHosts compactJson pathTemplate sampleEnv _ _ _ _ u₁ u₂ h₁ h₂ hu₁ hu₂
  exact ⟨u₁, u₂, hu₁, hu₂, (hbefore pathTemplate_before).2⟩

end Aviso.Template
