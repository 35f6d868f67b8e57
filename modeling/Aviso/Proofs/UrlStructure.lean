import Aviso.Proofs.UrlAuthority
import Aviso.Lib.UrlDots

namespace Aviso.Template

open Watch (Notification)
open Lib (spell literal Piece)
open Lib.Url

variable {H : Type} {hosts : HostParser H} {toString : Json → Text}
  {env : Text → Except TemplateErrorKind Text} {t : CompiledTemplate} {n n₁ n₂ : Notification} {text : Text}
  {u u₁ u₂ : Record H}

/-- The values of a notification keep the structure of a URL: no path segment that a
placeholder stands in comes out as a dot segment, or in a file URL as a drive letter, no
sequence of the query that has something written in it comes out empty, and no escape that
the operator's text starts takes in a character of a value or one behind it. -/
def KeepsStructure (toString : Json → Text) (env : Text → Except TemplateErrorKind Text) (t : CompiledTemplate)
    (n : Notification) : Prop :=
  ∀ o parts, outline (slotted env t.segments) = some o →
    cut (spell (fillOf toString n) (slotted env t.segments)) = some parts → Keeps (fillOf toString n) o parts.tail

/-- None of the segments the operator wrote is a dot segment, and the URL is no file URL. -/
def Undotted (o : Outline (List Text)) : Prop :=
  o.kind ≠ .file ∧ ∀ x ∈ o.written, (literal x).bind dotsOf = none

def pathCount : Path → Option Nat
  | .opaqueText _ => none
  | .segments list => some list.length

def parameterCount (u : Record H) : Nat := ((u.query.map parameters).getD []).length

/-- A part of a URL is what its outline says, and is decoded to the operator's text with the
values of a notification in its places. -/
def ShowsValues (toString : Json → Text) (n : Notification) : Slotted (List Text) → Text → Prop :=
  Decodes (bytesAt toString n) (fillOf toString n)

/-- The URLs of two notifications have the path segments, the query, its parameters and the
fragment of one outline, and the parts of each are decoded to its values. -/
structure SameStructure (toString : Json → Text) (o : Outline (List Text)) (n₁ n₂ : Notification)
    (u₁ u₂ : Record H) : Prop where
  first : Shows (ShowsValues toString n₁) o.read u₁
  second : Shows (ShowsValues toString n₂) o.read u₂
  segments : pathCount u₁.path = pathCount u₂.path
  parameters : parameterCount u₁ = parameterCount u₂
  query : u₁.query.isSome = u₂.query.isSome
  fragment : u₁.fragment.isSome = u₂.fragment.isSome

section Counting

variable {R : Slotted (List Text) → Text → Prop} {o : Outline (List Text)}

theorem rel_isSome {α β : Type} {R : α → β → Prop} {a : Option α} {b : Option β} (h : Option.Rel R a b) :
    b.isSome = a.isSome := by
  cases h <;> rfl

def outlineCount : OutlinePath (List Text) → Option Nat
  | .opaqueText _ => none
  | .segments list => some list.length

theorem pathShows_count {path : OutlinePath (List Text)} {read : Path} (h : PathShows R path read) :
    pathCount read = outlineCount path := by
  cases path with
  | opaqueText x =>
    cases read with
    | opaqueText s => rfl
    | segments ss => cases h
  | segments xs =>
    cases read with
    | opaqueText s => cases h
    | segments ss => exact congrArg some h.length_eq.symm

/-- What two URLs show of one outline is as much of it. -/
theorem SameStructure.of_shows (h : Shows (ShowsValues toString n₁) o.read u₁)
    (h' : Shows (ShowsValues toString n₂) o.read u₂) : SameStructure toString o n₁ n₂ u₁ u₂ where
  first := h
  second := h'
  segments := (pathShows_count h.path).trans (pathShows_count h'.path).symm
  parameters := h.parameters.length_eq.symm.trans h'.parameters.length_eq
  query := (rel_isSome h.query).trans (rel_isSome h'.query).symm
  fragment := (rel_isSome h.fragment).trans (rel_isSome h'.fragment).symm

end Counting

section Structure

theorem slotted_settled (h : t.renderWithEnv toString n env .url = .ok text) (hbefore : AuthorityBefore env t) :
    Settled (slotted env t.segments) := by
  intro path hpath
  have hslot : HasSlot t.segments := ⟨path, slot_mem.mp hpath⟩
  rw [leadText_slotted]
  exact ⟨renderWithEnv_lead h hslot, hbefore hslot⟩

/-- The URL of a notification is read as the outline of its template has it. -/
theorem url_outline (h : t.renderWithEnv toString n env .url = .ok text) (hu : parse hosts text = some u)
    (hbefore : AuthorityBefore env t) :
    ∃ o parts, outline (slotted env t.segments) = some o ∧
      cut (spell (fillOf toString n) (slotted env t.segments)) = some parts ∧
      Parsed (fillOf toString n) o parts.tail u := by
  rw [renderWithEnv_spell h] at hu
  exact parse_outline (fillOf_inert toString n) (slotted_settled h hbefore) hu

/-- Two notifications whose values keep the structure of a URL give it the same path
segments, parameters and fragment, and each of these is decoded to the values in it; if the
operator wrote no dot segment, only they do. -/
theorem url_structure {H : Type} (hosts : HostParser H) (toString : Json → Text) (t : CompiledTemplate)
    (env : Text → Except TemplateErrorKind Text) (n₁ n₂ : Notification) (text₁ text₂ : Text)
    (u₁ u₂ : Record H) (h₁ : t.renderWithEnv toString n₁ env .url = .ok text₁)
    (h₂ : t.renderWithEnv toString n₂ env .url = .ok text₂) (hu₁ : parse hosts text₁ = some u₁)
    (hu₂ : parse hosts text₂ = some u₂) (hbefore : AuthorityBefore env t) :
    ∃ o, outline (slotted env t.segments) = some o ∧
      (KeepsStructure toString env t n₁ → KeepsStructure toString env t n₂ →
        SameStructure toString o n₁ n₂ u₁ u₂) ∧
      (Undotted o → SameStructure toString o n₁ n₂ u₁ u₂ →
        KeepsStructure toString env t n₁ ∧ KeepsStructure toString env t n₂) := by
  obtain ⟨o, parts₁, ho, hcut₁, hparsed₁⟩ := url_outline h₁ hu₁ hbefore
  obtain ⟨o₂, parts₂, ho₂, hcut₂, hparsed₂⟩ := url_outline h₂ hu₂ hbefore
  cases ho.symm.trans ho₂
  have hinert (n : Notification) := fillOf_inert toString n
  have hstands (n : Notification) := fillOf_stands toString n
  refine ⟨o, ho, ?_, ?_⟩
  · intro hkeeps₁ hkeeps₂
    exact .of_shows (hparsed₁.shows (hinert n₁) (hstands n₁) (hkeeps₁ o parts₁ ho hcut₁))
      (hparsed₂.shows (hinert n₂) (hstands n₂) (hkeeps₂ o parts₂ ho hcut₂))
  · rintro ⟨hkind, hown⟩ hsame
    constructor
    · intro o' parts ho' hcut
      cases ho.symm.trans ho'
      cases hcut₁.symm.trans hcut
      exact hparsed₁.keeps (hinert n₁) (hstands n₁) hkind hown hsame.first
    · intro o' parts ho' hcut
      cases ho.symm.trans ho'
      cases hcut₂.symm.trans hcut
      exact hparsed₂.keeps (hinert n₂) (hstands n₂) hkind hown hsame.second

/-- The template of `pathTemplate`'s host with a segment before the value. -/
def folderTemplate : CompiledTemplate :=
  ⟨"https://h/a/\x7b\x7bnotification.payload\x7d\x7d".toList,
    [.literal "https://h/a/".toList, .notificationPath ["payload".toList]]⟩

/-- A value of two dots removes the segment before it. -/
theorem url_structure_dots :
    compile folderTemplate.raw = .ok folderTemplate ∧
      ∃ u₁ u₂,
        folderTemplate.renderWithEnv compactJson (sampleNotification "..") sampleEnv .url =
          .ok "https://h/a/%2E%2E".toList ∧
        folderTemplate.renderWithEnv compactJson (sampleNotification "x") sampleEnv .url =
          .ok "https://h/a/x".toList ∧
        parse sampleHosts "https://h/a/%2E%2E".toList = some u₁ ∧
        parse sampleHosts "https://h/a/x".toList = some u₂ ∧
        pathCount u₁.path = some 1 ∧ pathCount u₂.path = some 2 := by
  refine ⟨by decide +kernel, ⟨"https".toList, ⟨[], [], some (.parsed ['h']), none⟩, .segments [[]], none, none⟩,
    ⟨"https".toList, ⟨[], [], some (.parsed ['h']), none⟩, .segments [['a'], ['x']], none, none⟩, ?_⟩
  decide +kernel

theorem pathTemplate_keeps {payload : String} (segment : Text)
    (hcut : cut (spell (fillOf compactJson (sampleNotification payload)) (slotted sampleEnv pathTemplate.segments)) =
      some ⟨"https".toList, .server ['h'], ⟨.segments [segment], none, none⟩⟩)
    (hdots : dotsOf (encode pathSet segment) = none) :
    KeepsStructure compactJson sampleEnv pathTemplate (sampleNotification payload) := by
  intro o parts ho hparts
  have houtline : outline (slotted sampleEnv pathTemplate.segments) =
      some ⟨.server 443, .segments [[.slot ["payload".toList]]], none, none⟩ := by
    decide +kernel
  cases houtline.symm.trans ho
  cases hcut.symm.trans hparts
  refine ⟨?_, ?_, ?_⟩
  · intro pair hpair _
    cases List.mem_singleton.mp hpair
    exact ⟨hdots, nofun⟩
  · intro pair hpair
    cases hpair
  · intro x hx
    cases List.mem_singleton.mp hx
    rfl

theorem url_structure_path : ∃ u₁ u₂,
    parse sampleHosts "https://h/a".toList = some u₁ ∧ parse sampleHosts "https://h/b".toList = some u₂ ∧
      pathCount u₁.path = pathCount u₂.path := by
  have h₁ : pathTemplate.renderWithEnv compactJson (sampleNotification "a") sampleEnv .url =
      .ok "https://h/a".toList := by
    decide +kernel
  have h₂ : pathTemplate.renderWithEnv compactJson (sampleNotification "b") sampleEnv .url =
      .ok "https://h/b".toList := by
    decide +kernel
  have hparses : (parse sampleHosts "https://h/a".toList).isSome = true ∧
      (parse sampleHosts "https://h/b".toList).isSome = true := by
    decide +kernel
  obtain ⟨u₁, hu₁⟩ := Option.isSome_iff_exists.mp hparses.1
  obtain ⟨u₂, hu₂⟩ := Option.isSome_iff_exists.mp hparses.2
  obtain ⟨o, -, hsame, -⟩ := url_structure sampleHosts compactJson pathTemplate sampleEnv _ _ _ _ u₁ u₂ h₁ h₂
    hu₁ hu₂ pathTemplate_before
  exact ⟨u₁, u₂, hu₁, hu₂, (hsame (pathTemplate_keeps ['a'] (by decide +kernel) (by decide +kernel))
    (pathTemplate_keeps ['b'] (by decide +kernel) (by decide +kernel))).segments⟩

end Structure

end Aviso.Template
