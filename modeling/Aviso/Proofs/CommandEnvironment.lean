import Aviso.Proofs.BodyPassthrough
import Aviso.Template.Command
import Mathlib

namespace Aviso.Template

open Watch (Notification TriggerError)

variable {β : Type} {toString : Json → Text} {encode : Notification → Except TriggerError Text} {ofText : Text → β}
  {unicode : β → Option Text} {dir : Text → DirState} {inherited inherited' : Text → Option β}
  {cfg : CommandConfig} {n : Notification} {child : Child β}

section Reading

variable {env env' : Text → Except TemplateErrorKind Text}

/-- A segment looks at the environment for the variable it names, and for nothing else. -/
theorem renderSegment_congr (root : Json) (sink : Sink) (raw : Text) (r : Rendering) {segment : Segment}
    (h : ∀ name, segment = .envVar name → env name = env' name) :
    renderSegment toString root env sink raw r segment = renderSegment toString root env' sink raw r segment := by
  cases segment with
  | envVar name => simp only [renderSegment, h name rfl]
  | literal s => rfl
  | notificationPath path => rfl

theorem renderWithEnv_congr (t : CompiledTemplate) (n : Notification) (sink : Sink)
    (h : ∀ name ∈ t.envNames, env name = env' name) :
    t.renderWithEnv toString n env sink = t.renderWithEnv toString n env' sink := by
  have hsegment : ∀ segment ∈ t.segments, ∀ name, segment = .envVar name → env name = env' name := by
    rintro _ hmem name rfl
    exact h name (List.mem_filterMap.mpr ⟨_, hmem, rfl⟩)
  have hfold : ∀ (segments : List Segment) (r : Rendering),
      (∀ segment ∈ segments, ∀ name, segment = .envVar name → env name = env' name) →
      segments.foldlM (renderSegment toString (toValue n) env sink t.raw) r =
        segments.foldlM (renderSegment toString (toValue n) env' sink t.raw) r := by
    intro segments
    induction segments with
    | nil => exact fun r _ => rfl
    | cons segment segments ih =>
      intro r hall
      rw [List.foldlM_cons, List.foldlM_cons, renderSegment_congr _ _ _ _ (hall segment List.mem_cons_self)]
      refine congrArg _ (funext fun r' => ih r' ?_)
      exact fun segment hmem => hall segment (List.mem_cons_of_mem _ hmem)
  rw [CompiledTemplate.renderWithEnv, CompiledTemplate.renderWithEnv, hfold t.segments .new hsegment]

end Reading

/-- The variables the command template reads by name. -/
def CommandConfig.reads (cfg : CommandConfig) : List Text :=
  match cfg.commandTemplate with
  | .ok template => template.envNames
  | .error _ => []

/-- The variables the operator sets for the child. -/
def CommandConfig.sets (cfg : CommandConfig) : List Text := cfg.env.map Prod.fst

/-- What a spawn needs: the template renders, the working directory is there, and the values encode. -/
structure Prepared (toString : Json → Text) (encode : Notification → Except TriggerError Text) (ofText : Text → β)
    (unicode : β → Option Text) (inherited : Text → Option β) (cfg : CommandConfig) (n : Notification)
    (child : Child β) : Prop where
  command : ∃ template, cfg.commandTemplate = .ok template ∧
    template.renderWithEnv toString n (envVar unicode inherited) .shell = .ok child.command
  env : ∃ injected, envInjection toString encode n = .ok injected ∧
    child.env = Lib.overlay inherited (envChanges ofText injected (credentialVars ++ cfg.reads) cfg.env)
  workingDir : child.workingDir = cfg.workingDir

theorem mapError_ok {ε ε' α : Type} {f : ε → ε'} {x : Except ε α} {a : α} (h : x.mapError f = .ok a) : x = .ok a := by
  cases x with
  | error e => cases h
  | ok b => exact congrArg Except.ok (Except.ok.inj h)

theorem prepareCommand_ok (h : prepareCommand toString encode ofText unicode dir inherited cfg n = .ok child) :
    Prepared toString encode ofText unicode inherited cfg n child := by
  unfold prepareCommand at h
  cases htemplate : cfg.commandTemplate with
  | error e => simp [htemplate] at h
  | ok template =>
    simp only [htemplate] at h
    obtain ⟨command, hcommand, h⟩ := bind_ok h
    obtain ⟨-, -, h⟩ := bind_ok h
    obtain ⟨injected, hinjected, h⟩ := bind_ok h
    cases h
    refine ⟨⟨template, htemplate, mapError_ok hcommand⟩, ⟨injected, hinjected, ?_⟩, rfl⟩
    rw [show cfg.reads = template.envNames by rw [CommandConfig.reads, htemplate]]

variable (ofText) in
theorem keys_own (own : List (Text × Text)) :
    (own.map fun (k, v) => (k, some (ofText v))).map Prod.fst = own.map Prod.fst := by
  simp [Function.comp_def]

theorem mem_changes (injected : List (Text × Text)) (removed : List Text) (own : List (Text × Text)) (name : Text) :
    name ∈ (envChanges ofText injected removed own).map Prod.fst ↔
      name ∈ injected.map Prod.fst ∨ name ∈ removed ∨ name ∈ own.map Prod.fst := by
  simp [envChanges, Function.comp_def]

/-- What the operator sets decides, then what is removed, then what is injected. -/
theorem childEnv_own (injected : List (Text × Text)) (removed : List Text) (own : List (Text × Text))
    (hname : name ∈ own.map Prod.fst) (base : Text → Option β) :
    Lib.overlay inherited (envChanges ofText injected removed own) name =
      Lib.overlay base (own.map fun (k, v) => (k, some (ofText v))) name := by
  rw [envChanges, Lib.overlay_append]
  exact Lib.overlay_of_mem _ _ (by rwa [keys_own])

theorem childEnv_removed (injected : List (Text × Text)) (removed : List Text) (own : List (Text × Text))
    (hname : name ∈ removed) (hown : name ∉ own.map Prod.fst) :
    Lib.overlay inherited (envChanges ofText injected removed own) name = none := by
  rw [envChanges, Lib.overlay_append, Lib.overlay_of_not_mem (by rwa [keys_own]), Lib.overlay_append]
  exact Lib.overlay_removed _ hname

theorem childEnv_injected (injected : List (Text × Text)) (removed : List Text) (own : List (Text × Text))
    (hname : name ∉ removed) (hown : name ∉ own.map Prod.fst) :
    Lib.overlay inherited (envChanges ofText injected removed own) name =
      Lib.overlay inherited (injected.map fun (k, v) => (k, some (ofText v))) name := by
  have hremoved : name ∉ (removed.map fun name => (name, (none : Option β))).map Prod.fst := by
    simpa [Function.comp_def] using hname
  rw [envChanges, Lib.overlay_append, Lib.overlay_of_not_mem (by rwa [keys_own]), Lib.overlay_append,
    Lib.overlay_of_not_mem hremoved]

section Secrecy

variable (toString encode ofText unicode dir cfg) in
/-- What a command trigger keeps to itself: the child sees neither the listener's credentials nor a
variable the template read by name, unless the operator sets it; and nothing of the dispatch, the
command included, depends on a credential that the template does not read. -/
structure Secretive : Prop where
  hidden : ∀ inherited n child, prepareCommand toString encode ofText unicode dir inherited cfg n = .ok child →
    ∀ name ∈ credentialVars ++ cfg.reads, name ∉ cfg.sets → child.env name = none
  blind : ∀ inherited inherited' : Text → Option β,
    (∀ name, name ∉ credentialVars ∨ name ∈ cfg.reads → inherited name = inherited' name) →
    ∀ n, prepareCommand toString encode ofText unicode dir inherited cfg n =
      prepareCommand toString encode ofText unicode dir inherited' cfg n

theorem command_secrecy (toString : Json → Text) (encode : Notification → Except TriggerError Text)
    (ofText : Text → β) (unicode : β → Option Text) (dir : Text → DirState) (cfg : CommandConfig) :
    Secretive toString encode ofText unicode dir cfg where
  hidden := by
    intro inherited n child h name hname hown
    obtain ⟨injected, -, henv⟩ := (prepareCommand_ok h).env
    rw [henv]
    exact childEnv_removed injected _ _ hname hown
  blind := by
    intro inherited inherited' hagree n
    unfold prepareCommand
    cases htemplate : cfg.commandTemplate with
    | error e => rfl
    | ok template =>
      have hreads : cfg.reads = template.envNames := by simp [CommandConfig.reads, htemplate]
      have hrendered : template.renderWithEnv toString n (envVar unicode inherited) .shell =
          template.renderWithEnv toString n (envVar unicode inherited') .shell := by
        apply renderWithEnv_congr
        intro name hname
        rw [envVar, envVar, hagree name (.inr (hreads ▸ hname))]
      have henv (injected : List (Text × Text)) :
          Lib.overlay inherited (envChanges ofText injected (credentialVars ++ template.envNames) cfg.env) =
            Lib.overlay inherited' (envChanges ofText injected (credentialVars ++ template.envNames) cfg.env) := by
        apply Lib.overlay_congr
        intro name hname
        rw [mem_changes] at hname
        refine hagree name (.inl ?_)
        exact fun hmem => hname (.inr (.inl (List.mem_append_left _ hmem)))
      simp only [hrendered, henv]

end Secrecy

section Integrity

/-- A character of the name of an injected variable. -/
def Plain (c : Char) : Prop := c.isUpper = true ∨ c.isDigit = true ∨ c = '_'

/-- A variable the dispatcher injects. -/
def Injectable (name : Text) : Prop :=
  name ∈ ["AVISO_EVENT_TYPE".toList, "AVISO_SEQUENCE".toList, "AVISO_PAYLOAD_JSON".toList,
    "AVISO_NOTIFICATION_JSON".toList] ∨ ∃ key, name = identifierVar key

theorem injectable_of_mem (h : envInjection toString encode n = .ok injected) (hname : name ∈ injected.map Prod.fst) :
    Injectable name := by
  obtain ⟨json, -, h⟩ := bind_ok h
  cases h
  simp only [List.map_append, List.map_cons, List.map_nil, List.map_map, List.mem_append, List.mem_cons,
    List.not_mem_nil, or_false] at hname
  rcases hname with ((rfl | rfl) | hidentifier) | rfl | rfl
  · exact .inl (by simp)
  · exact .inl (by simp)
  · obtain ⟨entry, -, rfl⟩ := List.mem_map.mp hidentifier
    exact .inr ⟨entry.1, rfl⟩
  · exact .inl (by simp)
  · exact .inl (by simp)

theorem plain_of_isAlphanum {c : Char} (h : c.isAlphanum = true) : c.toUpper.isUpper = true ∨ c.toUpper.isDigit = true := by
  cases halpha : c.isAlpha with
  | true => exact .inl (c.isUpper_toUpper_eq_isAlpha.trans halpha)
  | false =>
    have hlower : ¬c.isLower = true := by
      intro hlower
      exact Bool.false_ne_true (halpha.symm.trans (Bool.or_eq_true_iff.mpr (.inr hlower)))
    rw [Char.toUpper_eq_of_not_isLower hlower]
    exact .inr ((Bool.or_eq_true_iff.mp h).resolve_left (by simp [halpha]))

theorem normalizeKey_plain (k : Text) : ∀ c ∈ normalizeKey k, Plain c := by
  intro c hc
  obtain ⟨d, -, rfl⟩ := List.mem_map.mp hc
  split
  · rcases plain_of_isAlphanum ‹_› with hupper | hdigit
    · exact .inl hupper
    · exact .inr (.inl hdigit)
  · exact .inr (.inr rfl)

theorem identifierVar_starts (k : Text) : "AVISO_I".toList <+: identifierVar k :=
  List.IsPrefix.trans (by decide) (List.prefix_append "AVISO_IDENTIFIER_".toList _)

theorem identifierVar_ne (h : ¬"AVISO_I".toList <+: name) (key : Text) : identifierVar key ≠ name := by
  rintro rfl
  exact h (identifierVar_starts key)

theorem not_mem_rest (identifier : List (Text × Json)) (h : ∀ entry ∈ identifier, identifierVar entry.1 ≠ name)
    {rest : List (Text × Text)} (hrest : name ∉ rest.map Prod.fst) :
    name ∉ (identifier.map (fun (k, v) => (identifierVar k, injectedValue toString v)) ++ rest).map Prod.fst := by
  rw [List.map_append, List.mem_append, not_or, List.map_map]
  refine ⟨?_, hrest⟩
  intro hmem
  obtain ⟨entry, hentry, heq⟩ := List.mem_map.mp hmem
  exact h entry hentry heq

theorem injectable_plain (h : Injectable name) :
    "AVISO_".toList <+: name ∧ (∀ c ∈ name, Plain c) ∧ name ∉ credentialVars := by
  rcases h with hfixed | ⟨key, rfl⟩
  · simp only [List.mem_cons, List.not_mem_nil, or_false] at hfixed
    rcases hfixed with rfl | rfl | rfl | rfl <;>
      exact ⟨by decide, by simp [Plain], by decide⟩
  · refine ⟨List.IsPrefix.trans (by decide) (identifierVar_starts key), ?_, ?_⟩
    · have hprefix : ∀ c ∈ "AVISO_IDENTIFIER_".toList, Plain c := by simp [Plain]
      intro c hc
      rcases List.mem_append.mp hc with hc | hc
      · exact hprefix c hc
      · exact normalizeKey_plain key c hc
    · have hne : ∀ name ∈ credentialVars, ¬"AVISO_I".toList <+: name := by decide
      exact fun hmem => hne _ hmem (identifierVar_starts key)

/-- The last injection of a variable is what the child reads. -/
theorem childEnv_last {injected later : List (Text × Text)} {value : Text} (before : List (Text × Text))
    (hsplit : injected = before ++ (name, value) :: later) (hlater : name ∉ later.map Prod.fst)
    {removed : List Text} (hname : name ∉ removed) {own : List (Text × Text)} (hown : name ∉ own.map Prod.fst) :
    Lib.overlay inherited (envChanges ofText injected removed own) name = some (ofText value) := by
  rw [childEnv_injected injected removed own hname hown, hsplit, List.map_append, List.map_cons]
  exact Lib.overlay_last _ _ (by simpa [Function.comp_def] using hlater)

variable (toString encode ofText unicode dir cfg) in
/-- What a notification can do to a command: its line is the template rendered for shell, and it runs where
the operator says. Of its environment a notification decides the injected variables and no other, their
names are plain and none is a credential's, and unless the operator or the template takes a name away
the child reads the notification's own values under it. -/
structure Contained : Prop where
  rendered : ∀ inherited n child, prepareCommand toString encode ofText unicode dir inherited cfg n = .ok child →
    ∃ template, cfg.commandTemplate = .ok template ∧
      template.renderWithEnv toString n (envVar unicode inherited) .shell = .ok child.command
  located : ∀ inherited n child, prepareCommand toString encode ofText unicode dir inherited cfg n = .ok child →
    child.workingDir = cfg.workingDir
  kept : ∀ inherited n n' child child', prepareCommand toString encode ofText unicode dir inherited cfg n = .ok child →
    prepareCommand toString encode ofText unicode dir inherited cfg n' = .ok child' →
    ∀ name, ¬Injectable name ∨ name ∈ cfg.sets → child.env name = child'.env name
  plain : ∀ name, Injectable name → "AVISO_".toList <+: name ∧ (∀ c ∈ name, Plain c) ∧ name ∉ credentialVars
  fixed : ∀ inherited n child, prepareCommand toString encode ofText unicode dir inherited cfg n = .ok child →
    ∀ json, encode n = .ok json → ∀ name value, (name, value) ∈ [("AVISO_EVENT_TYPE".toList, n.eventType),
      ("AVISO_SEQUENCE".toList, (Nat.repr n.sequence).toList), ("AVISO_PAYLOAD_JSON".toList, toString n.payload),
      ("AVISO_NOTIFICATION_JSON".toList, json)] →
    name ∉ cfg.reads → name ∉ cfg.sets → child.env name = some (ofText value)
  shown : ∀ inherited n child, prepareCommand toString encode ofText unicode dir inherited cfg n = .ok child →
    ∀ before key value later, n.identifier = before ++ (key, value) :: later →
    (∀ entry ∈ later, normalizeKey entry.1 ≠ normalizeKey key) →
    identifierVar key ∉ cfg.reads → identifierVar key ∉ cfg.sets →
    child.env (identifierVar key) = some (ofText (injectedValue toString value))

theorem command_integrity (toString : Json → Text) (encode : Notification → Except TriggerError Text)
    (ofText : Text → β) (unicode : β → Option Text) (dir : Text → DirState) (cfg : CommandConfig) :
    Contained toString encode ofText unicode dir cfg where
  rendered := fun _ _ _ h => (prepareCommand_ok h).command
  located := fun _ _ _ h => (prepareCommand_ok h).workingDir
  kept := by
    intro inherited n n' child child' h h' name hname
    obtain ⟨injected, hinjected, henv⟩ := (prepareCommand_ok h).env
    obtain ⟨injected', hinjected', henv'⟩ := (prepareCommand_ok h').env
    rw [henv, henv']
    by_cases hown : name ∈ cfg.sets
    · exact (childEnv_own injected _ _ hown inherited).trans (childEnv_own injected' _ _ hown inherited).symm
    have hforeign := hname.resolve_right hown
    by_cases hremoved : name ∈ credentialVars ++ cfg.reads
    · exact (childEnv_removed injected _ _ hremoved hown).trans (childEnv_removed injected' _ _ hremoved hown).symm
    have huntouched {injected : List (Text × Text)} {n : Notification}
        (hinjected : envInjection toString encode n = .ok injected) :
        Lib.overlay inherited (envChanges ofText injected (credentialVars ++ cfg.reads) cfg.env) name = inherited name := by
      apply Lib.overlay_of_not_mem
      rw [mem_changes]
      rintro (hmem | hmem | hmem)
      · exact hforeign (injectable_of_mem hinjected hmem)
      · exact hremoved hmem
      · exact hown hmem
    exact (huntouched hinjected).trans (huntouched hinjected').symm
  plain := fun name h => injectable_plain h
  fixed := by
    intro inherited n child h json hjson name value hvalue hreads hown
    obtain ⟨injected, hinjected, henv⟩ := (prepareCommand_ok h).env
    obtain ⟨_, hencoded, hinjected⟩ := bind_ok hinjected
    cases hinjected
    cases hjson.symm.trans hencoded
    have hremoved : name ∉ credentialVars ++ cfg.reads := by
      have hinjectable : Injectable name := by
        left
        simp only [List.mem_cons, Prod.mk.injEq, List.not_mem_nil, or_false] at hvalue
        rcases hvalue with ⟨rfl, -⟩ | ⟨rfl, -⟩ | ⟨rfl, -⟩ | ⟨rfl, -⟩ <;> simp
      rw [List.mem_append, not_or]
      exact ⟨(injectable_plain hinjectable).2.2, hreads⟩
    rw [henv]
    have hkeys (h : ¬"AVISO_I".toList <+: name) : ∀ entry ∈ n.identifier, identifierVar entry.1 ≠ name :=
      fun entry _ => identifierVar_ne h entry.1
    simp only [List.mem_cons, Prod.mk.injEq, List.not_mem_nil, or_false] at hvalue
    rcases hvalue with ⟨rfl, rfl⟩ | ⟨rfl, rfl⟩ | ⟨rfl, rfl⟩ | ⟨rfl, rfl⟩
    · refine childEnv_last [] rfl (List.not_mem_cons_of_ne_of_not_mem (by simp) ?_) hremoved hown
      exact not_mem_rest n.identifier (hkeys (by decide)) (by simp)
    · exact childEnv_last [_] rfl (not_mem_rest n.identifier (hkeys (by decide)) (by simp)) hremoved hown
    · exact childEnv_last (_ :: _ :: _) rfl (by simp) hremoved hown
    · refine childEnv_last _ (List.append_cons ..) ?_ hremoved hown
      simp
  shown := by
    intro inherited n child h before key value later hidentifier hlast hreads hown
    obtain ⟨injected, hinjected, henv⟩ := (prepareCommand_ok h).env
    obtain ⟨json, -, hinjected⟩ := bind_ok hinjected
    cases hinjected
    have hremoved : identifierVar key ∉ credentialVars ++ cfg.reads := by
      rw [List.mem_append, not_or]
      exact ⟨(injectable_plain (.inr ⟨key, rfl⟩)).2.2, hreads⟩
    rw [henv, hidentifier, List.map_append, List.map_cons, ← List.append_assoc, List.append_assoc, List.cons_append]
    refine childEnv_last _ rfl (not_mem_rest later ?_ ?_) hremoved hown
    · intro entry hentry heq
      exact hlast entry hentry (List.append_cancel_left heq)
    · simp only [List.map_cons, List.map_nil, List.mem_cons, List.not_mem_nil, or_false, not_or]
      exact ⟨identifierVar_ne (by decide) key, identifierVar_ne (by decide) key⟩

end Integrity

end Aviso.Template
