import Aviso.Template.Webhook

namespace Aviso.Template

open Watch (Notification TriggerError)

variable {template buf rest : Text} {segments : List Segment}

/-- A text that does not start with an opener. -/
def Unopened (text : Text) : Prop := ∀ chars, text ≠ '\x7b' :: '\x7b' :: chars

theorem escaped_brace {s chars : Text} (h : escaped s = '\x7b' :: chars) : ∃ rest, s = '\x7b' :: rest := by
  cases s with
  | nil => cases h
  | cons c rest =>
    by_cases hopener : ∃ more, c :: rest = '\x7b' :: '\x7b' :: more
    · obtain ⟨more, hmore⟩ := hopener
      exact ⟨'\x7b' :: more, hmore⟩
    · rw [escaped] at h
      · exact ⟨rest, by rw [(List.cons.inj h).1]⟩
      · exact fun more hc hrest => hopener ⟨more, by rw [hc, hrest]⟩

/-- No opener is left where it would be read as one. -/
theorem escaped_unopened (s : Text) : Unopened (escaped s) := by
  intro chars h
  fun_cases escaped s with
  | case1 rest => cases h
  | case2 c rest hopener =>
    rw [escaped] at h
    · obtain ⟨hc, hrest⟩ := List.cons.inj h
      obtain ⟨more, hmore⟩ := escaped_brace hrest
      exact hopener more hc hmore
    · exact hopener
  | case3 => cases h

/-- A backslash that no opener follows is a literal one. -/
theorem compileFrom_backslash (h : Unopened rest) :
    compileFrom template segments buf none ('\\' :: rest) =
      compileFrom template segments (buf ++ ['\\']) none rest := by
  by_cases hbrace : ∃ more, rest = '\x7b' :: more
  · obtain ⟨more, rfl⟩ := hbrace
    have hmore (chars : Text) : more ≠ '\x7b' :: chars := fun hchars => h chars (by rw [hchars])
    rw [compileFrom, compileFrom]
    · rw [List.append_assoc]
      rfl
    all_goals simp [hmore]
  · rw [compileFrom]
    all_goals
      intro chars _ hrest
      exact hbrace ⟨_, hrest⟩

/-- The scanner undoes the escaping. -/
theorem compileFrom_escaped (s : Text) :
    compileFrom template segments buf none (escaped s) = .ok (segments ++ flush (buf ++ s)) := by
  fun_induction escaped s generalizing buf with
  | case1 rest ih =>
    rw [compileFrom, ih, List.append_assoc]
    rfl
  | case2 c rest hopener ih =>
    by_cases hc : c = '\\'
    · subst hc
      rw [compileFrom_backslash (escaped_unopened rest), ih, List.append_assoc]
      rfl
    · rw [compileFrom, ih, List.append_assoc]
      · rfl
      · exact fun chars hslash _ => hc hslash
      · exact fun chars hslash _ => hc hslash
      · intro chars hbrace hrest
        obtain ⟨more, hmore⟩ := escaped_brace hrest
        exact hopener more hbrace hmore
  | case3 => rw [compileFrom, List.append_nil]

theorem compile_escaped (s : Text) : compile (escaped s) = .ok ⟨escaped s, flush s⟩ := by
  rw [compile, compileFrom_escaped]
  rfl

/-- A body is sent as it is, whatever is written in it. -/
theorem body_passthrough (toString : Json → Text) (s : Text) (n : Notification)
    (env : Text → Except TemplateErrorKind Text) :
    ∃ t, compile (escaped s) = .ok t ∧ t.renderWithEnv toString n env .raw = .ok s := by
  refine ⟨⟨escaped s, flush s⟩, compile_escaped s, ?_⟩
  cases s with
  | nil => rfl
  | cons c s => rfl

theorem bind_ok {ε α β : Type} {x : Except ε α} {f : α → Except ε β} {b : β} (h : x >>= f = .ok b) :
    ∃ a, x = .ok a ∧ f a = .ok b := by
  cases x with
  | error e => cases h
  | ok a => exact ⟨a, rfl, h⟩

/-- The body of a synthesised webhook is rendered to what the trigger built. -/
theorem renderPart_escaped (toString : Json → Text) (s : Text) (n : Notification)
    (env : Text → Except TemplateErrorKind Text) :
    renderPart toString n env .raw (compile (escaped s)) = .ok s := by
  rw [compile_escaped]
  cases s with
  | nil => rfl
  | cons c s => rfl

/-- Whatever else of it is rendered, a Teams or a post webhook carries the body it was
made with. -/
theorem synthesised_body {toString : Json → Text} {n : Notification} {env : Text → Except TemplateErrorKind Text}
    {encode : Notification → Except TriggerError Text} {cfg : WebhookConfig} {s : Text} {r : RenderedWebhook}
    (hcfg : (∃ teams : TeamsConfig, cfg = teams.synthesiseWebhookConfig s) ∨
      ∃ post : PostConfig, cfg = post.synthesiseWebhookConfig s)
    (h : renderWebhookParts toString n env encode cfg = .ok r) : r.body = s := by
  have hbody : cfg.bodyTemplate = some (compile (escaped s)) := by
    rcases hcfg with ⟨teams, rfl⟩ | ⟨post, rfl⟩ <;> rfl
  unfold renderWebhookParts at h
  obtain ⟨url, -, h⟩ := bind_ok h
  obtain ⟨headers, -, h⟩ := bind_ok h
  rw [hbody] at h
  obtain ⟨body, hrendered, h⟩ := bind_ok h
  cases (renderPart_escaped toString s n env).symm.trans hrendered
  cases h
  rfl

end Aviso.Template
