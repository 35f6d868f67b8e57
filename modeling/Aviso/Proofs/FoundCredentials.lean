import Aviso.Client.Builder

namespace Aviso.Client

open Watch (ClientError)

/-- Who chose the credential a builder holds. -/
inductive Chosen where
  | named
  | found
  | nobody
  deriving DecidableEq, Repr

/-- The choice a setter makes, if it makes one. -/
def Setter.chooses : Setter π σ κ → Option Chosen
  | .auth _ => some .named
  | .foundAuth _ => some .found
  | .anonymous => some .nobody
  | _ => none

/-- The choice a resolution hands to the builder. -/
def Resolution.chosen (r : Resolution π) : Chosen :=
  match r.codeAuth with
  | some (.named _) => .named
  | some .anonymous => .nobody
  | none => if r.found.isSome then .found else .nobody

/-- Where a builder starts from. -/
inductive Origin (π : Type) where
  | fresh
  | resolution (r : Resolution π)

def Origin.chosen : Origin π → Chosen
  | .fresh => .nobody
  | .resolution r => r.chosen

def Origin.builder (readCaBundle : Text → Except ClientError κ) :
    Origin π → Except ClientError (Builder π σ κ)
  | .fresh => .ok {}
  | .resolution r => Builder.fromResolution readCaBundle r

/-- Who chose last, in a sequence of setters. -/
def chosenAfter (first : Chosen) (calls : List (Setter π σ κ)) : Chosen :=
  calls.foldl (fun chosen call => call.chooses.getD chosen) first

namespace Builder

variable {π σ κ υ η : Type} {b b' : Builder π σ κ}

/-- The record of a found credential is there exactly when it was found. -/
def Records (b : Builder π σ κ) (chosen : Chosen) : Prop :=
  b.authWasFound.isSome ↔ chosen = .found

theorem Records.set (h : b.Records chosen) (call : Setter π σ κ) :
    (b.set call).Records (call.chooses.getD chosen) := by
  cases call with
  | auth | foundAuth | anonymous => simp [Records, Builder.set, Setter.chooses]
  | _ => exact h

theorem Records.sets (h : b.Records chosen) (calls : List (Setter π σ κ)) :
    (b.sets calls).Records (chosenAfter chosen calls) := by
  induction calls generalizing b chosen with
  | nil => exact h
  | cons call calls ih => exact ih (h.set call)

/-- A builder with the address and the record of another. -/
def Agrees (b b' : Builder π σ κ) : Prop :=
  b'.baseUrl = b.baseUrl ∧ b'.authWasFound = b.authWasFound

theorem ofReport_spec (r : Resolution π) :
    (ofReport r : Builder π σ κ).baseUrl = r.rawBaseUrl ∧
      (ofReport r : Builder π σ κ).authWasFound = none := by
  unfold ofReport
  cases r.rawBaseUrl <;> cases r.settings.timeout.value <;>
    cases r.settings.heartbeatInterval.value <;> exact ⟨rfl, rfl⟩

theorem addCertificates_agrees {readCaBundle : Text → Except ClientError κ} {paths : List Text}
    (h : addCertificates readCaBundle paths b = .ok b') : b.Agrees b' := by
  induction paths generalizing b with
  | nil =>
    cases h
    exact ⟨rfl, rfl⟩
  | cons path paths ih =>
    cases hread : readCaBundle path with
    | error e => simp [addCertificates, hread, bind, Except.bind] at h
    | ok certificate =>
      simp only [addCertificates, hread, bind, Except.bind] at h
      have hrest : (b.set (.caBundle certificate)).Agrees b' := ih h
      exact hrest

theorem addCertificates_ok {readCaBundle : Text → Except ClientError κ} {paths : List Text}
    (h : ∀ path ∈ paths, ∃ certificate, readCaBundle path = .ok certificate) (b : Builder π σ κ) :
    ∃ b', addCertificates readCaBundle paths b = .ok b' := by
  induction paths generalizing b with
  | nil => exact ⟨b, rfl⟩
  | cons path paths ih =>
    obtain ⟨certificate, hcertificate⟩ := h path List.mem_cons_self
    obtain ⟨b', hb'⟩ := ih (fun path hpath => h path (List.mem_cons_of_mem _ hpath))
      (b.set (.caBundle certificate))
    exact ⟨b', by simp [addCertificates, bind, Except.bind, hcertificate, hb']⟩

/-- The source of the credential a resolution found, if that is what it hands over. -/
def foundSource (r : Resolution π) : Option CredentialSource :=
  match r.codeAuth with
  | some _ => none
  | none => r.found.map (·.source)

theorem attach_spec (r : Resolution π) (h : b.authWasFound = none) :
    (b.attach r).baseUrl = b.baseUrl ∧ (b.attach r).authWasFound = foundSource r := by
  unfold attach foundSource
  cases r.codeAuth with
  | none =>
    cases r.found with
    | none => exact ⟨rfl, h⟩
    | some found => exact ⟨rfl, rfl⟩
  | some chosen =>
    cases chosen <;> cases r.found <;> exact ⟨rfl, rfl⟩

/-- What a builder made from a resolution knows of the address and the credential. -/
theorem fromResolution_spec {readCaBundle : Text → Except ClientError κ} {r : Resolution π}
    (h : fromResolution readCaBundle r = .ok b) :
    b.baseUrl = r.rawBaseUrl ∧ b.authWasFound = foundSource r := by
  cases hload : addCertificates readCaBundle r.fileSettings.caBundle (ofReport r : Builder π σ κ) with
  | error e => simp [fromResolution, hload, bind, Except.bind] at h
  | ok loaded =>
    obtain ⟨hurl, hfound⟩ := ofReport_spec (π := π) (σ := σ) (κ := κ) r
    obtain ⟨hsameUrl, hsameFound⟩ := addCertificates_agrees hload
    simp only [fromResolution, hload, bind, Except.bind, pure, Except.pure, Except.ok.injEq] at h
    subst h
    split
    · obtain ⟨hattachUrl, hattachFound⟩ := attach_spec (b := loaded.set (.dangerAcceptInvalidCerts true))
        r (hsameFound.trans hfound)
      exact ⟨hattachUrl.trans (hsameUrl.trans hurl), hattachFound⟩
    · obtain ⟨hattachUrl, hattachFound⟩ := attach_spec r (hsameFound.trans hfound)
      exact ⟨hattachUrl.trans (hsameUrl.trans hurl), hattachFound⟩

theorem fromResolution_ok {readCaBundle : Text → Except ClientError κ} {r : Resolution π}
    (h : ∀ path ∈ r.fileSettings.caBundle, ∃ certificate, readCaBundle path = .ok certificate) :
    ∃ b : Builder π σ κ, fromResolution readCaBundle r = .ok b := by
  obtain ⟨loaded, hload⟩ := addCertificates_ok h (ofReport r : Builder π σ κ)
  exact ⟨_, by simp only [fromResolution, hload, bind, Except.bind]; rfl⟩

theorem origin_records {readCaBundle : Text → Except ClientError κ} {origin : Origin π}
    (h : origin.builder readCaBundle = .ok b) : b.Records origin.chosen := by
  cases origin with
  | fresh =>
    cases h
    simp [Records, Origin.chosen]
  | resolution r =>
    obtain ⟨-, hfound⟩ := fromResolution_spec h
    simp only [Records, Origin.chosen, Resolution.chosen, hfound, foundSource]
    cases r.codeAuth with
    | none => cases r.found <;> simp
    | some chosen => cases chosen <;> simp

variable {url : UrlCrate υ} {http : HttpCrate κ η}

/-- A client that was built has no found credential bound for a public plaintext address. -/
theorem build_ok {client : AvisoClient π σ υ η} (h : b.build url http = .ok client) :
    b.authWasFound.isSome → ¬ url.PlainRemote client.baseUrl := by
  unfold build at h
  split at h
  · cases h
  · rename_i raw hraw
    split at h
    · cases h
    · rename_i baseUrl hparse
      split at h
      · cases h
      · split at h
        · cases h
        · rename_i hrefused
          split at h
          · cases h
          · cases h
            intro hfound hplain
            obtain ⟨source, hsource⟩ := Option.isSome_iff_exists.mp hfound
            rw [hsource] at hrefused
            have hpublic := (url.isPublicPlaintext_iff hparse).mpr
              ((url.plainRemote_normalized baseUrl).mp hplain)
            simp [hpublic] at hrefused

/-- A build is refused exactly for a found credential and a public plaintext address. -/
theorem build_refused :
    (∃ m, b.build url http = .error (.auth m)) ↔
      b.authWasFound.isSome ∧ (b.baseUrl.filter url.isPublicPlaintext).isSome := by
  unfold build
  cases hraw : b.baseUrl with
  | none => simp
  | some raw =>
    cases hparse : url.parse raw with
    | error e =>
      have hnot := url.isPublicPlaintext_error hparse
      simp [hparse, hnot]
    | ok baseUrl =>
      have hpublic := url.isPublicPlaintext_iff hparse
      simp only [hparse]
      split
      · rename_i hscheme
        have hnot : url.isPublicPlaintext raw = false := by
          rw [Bool.eq_false_iff]
          intro htrue
          exact hscheme.1 (hpublic.mp htrue).1
        simp [hnot]
      · cases hfound : b.authWasFound with
        | none =>
          simp only [Option.filter_none]
          split <;> simp
        | some source =>
          cases hpriv : url.isPublicPlaintext raw with
          | true => simp [Option.filter, hpriv]
          | false =>
            simp only [Option.filter, hpriv, Bool.false_eq_true, if_false]
            split <;> simp

end Builder

namespace Surroundings

variable {env : Surroundings π} {url : UrlCrate υ}

/-- What a resolution reports of the credential agrees with what it hands over. -/
theorem resolveAuth_spec {inputs : CodeInputs π} {paths : DiscoveryPaths} {baseUrl : Option Text}
    (h : env.resolveAuth url inputs paths baseUrl = .ok (auth, found)) :
    (∃ a, auth = some a ∧ a.refused.isSome) ↔
      (inputs.auth.isNone ∧ found.isSome) ∧ (baseUrl.filter url.isPublicPlaintext).isSome := by
  unfold resolveAuth at h
  cases hauth : inputs.auth with
  | some chosen =>
    rw [hauth] at h
    cases h
    simp
  | none =>
    rw [hauth] at h
    simp only [bind, Except.bind] at h
    split at h
    · cases h
    · split at h
      · cases h
        simp
      · cases h
        simp [Option.isSome_map]

/-- The parts of a resolution that bear on the credential, and where they come from. -/
theorem resolve_spec {inputs : CodeInputs π} {paths : DiscoveryPaths} {envAddress : EnvAddress}
    {r : Resolution π} (h : env.resolve url inputs paths envAddress = .ok r) :
    ∃ searched, env.resolveAuth url inputs searched r.rawBaseUrl = .ok (r.settings.auth, r.found) ∧
      r.codeAuth = inputs.auth := by
  simp only [resolve, bind, Except.bind] at h
  split at h
  · cases h
  · split at h
    · cases h
    · split at h
      · cases h
      · rename_i hresolved
        cases h
        exact ⟨_, hresolved, rfl⟩

end Surroundings

/-- A found credential never leaves for a public plaintext address, a named one
is never refused, and the report of a resolution says which of the two will
happen. -/
theorem found_credential_policy {π σ κ υ η : Type} (url : UrlCrate υ) (http : HttpCrate κ η)
    (readCaBundle : Text → Except ClientError κ) :
    (∀ (origin : Origin π) (calls : List (Setter π σ κ)) (b : Builder π σ κ)
        (client : AvisoClient π σ υ η), origin.builder readCaBundle = .ok b →
      (b.sets calls).build url http = .ok client → chosenAfter origin.chosen calls = .found →
      ¬ url.PlainRemote client.baseUrl) ∧
    (∀ (origin : Origin π) (calls : List (Setter π σ κ)) (b : Builder π σ κ),
      origin.builder readCaBundle = .ok b → chosenAfter origin.chosen calls = .named →
      ∀ message, (b.sets calls).build url http ≠ .error (.auth message)) ∧
    (∀ (env : Surroundings π) (inputs : CodeInputs π) (paths : DiscoveryPaths)
        (envAddress : EnvAddress) (r : Resolution π),
      env.resolve url inputs paths envAddress = .ok r →
      (∀ path ∈ r.fileSettings.caBundle, ∃ certificate, readCaBundle path = .ok certificate) →
      ((∃ auth, r.settings.auth = some auth ∧ auth.refused.isSome) ↔
        ∃ message, (Builder.fromResolution readCaBundle r).bind
          (Builder.build (σ := σ) url http) = .error (.auth message))) := by
  refine ⟨?_, ?_, ?_⟩
  · intro origin calls b client horigin hbuild hchosen
    have hrecords := (Builder.origin_records horigin).sets calls
    exact Builder.build_ok hbuild (hrecords.mpr hchosen)
  · intro origin calls b horigin hchosen message hbuild
    have hrecords := (Builder.origin_records horigin).sets calls
    obtain ⟨hfound, -⟩ := Builder.build_refused.mp ⟨message, hbuild⟩
    have hcontra := hrecords.mp hfound
    rw [hchosen] at hcontra
    cases hcontra
  · intro env inputs paths envAddress r hresolve hcertificates
    obtain ⟨searched, hauth, hcode⟩ := Surroundings.resolve_spec hresolve
    obtain ⟨b, hb⟩ := Builder.fromResolution_ok (σ := σ) hcertificates
    obtain ⟨hurl, hfound⟩ := Builder.fromResolution_spec hb
    have hbuild : (Builder.fromResolution readCaBundle r).bind (Builder.build (σ := σ) url http) =
        b.build url http := by
      rw [hb]
      rfl
    rw [hbuild, Builder.build_refused, hurl, hfound, Surroundings.resolveAuth_spec hauth, ← hcode]
    refine and_congr_left fun _ => ?_
    unfold Builder.foundSource
    cases r.codeAuth <;> simp

structure SampleUrl where
  scheme : Text
  host : Text
  path : Text

/-- The URL library on two addresses of one host. -/
def sampleUrl : UrlCrate SampleUrl where
  parse s :=
    if s = "http://aviso.example".toList then
      .ok ⟨"http".toList, "aviso.example".toList, "/".toList⟩
    else if s = "https://aviso.example".toList then
      .ok ⟨"https".toList, "aviso.example".toList, "/".toList⟩
    else .error "relative URL without a base"
  scheme := (·.scheme)
  host u := some (.domain u.host)
  path := (·.path)
  username _ := []
  password _ := none
  setPath u path := { u with path := path }
  setUsername u _ := some u
  setPassword u _ := some u
  toText u := u.scheme ++ "://".toList ++ u.host ++ u.path
  scheme_lower := by
    intro s u h
    split at h
    · cases h
      decide
    · split at h
      · cases h
        decide
      · cases h
  scheme_setPath := rfl
  host_setPath := rfl

def sampleHttp : HttpCrate Unit Unit := ⟨"2.0.0".toList, fun _ _ _ _ => .ok ()⟩

/-- A machine with a token in its environment and no file. -/
def sampleSurroundings : Surroundings String where
  parse _ _ := .ok .default
  readDefault _ := .ok none
  var _ := .error .notPresent
  envProvider := .ok (some "token")
  configContentProvider _ _ := .ok none
  configFileProvider _ := .ok none
  credentialsFileProvider _ := .ok none
  kind _ := "bearer"

def sampleInputs : CodeInputs String := ⟨some "http://aviso.example".toList, none, none, none, none⟩

/-- A found credential goes to the https address of a host, not to the plain one,
and a named one goes to both. -/
theorem found_credential_policy_sample :
    (∃ client, (Builder.sets ({} : Builder String Unit Unit)
        [.foundAuth ⟨"token", .environment⟩, .baseUrl "https://aviso.example".toList]).build
          sampleUrl sampleHttp = .ok client ∧ ¬ sampleUrl.PlainRemote client.baseUrl) ∧
    (∀ message, (Builder.sets ({} : Builder String Unit Unit)
        [.auth "token", .baseUrl "http://aviso.example".toList]).build sampleUrl sampleHttp ≠
      .error (.auth message)) ∧
    ∃ r, sampleSurroundings.resolve sampleUrl sampleInputs ⟨none, none, none⟩ .read = .ok r ∧
      ∃ message, (Builder.fromResolution (fun _ => .ok ()) r).bind
        (Builder.build (σ := Unit) sampleUrl sampleHttp) = .error (.auth message) := by
  obtain ⟨hfound, hnamed, hreport⟩ :=
    found_credential_policy (π := String) (σ := Unit) sampleUrl sampleHttp fun _ => .ok ()
  have hsent := hfound .fresh
    [.foundAuth ⟨"token", .environment⟩, .baseUrl "https://aviso.example".toList] {} _ rfl rfl rfl
  refine ⟨⟨_, rfl, hsent⟩, ?_, ⟨_, rfl, ?_⟩⟩
  · exact hnamed .fresh [.auth "token", .baseUrl "http://aviso.example".toList] {} rfl rfl
  · have hmarked := hreport sampleSurroundings sampleInputs ⟨none, none, none⟩ .read _ rfl
      (by simp [ClientSettings.default])
    exact hmarked.mp ⟨_, rfl, rfl⟩

end Aviso.Client
