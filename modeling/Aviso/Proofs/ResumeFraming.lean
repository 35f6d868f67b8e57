import Aviso.Lib.Utf8
import Aviso.State.ResumeKey

namespace Aviso.State

theorem writeField_eq (hasher : Hasher) (bytes : List UInt8) :
    writeField hasher bytes = hasher ++ Lib.frame 8 bytes := by
  simp [writeField, Hasher.update, Lib.frame]

theorem writeOptionalField_eq (hasher : Hasher) (bytes : Option (List UInt8)) :
    writeOptionalField hasher bytes = hasher ++ Lib.frameOption 8 bytes := by
  cases bytes with
  | none => rfl
  | some bytes => simp [writeOptionalField, writeField_eq, Hasher.update, Lib.frameOption]

/-- The version and the fields, one frame after the other. -/
theorem hashInput_eq (id : WatchIdentity) (canonicalFilter : Bytes) :
    hashInput id canonicalFilter =
      Lib.leBytes 4 keyFormatVersion ++
        (Lib.frame 8 (asBytes (normalizeBaseUrl id.baseUrl)) ++
          (Lib.frame 8 (asBytes id.eventType) ++
            (Lib.frame 8 canonicalFilter.val ++
              Lib.frameOption 8 (id.schemaFingerprint.map asBytes)))) := by
  simp [hashInput, writeField_eq, writeOptionalField_eq, Hasher.update]

theorem fits_frame {n : Nat} (h : n ≤ usizeMax) : n < 256 ^ 8 := by
  unfold usizeMax at h
  omega

theorem asBytes_injective : Function.Injective asBytes := fun _ _ h => Lib.Utf8.encode_injective h

theorem WatchIdentity.fingerprint_fits (id : WatchIdentity) :
    ∀ bytes ∈ id.schemaFingerprint.map asBytes, bytes.length < 256 ^ 8 := by
  intro bytes hmem
  obtain ⟨text, htext, rfl⟩ := Option.mem_map.mp hmem
  exact fits_frame (id.schemaFingerprint_fits text htext)

/-- The inputs of two identities agree only field by field. -/
theorem hashInput_inj {a b : WatchIdentity} {ca cb : Bytes} (h : hashInput a ca = hashInput b cb) :
    normalizeBaseUrl a.baseUrl = normalizeBaseUrl b.baseUrl ∧ a.eventType = b.eventType ∧
      ca = cb ∧ a.schemaFingerprint = b.schemaFingerprint := by
  rw [hashInput_eq, hashInput_eq] at h
  have h := List.append_cancel_left h
  obtain ⟨hurl, h⟩ := Lib.frame_append_inj (fits_frame a.baseUrl_fits) (fits_frame b.baseUrl_fits) h
  obtain ⟨htype, h⟩ :=
    Lib.frame_append_inj (fits_frame a.eventType_fits) (fits_frame b.eventType_fits) h
  obtain ⟨hfilter, h⟩ := Lib.frame_append_inj (fits_frame ca.property) (fits_frame cb.property) h
  have hprint := Lib.frameOption_inj a.fingerprint_fits b.fingerprint_fits h
  exact ⟨asBytes_injective hurl, asBytes_injective htype, Subtype.ext hfilter,
    Option.map_injective asBytes_injective hprint⟩

/-- Two identities feed the hash the same bytes exactly when their normalised base
URLs, event types, canonical filters and fingerprints agree; so two that differ in
one of these share a key only where the hash collides. -/
theorem resume_key_framing (toVec : Json → Except String Bytes)
    (sha256 : List UInt8 → Vector UInt8 32) (a b : WatchIdentity) (ca cb : Bytes)
    (ha : toVec a.filter = .ok ca) (hb : toVec b.filter = .ok cb) :
    (hashInput a ca = hashInput b cb ↔
      normalizeBaseUrl a.baseUrl = normalizeBaseUrl b.baseUrl ∧ a.eventType = b.eventType ∧
        ca = cb ∧ a.schemaFingerprint = b.schemaFingerprint) ∧
    (ResumeKey.new toVec sha256 a = ResumeKey.new toVec sha256 b →
      (normalizeBaseUrl a.baseUrl = normalizeBaseUrl b.baseUrl ∧ a.eventType = b.eventType ∧
        ca = cb ∧ a.schemaFingerprint = b.schemaFingerprint) ∨
      hashInput a ca ≠ hashInput b cb ∧
        sha256 (hashInput a ca) = sha256 (hashInput b cb)) := by
  have hiff : hashInput a ca = hashInput b cb ↔
      normalizeBaseUrl a.baseUrl = normalizeBaseUrl b.baseUrl ∧ a.eventType = b.eventType ∧
        ca = cb ∧ a.schemaFingerprint = b.schemaFingerprint := by
    refine ⟨hashInput_inj, fun ⟨hurl, htype, hfilter, hprint⟩ => ?_⟩
    rw [hashInput_eq, hashInput_eq, hurl, htype, hfilter, hprint]
  refine ⟨hiff, fun hkey => ?_⟩
  rw [ResumeKey.new, ResumeKey.new, ha, hb] at hkey
  have hdigest : sha256 (hashInput a ca) = sha256 (hashInput b cb) := by
    injection hkey with hkey
    injection hkey
  by_cases hinput : hashInput a ca = hashInput b cb
  · exact .inl (hiff.mp hinput)
  · exact .inr ⟨hinput, hdigest⟩

/-- A watch on the server `https://a/`. -/
def watchOf (eventType : Text) (filter : Json)
    (h : (asBytes eventType).length ≤ usizeMax) : WatchIdentity :=
  ⟨⟨"https".toList, some "a".toList, none, "/".toList⟩, eventType, filter, none,
    by decide, h, by rintro _ ⟨⟩⟩

/-- What the canonical JSON of the empty filter and of a filter on one text is. -/
def smallFilters : Json → Except String Bytes
  | .object [] => .ok ⟨asBytes ['\x7b', '\x7d'], by decide⟩
  | .object [(['_'], .string ['b'])] =>
    .ok ⟨asBytes ['\x7b', '"', '_', '"', ':', '"', 'b', '"', '\x7d'], by decide⟩
  | _ => .error "other filter"

/-- The digests of the two watches below. -/
def twoDigests (input : List UInt8) : Vector UInt8 32 :=
  if input.length = 44 then
    #v[255, 140, 14, 222, 58, 4, 11, 35, 224, 134, 57, 109, 202, 240, 97, 78, 88, 228, 168, 10,
      115, 36, 21, 59, 195, 55, 243, 55, 211, 23, 2, 182]
  else
    #v[154, 194, 242, 165, 234, 141, 240, 200, 86, 55, 56, 154, 172, 79, 99, 232, 200, 200, 44,
      153, 63, 216, 85, 248, 24, 76, 160, 114, 135, 208, 245, 110]

/-- A NUL inside the event type is not taken for the end of a field. -/
theorem resume_key_framing_nul :
    hashInput (watchOf ['a', '\x00', 'b'] (.object []) (by decide))
        ⟨asBytes ['\x7b', '\x7d'], by decide⟩ ≠
      hashInput (watchOf ['a'] (.object [(['_'], .string ['b'])]) (by decide))
        ⟨asBytes ['\x7b', '"', '_', '"', ':', '"', 'b', '"', '\x7d'], by decide⟩ :=
  mt (resume_key_framing smallFilters twoDigests _ _ _ _ rfl rfl).1.mp fun h =>
    absurd h.2.1 (by decide)

end Aviso.State
