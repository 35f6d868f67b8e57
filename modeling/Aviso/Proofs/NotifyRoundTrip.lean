import Aviso.Proofs.CompactJson

namespace Aviso.Cli
open Aviso.Template Aviso.Json

/-- `serde_json::from_str` with its recursion limit of 128. -/
structure JsonReader where
  fromStr : Text → Except JsonError Json
  limit : fromStr text = .ok v → v.depth ≤ 128

/-- A non-empty event type without commas, quotes, brackets, braces and outer white space. -/
structure IsEventType (t : Text) : Prop where
  nonempty : t ≠ []
  plain : ∀ c ∈ t, marks.Plain c
  trimmed : trim t = t

/-- An identifier key: as an event type, without `=` and `:`, and not reserved. -/
structure IsIdentifierKey (key : Text) : Prop extends IsEventType key where
  unreserved : key ≠ "event".toList ∧ key ≠ "data".toList
  noSign : '=' ∉ key ∧ ':' ∉ key

/-- What one `notify` sends. -/
structure NotifyParameters where
  eventType : Text
  identifier : Lib.Table Text Json
  payload : Option Json
  eventType_ok : IsEventType eventType
  keys_ok : ∀ e ∈ identifier.entries, IsIdentifierKey e.1
  values_ok : ∀ e ∈ identifier.entries, e.2.WellFormed
  payload_ok : ∀ v ∈ payload, v.WellFormed

/-- One parameter of the command line. -/
inductive Parameter where
  | event (eventType : Text)
  | identifier (key : Text) (v : Json)
  | data (v : Json)

namespace Parameter

def key : Parameter → Text
  | .event _ => "event".toList
  | .identifier key _ => key
  | .data _ => "data".toList

/-- Whether the parameter is written with `:=`. Identifiers are, except the arrays
and objects among those for which `plain` asks otherwise. -/
def explicit (plain : Text → Bool) : Parameter → Bool
  | .identifier key v => !(plain key && v.isStructured)
  | _ => false

def value : Parameter → Text
  | .event eventType => eventType
  | .identifier _ v | .data v => compact v

def text (plain : Text → Bool) (p : Parameter) : Text :=
  p.key ++ ((if p.explicit plain then [':'] else []) ++ ('=' :: p.value))

def entry (plain : Text → Bool) (p : Parameter) : Entry := (p.key, p.value, p.explicit plain)

/-- The JSON value of a parameter. -/
def json : Parameter → Option Json
  | .event _ => none
  | .identifier _ v | .data v => some v

end Parameter

def NotifyParameters.parameters (r : NotifyParameters) : List Parameter :=
  .event r.eventType :: (r.identifier.entries.map (fun e => .identifier e.1 e.2) ++
    (r.payload.map .data).toList)

/-- A key that `push_kv` reads back, however its value is written. -/
structure Cuttable (key : Text) : Prop where
  tight : Tight key
  plain : ∀ c ∈ key, marks.Plain c
  noSign : '=' ∉ key ∧ ':' ∉ key

theorem cuttable_event : Cuttable "event".toList :=
  ⟨tight_of_trim (by decide) rfl, plain_of_all rfl, by decide⟩

theorem cuttable_data : Cuttable "data".toList :=
  ⟨tight_of_trim (by decide) rfl, plain_of_all rfl, by decide⟩

theorem IsIdentifierKey.cuttable (h : IsIdentifierKey key) : Cuttable key :=
  ⟨tight_of_trim h.nonempty h.trimmed, h.plain, h.noSign⟩

/-- What each parameter of a `notify` is known to be. -/
structure Parameter.Valid (p : Parameter) : Prop where
  key : Cuttable p.key
  value : Tight p.value
  field : (∀ v ∈ p.json, v.depth ≤ 128) → Field p.value

theorem field_compact (v : Json) (h : v.WellFormed) (hdepth : v.depth ≤ 128) :
    Field (compact v) :=
  (compact_balanced v h).deepen (hdepth.trans (by decide))

theorem NotifyParameters.valid (r : NotifyParameters) : ∀ p ∈ r.parameters, p.Valid := by
  intro p hp
  rcases List.mem_cons.mp hp with rfl | hp
  · exact ⟨cuttable_event, tight_of_trim r.eventType_ok.nonempty r.eventType_ok.trimmed,
      fun _ => Lib.Marks.balanced_of_plain r.eventType_ok.plain⟩
  · rcases List.mem_append.mp hp with hp | hp
    · obtain ⟨e, he, rfl⟩ := List.mem_map.mp hp
      have hwell := r.values_ok e he
      exact ⟨(r.keys_ok e he).cuttable, tight_compact e.2 hwell,
        fun hdepth => field_compact e.2 hwell (hdepth e.2 rfl)⟩
    · obtain ⟨v, hv, rfl⟩ := Option.mem_map.mp (Option.mem_toList.mp hp)
      have hwell := r.payload_ok v hv
      exact ⟨cuttable_data, tight_compact v hwell,
        fun hdepth => field_compact v hwell (hdepth v rfl)⟩

namespace Parameter

variable {p : Parameter}

theorem Valid.text_field (h : p.Valid) (hdepth : ∀ v ∈ p.json, v.depth ≤ 128) (plain : Text → Bool) :
    Field (p.text plain) := by
  have hcolon : marks.Plain ':' := by decide
  have hequals : marks.Plain '=' := by decide
  refine (Lib.Marks.balanced_of_plain h.key.plain).append ?_
  have hvalue := Lib.Marks.Balanced.plain hequals (h.field hdepth)
  cases p.explicit plain with
  | true => exact .plain hcolon hvalue
  | false => exact hvalue

/-- The key, the value and the sign between them, as `push_kv` reads them. -/
theorem Valid.pushKv (h : p.Valid) (plain : Text → Bool) (out : List Entry) :
    Cli.pushKv out (p.text plain) = .ok (out ++ [p.entry plain]) := by
  generalize hexplicit : p.explicit plain = explicit
  generalize hbefore : p.key ++ (if explicit then [':'] else []) = before
  have htext : p.text plain = before ++ '=' :: p.value := by
    rw [text, hexplicit, ← hbefore, List.append_assoc]
  have hfree : '=' ∉ before := by
    rw [← hbefore]
    cases explicit <;> simp [h.key.noSign.1]
  have hcolon : (before.getLast? == some ':') = explicit := by
    rw [← hbefore]
    cases explicit with
    | true => simp
    | false =>
      have hlast : p.key.getLast? ≠ some ':' := fun hc =>
        h.key.noSign.2 (List.mem_of_getLast? hc)
      simp [hlast]
  have hkey : (if explicit then before.dropLast else before) = p.key := by
    rw [← hbefore]
    cases explicit <;> simp
  have htrim : trim (p.text plain) = p.text plain := by
    have hjoined := h.key.tight.join h.value ((if explicit then [':'] else []) ++ ['='])
    rw [text, hexplicit]
    simpa using hjoined.trim
  have htake : (p.text plain).takeWhile (· ≠ '=') = before := by
    rw [htext, List.takeWhile_append_of_pos, List.takeWhile_cons_of_neg (by simp), List.append_nil]
    intro c hc
    simpa using fun hsign : c = '=' => hfree (hsign ▸ hc)
  have hdrop : (p.text plain).dropWhile (· ≠ '=') = '=' :: p.value := by
    rw [htext, List.dropWhile_append_of_pos, List.dropWhile_cons_of_neg (by simp)]
    intro c hc
    simpa using fun hsign : c = '=' => hfree (hsign ▸ hc)
  have hne : (p.text plain).isEmpty = false := by simp [htext]
  have hmem : '=' ∈ p.text plain := by simp [htext]
  have hkeyne : p.key.isEmpty = false := by simpa using h.key.tight.nonempty
  simp only [Cli.pushKv, htrim, htake, hdrop, hcolon, hkey, h.key.tight.trim, hkeyne]
  simp [hne, hmem, entry, hexplicit]

theorem explicit_or_structured (plain : Text → Bool) (key : Text) (v : Json) :
    (Parameter.identifier key v).explicit plain = true ∨ v.isStructured = true := by
  cases hstructured : v.isStructured with
  | true => exact .inr rfl
  | false => exact .inl (by simp [explicit, hstructured])

end Parameter

/-- Cutting the joined parameters gives back their entries, in their order. -/
theorem splitParameters_text (plain : Text → Bool) {order : List Parameter}
    (hvalid : ∀ p ∈ order, p.Valid) (hdepth : ∀ p ∈ order, ∀ v ∈ p.json, v.depth ≤ 128) :
    splitParameters (List.intercalate [','] (order.map (·.text plain))) =
      .ok (order.map (·.entry plain)) := by
  have hfields : ∀ t ∈ order.map (·.text plain), Field t := by
    intro t ht
    obtain ⟨p, hp, rfl⟩ := List.mem_map.mp ht
    exact (hvalid p hp).text_field (hdepth p hp) plain
  have hpush : ∀ out, (order.map (·.text plain)).foldlM pushKv out =
      .ok (out ++ order.map (·.entry plain)) := by
    clear hfields hdepth
    induction order with
    | nil =>
      intro out
      rw [List.map_nil, List.map_nil, List.append_nil]
      rfl
    | cons p order ih =>
      intro out
      rw [List.map_cons, List.foldlM_cons, (hvalid p List.mem_cons_self).pushKv]
      change (order.map (·.text plain)).foldlM pushKv (out ++ [p.entry plain]) = _
      rw [ih fun q hq => hvalid q (List.mem_cons_of_mem p hq)]
      simp
  rw [splitParameters_fields _ hfields, hpush]
  rfl

theorem parseIdentifierValue_compact {fromStr : Text → Except JsonError Json} (key : Text) (v : Json)
    (htight : Tight (compact v)) (hread : fromStr (compact v) = .ok v)
    (hwritten : explicit = true ∨ v.isStructured = true) :
    parseIdentifierValue fromStr key (compact v) explicit = .ok v := by
  have hjson : explicit = true ∨ (compact v).head? = some '[' ∨ (compact v).head? = some '\x7b' :=
    hwritten.imp id (structured_head v)
  have hempty : ¬ (explicit = true ∧ (compact v).isEmpty = true) := by
    simp [htight.nonempty]
  unfold parseIdentifierValue
  dsimp only
  rw [htight.trim, if_neg hempty, if_pos hjson, hread]
  rfl

/-- What the loop has built once it has read these keys. -/
structure Built (r : NotifyParameters) (seen : List Text) (parts : RequestParts) : Prop where
  event : parts.eventType = if "event".toList ∈ seen then some r.eventType else none
  payload : parts.payload = if "data".toList ∈ seen then r.payload else none
  identifier : ∀ key,
    parts.identifier.lookup key = if key ∈ seen then r.identifier.lookup key else none

theorem NotifyParameters.lookup_reserved (r : NotifyParameters) {key : Text}
    (h : key = "event".toList ∨ key = "data".toList) : r.identifier.lookup key = none := by
  cases hlookup : r.identifier.lookup key with
  | none => rfl
  | some v =>
    have hfree := (r.keys_ok _ (AList.mem_lookup_iff.mp hlookup)).unreserved
    rcases h with h | h
    · exact absurd h hfree.1
    · exact absurd h hfree.2

theorem Built.identifier_reserved (h : Built r seen parts) {reserved : Text}
    (hreserved : reserved = "event".toList ∨ reserved = "data".toList) (key : Text) :
    parts.identifier.lookup key =
      if key ∈ reserved :: seen then r.identifier.lookup key else none := by
  rw [h.identifier]
  by_cases hkey : key = reserved
  · subst hkey
    rw [r.lookup_reserved hreserved, ite_self, ite_self]
  · simp only [List.mem_cons, hkey, false_or]

section turn
variable {fromStr : Text → Except JsonError Json} {seen : List Text}

theorem Built.add_event (h : Built r seen parts) (hfresh : "event".toList ∉ seen) :
    ∃ next, parts.add fromStr ("event".toList, r.eventType, false) = .ok next ∧
      Built r ("event".toList :: seen) next := by
  have hnone : parts.eventType = none := by rw [h.event, if_neg hfresh]
  have hne : r.eventType.isEmpty = false := by simpa using r.eventType_ok.nonempty
  have hdata : "data".toList ∈ "event".toList :: seen ↔ "data".toList ∈ seen :=
    List.mem_cons.trans (or_iff_right (by decide))
  refine ⟨{ parts with eventType := some r.eventType }, ?_, ?_, ?_, ?_⟩
  · unfold RequestParts.add
    dsimp only
    rw [if_pos rfl, if_neg (by decide), hnone, hne]
    rfl
  · rw [if_pos List.mem_cons_self]
  · simp only [hdata, h.payload]
  · exact h.identifier_reserved (.inl rfl)

theorem Built.add_data (h : Built r seen parts) (hpayload : r.payload = some v)
    (hfresh : "data".toList ∉ seen) (hread : fromStr (compact v) = .ok v) :
    ∃ next, parts.add fromStr ("data".toList, compact v, false) = .ok next ∧
      Built r ("data".toList :: seen) next := by
  have hnone : parts.payload = none := by rw [h.payload, if_neg hfresh]
  have hne : (compact v).isEmpty = false := by
    simpa using (tight_compact v (r.payload_ok v hpayload)).nonempty
  have hevent : "event".toList ∈ "data".toList :: seen ↔ "event".toList ∈ seen :=
    List.mem_cons.trans (or_iff_right (by decide))
  refine ⟨{ parts with payload := some v }, ?_, ?_, ?_, ?_⟩
  · unfold RequestParts.add
    dsimp only
    rw [if_neg (by decide), if_pos rfl, if_neg (by decide), hnone, hne, hread]
    rfl
  · simp only [hevent, h.event]
  · rw [if_pos List.mem_cons_self, hpayload]
  · exact h.identifier_reserved (.inr rfl)

theorem Built.add_identifier (h : Built r seen parts) (hlookup : r.identifier.lookup key = some v)
    (hfresh : key ∉ seen) (hread : fromStr (compact v) = .ok v)
    (hwritten : explicit = true ∨ v.isStructured = true) :
    ∃ next, parts.add fromStr (key, compact v, explicit) = .ok next ∧
      Built r (key :: seen) next := by
  have hentry := AList.mem_lookup_iff.mp hlookup
  obtain ⟨hevent, hdata⟩ := (r.keys_ok _ hentry).unreserved
  have hnone : parts.identifier.lookup key = none := by rw [h.identifier, if_neg hfresh]
  have hother : ∀ reserved, key ≠ reserved → (reserved ∈ key :: seen ↔ reserved ∈ seen) :=
    fun reserved hne => List.mem_cons.trans (or_iff_right fun heq => hne heq.symm)
  refine ⟨{ parts with identifier := parts.identifier.insert key v }, ?_, ?_, ?_, fun k => ?_⟩
  · unfold RequestParts.add
    dsimp only
    rw [if_neg hevent, if_neg hdata, if_neg (AList.lookup_eq_none.mp hnone),
      parseIdentifierValue_compact key v (tight_compact v (r.values_ok _ hentry)) hread hwritten]
    rfl
  · simp only [hother _ hevent, h.event]
  · simp only [hother _ hdata, h.payload]
  · by_cases hk : k = key
    · subst hk
      rw [AList.lookup_insert, if_pos List.mem_cons_self, hlookup]
    · rw [AList.lookup_insert_ne hk, h.identifier]
      simp only [List.mem_cons, hk, false_or]

/-- One turn of the loop, at a parameter whose key is new. -/
theorem Built.add (h : Built r seen parts) (hp : p ∈ r.parameters) (hfresh : p.key ∉ seen)
    (hread : ∀ v ∈ p.json, fromStr (compact v) = .ok v) (plain : Text → Bool) :
    ∃ next, parts.add fromStr (p.entry plain) = .ok next ∧ Built r (p.key :: seen) next := by
  rcases List.mem_cons.mp hp with rfl | hp
  · exact h.add_event hfresh
  · rcases List.mem_append.mp hp with hp | hp
    · obtain ⟨e, he, rfl⟩ := List.mem_map.mp hp
      exact h.add_identifier (AList.mem_lookup_iff.mpr he) hfresh (hread e.2 rfl)
        (Parameter.explicit_or_structured plain e.1 e.2)
    · obtain ⟨v, hv, rfl⟩ := Option.mem_map.mp (Option.mem_toList.mp hp)
      exact h.add_data hv hfresh (hread v rfl)

theorem Built.run {order : List Parameter} (h : Built r seen parts) (hmem : ∀ p ∈ order, p ∈ r.parameters)
    (hnodup : (order.map Parameter.key).Nodup) (hfresh : ∀ p ∈ order, p.key ∉ seen)
    (hread : ∀ p ∈ order, ∀ v ∈ p.json, fromStr (compact v) = .ok v) (plain : Text → Bool) :
    ∃ last, (order.map (·.entry plain)).foldlM (RequestParts.add fromStr) parts = .ok last ∧
      Built r ((order.map Parameter.key).reverse ++ seen) last := by
  induction order generalizing seen parts with
  | nil => exact ⟨parts, rfl, h⟩
  | cons p order ih =>
    obtain ⟨hkey, hrest⟩ := List.nodup_cons.mp hnodup
    obtain ⟨next, hadd, hnext⟩ := h.add (hmem p List.mem_cons_self) (hfresh p List.mem_cons_self)
      (hread p List.mem_cons_self) plain
    have hlater : ∀ q ∈ order, q.key ∉ p.key :: seen := by
      intro q hq hseen
      rcases List.mem_cons.mp hseen with heq | hseen
      · exact hkey (heq ▸ List.mem_map_of_mem hq)
      · exact hfresh q (List.mem_cons_of_mem p hq) hseen
    obtain ⟨last, hrun, hlast⟩ := ih hnext (fun q hq => hmem q (List.mem_cons_of_mem p hq)) hrest
      hlater fun q hq => hread q (List.mem_cons_of_mem p hq)
    refine ⟨last, ?_, ?_⟩
    · rw [List.map_cons, List.foldlM_cons, hadd]
      exact hrun
    · rw [List.map_cons, List.reverse_cons, List.append_assoc]
      exact hlast

end turn

theorem NotifyParameters.keys_nodup (r : NotifyParameters) :
    (r.parameters.map Parameter.key).Nodup := by
  have hkeys : (r.identifier.entries.map fun e => Parameter.identifier e.1 e.2).map Parameter.key =
      r.identifier.keys := by
    rw [List.map_map]
    rfl
  have hfree : ∀ key ∈ r.identifier.keys, key ≠ "event".toList ∧ key ≠ "data".toList := by
    intro key hkey
    obtain ⟨e, he, rfl⟩ := List.mem_map.mp hkey
    exact (r.keys_ok e he).unreserved
  have hdata : ∀ key ∈ ((r.payload.map Parameter.data).toList).map Parameter.key,
      key = "data".toList := by
    intro key hkey
    obtain ⟨p, hp, rfl⟩ := List.mem_map.mp hkey
    obtain ⟨v, -, rfl⟩ := Option.mem_map.mp (Option.mem_toList.mp hp)
    rfl
  rw [parameters, List.map_cons, List.map_append, hkeys]
  refine List.nodup_cons.mpr ⟨fun hevent => ?_, List.nodup_append.mpr ⟨?_, ?_, ?_⟩⟩
  · rcases List.mem_append.mp hevent with hkey | hkey
    · exact (hfree _ hkey).1 rfl
    · have hne : "event".toList ≠ "data".toList := by decide
      exact hne (hdata _ hkey)
  · exact r.identifier.nodupKeys
  · cases r.payload <;> simp
  · intro key hkey other hother heq
    exact (hfree key hkey).2 (heq.trans (hdata other hother))

theorem Built.start (r : NotifyParameters) : Built r [] {} := by
  refine ⟨rfl, rfl, fun key => ?_⟩
  rw [if_neg List.not_mem_nil]
  exact AList.lookup_empty key

theorem buildRequestParts_ok {fromStr : Text → Except JsonError Json} {entries : List Entry}
    {last : RequestParts} {eventType : Text}
    (hrun : entries.foldlM (RequestParts.add fromStr) {} = .ok last)
    (hevent : last.eventType = some eventType) :
    buildRequestParts fromStr entries = .ok (eventType, last.identifier, last.payload) := by
  unfold buildRequestParts
  rw [hrun]
  obtain ⟨_, identifier, payload⟩ := last
  cases hevent
  rfl

/-- Parameters joined with commas in any order are cut apart and read back as the
event type, the identifiers and the payload they were written from. -/
theorem notify_round_trip (reader : JsonReader) (r : NotifyParameters) (plain : Text → Bool)
    (order : List Parameter) (horder : order.Perm r.parameters)
    (hround : ∀ p ∈ order, ∀ v ∈ p.json, reader.fromStr (compact v) = .ok v) :
    ∃ identifier,
      (splitParameters (List.intercalate [','] (order.map (·.text plain))) >>=
        buildRequestParts reader.fromStr) = .ok (r.eventType, identifier, r.payload) ∧
      identifier.toFinmap = r.identifier.toFinmap := by
  have hmem : ∀ p ∈ order, p ∈ r.parameters := fun p hp => horder.mem_iff.mp hp
  have hdepth : ∀ p ∈ order, ∀ v ∈ p.json, v.depth ≤ 128 := fun p hp v hv =>
    reader.limit (hround p hp v hv)
  have hnodup : (order.map Parameter.key).Nodup :=
    (horder.map Parameter.key).nodup_iff.mpr r.keys_nodup
  obtain ⟨last, hrun, hlast⟩ := (Built.start r).run hmem hnodup
    (fun p _ => List.not_mem_nil) hround plain
  have hseen : ∀ p ∈ r.parameters, p.key ∈ (order.map Parameter.key).reverse ++ [] := by
    intro p hp
    rw [List.append_nil, List.mem_reverse]
    exact List.mem_map_of_mem (horder.mem_iff.mpr hp)
  have hevent : last.eventType = some r.eventType := by
    rw [hlast.event]
    exact if_pos (hseen (.event r.eventType) List.mem_cons_self)
  have hpayload : last.payload = r.payload := by
    rw [hlast.payload]
    cases hp : r.payload with
    | none => exact ite_self none
    | some v =>
      refine if_pos (hseen (.data v) (List.mem_cons_of_mem _ (List.mem_append_right _ ?_)))
      simp [hp]
  have hidentifier : ∀ key, last.identifier.lookup key = r.identifier.lookup key := by
    intro key
    rw [hlast.identifier]
    cases hlookup : r.identifier.lookup key with
    | none => exact ite_self none
    | some v =>
      refine if_pos (hseen (.identifier key v) (List.mem_cons_of_mem _ (List.mem_append_left _ ?_)))
      exact List.mem_map.mpr ⟨⟨key, v⟩, AList.mem_lookup_iff.mp hlookup, rfl⟩
  refine ⟨last.identifier, ?_, Finmap.ext_lookup fun key => ?_⟩
  · rw [splitParameters_text plain (fun p hp => r.valid p (hmem p hp)) hdepth]
    exact (buildRequestParts_ok hrun hevent).trans (by rw [hpayload])
  · rw [Finmap.lookup_toFinmap, Finmap.lookup_toFinmap, hidentifier]

/-- `["a,]\"=",{"k:=":-1}]` -/
def sampleArea : Json :=
  .array [.string "a,]\"=".toList, .object [("k:=".toList, .number (.negInt (-1)))]]

def sampleReader : JsonReader where
  fromStr text :=
    if text = compact sampleArea then .ok sampleArea
    else if text = compact (.string ['\\']) then .ok (.string ['\\'])
    else if text = compact .null then .ok .null
    else .error ⟨1, 1, "expected value"⟩
  limit h := by
    split_ifs at h <;> cases h <;> decide

def sampleParameters : NotifyParameters where
  eventType := "a=b:c".toList
  identifier := (AList.singleton "area".toList sampleArea).insert "my key".toList (.string ['\\'])
  payload := some .null
  eventType_ok := ⟨by decide, plain_of_all rfl, rfl⟩
  keys_ok := by
    intro e he
    rcases List.mem_cons.mp he with rfl | he
    · exact ⟨⟨by decide, plain_of_all rfl, rfl⟩, by decide, by decide⟩
    · rw [List.mem_singleton.mp he]
      exact ⟨⟨by decide, plain_of_all rfl, rfl⟩, by decide, by decide⟩
  values_ok := by
    intro e he
    rcases List.mem_cons.mp he with rfl | he
    · exact trivial
    · rw [List.mem_singleton.mp he]
      exact ⟨trivial, ⟨by decide, ⟨by decide, by decide⟩, trivial⟩, trivial⟩
  payload_ok := by
    rintro v ⟨⟩
    exact trivial

theorem notify_round_trip_sample :
    ∃ identifier,
      (splitParameters
        "data=null,area=[\"a,]\\\"=\",\x7b\"k:=\":-1\x7d],my key:=\"\\\\\",event=a=b:c".toList >>=
        buildRequestParts sampleReader.fromStr) = .ok ("a=b:c".toList, identifier, some .null) ∧
      identifier.toFinmap = sampleParameters.identifier.toFinmap :=
  notify_round_trip sampleReader sampleParameters (fun _ => true)
    [.data .null, .identifier "area".toList sampleArea,
      .identifier "my key".toList (.string ['\\']), .event "a=b:c".toList]
    (List.reverse_perm sampleParameters.parameters) (by
      intro p hp v hv
      simp only [List.mem_cons, List.not_mem_nil, or_false] at hp
      rcases hp with rfl | rfl | rfl | rfl <;> cases hv <;> rfl)

end Aviso.Cli
