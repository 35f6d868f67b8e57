import Aviso.State.JsonFile
import Aviso.Proofs.Merging

namespace Aviso.State

/-- A call on a store, or the handle dropped and the file opened again. -/
inductive Op where
  | put (key : CurrentKey) (checkpoint : Checkpoint)
  | get (key : CurrentKey)
  | delete (key : CurrentKey)
  | reopen

namespace MemoryStore

/-- A call of the memory store that changes it. -/
def change (s : MemoryStore) : Op → MemoryStore
  | .put key checkpoint => s.put key checkpoint
  | .get _ => s
  | .delete key => s.delete key
  | .reopen => s

/-- What a call returns to its caller. -/
def answer (s : MemoryStore) : Op → List (Option Checkpoint)
  | .get key => [s.get key]
  | .put _ _ | .delete _ | .reopen => []

/-- A sequence of calls: what the gets return, and the store afterwards. -/
def run : MemoryStore → List Op → List (Option Checkpoint) × MemoryStore
  | s, [] => ([], s)
  | s, op :: ops =>
    let (rest, after) := (s.change op).run ops
    (s.answer op ++ rest, after)

end MemoryStore

namespace JsonFileStore

/-- What a call that succeeds returns to its caller. -/
def answer (s : JsonFileStore β) : Op → List (Option Checkpoint)
  | .get key => [s.get key]
  | .put _ _ | .delete _ | .reopen => []

/-- A call of the file store that changes it. -/
def change (codec : Codec β) (faults : Faults) (s : JsonFileStore β) :
    Op → Except StoreError (JsonFileStore β)
  | .put key checkpoint =>
    match s.writeThrough codec faults (.put key checkpoint) with
    | (.ok (), s) => .ok s
    | (.error e, _) => .error e
  | .get _ => .ok s
  | .delete key =>
    match s.writeThrough codec faults (.delete key) with
    | (.ok (), s) => .ok s
    | (.error e, _) => .error e
  | .reopen => «open» codec faults s.disk

/-- A sequence of calls that all succeed: what the gets return, and the store afterwards. -/
def run (codec : Codec β) : JsonFileStore β → List (Op × Faults) →
    Except StoreError (List (Option Checkpoint) × JsonFileStore β)
  | s, [] => .ok ([], s)
  | s, (op, faults) :: ops =>
    match s.change codec faults op with
    | .error e => .error e
    | .ok s' =>
      match run codec s' ops with
      | .error e => .error e
      | .ok (rest, after) => .ok (s.answer op ++ rest, after)

end JsonFileStore

namespace Codec

variable {codec : Codec β}

theorem hexEncode_inj {bytes bytes' : List UInt8} (h : codec.hexEncode bytes = codec.hexEncode bytes') :
    bytes = bytes' := by
  have hdecode := codec.hexDecode_hexEncode bytes
  rw [h, codec.hexDecode_hexEncode] at hdecode
  cases hdecode
  rfl

/-- Keys of one version have different names in the file. -/
theorem asHex_inj {k k' : ResumeKey} (h : codec.asHex k = codec.asHex k')
    (hversion : k.keyFormatVersion = k'.keyFormatVersion) : k = k' := by
  obtain ⟨digest, version⟩ := k
  obtain ⟨digest', version'⟩ := k'
  have hdigest : digest = digest' := Vector.toList_inj.mp (hexEncode_inj h)
  have hversion : version = version' := hversion
  rw [hdigest, hversion]

theorem decodeKey_asHex (codec : Codec β) (k : ResumeKey) :
    codec.decodeKey k.keyFormatVersion (codec.asHex k) = .ok k := by
  obtain ⟨⟨digest, hsize⟩, version⟩ := k
  simp [decodeKey, asHex, codec.hexDecode_hexEncode, hsize]

/-- The names of keys of this version. -/
def Names (codec : Codec β) (version : Nat) (hexKey : Text) : Prop :=
  ∃ k : ResumeKey, k.keyFormatVersion = version ∧ codec.asHex k = hexKey

theorem decodeEntries_lookup {entries : List (Sigma fun _ : Text => Checkpoint)}
    {map read : Checkpoints} (h : codec.decodeEntries version entries map = .ok read)
    (hnodup : entries.NodupKeys) (hnames : ∀ e ∈ entries, codec.Names version e.1) (k : ResumeKey)
    (hk : k.keyFormatVersion = version) :
    read.lookup k = (entries.dlookup (codec.asHex k)).or (map.lookup k) := by
  induction entries generalizing map with
  | nil =>
    cases h
    rfl
  | cons e entries ih =>
    obtain ⟨hexKey, cp⟩ := e
    obtain ⟨hfree, hrest⟩ := List.nodupKeys_cons.mp hnodup
    obtain ⟨key, hversion, hhex⟩ := hnames ⟨hexKey, cp⟩ List.mem_cons_self
    have hdecode : codec.decodeKey version hexKey = .ok key := by
      have hkey := codec.decodeKey_asHex key
      rwa [hversion, hhex] at hkey
    simp only [decodeEntries, hdecode] at h
    rw [ih h hrest fun e he => hnames e (List.mem_cons_of_mem _ he)]
    by_cases heq : k = key
    · subst heq
      subst hhex
      rw [List.dlookup_eq_none.mpr hfree, List.dlookup_cons_eq, AList.lookup_insert]
      rfl
    · have hne : codec.asHex k ≠ hexKey := by
        intro hsame
        exact heq (asHex_inj (hsame.trans hhex.symm) (hk.trans hversion.symm))
      rw [AList.lookup_insert_ne heq, List.dlookup_cons_ne entries ⟨hexKey, cp⟩ hne]

/-- A file reads back as this map. -/
structure Holds (codec : Codec β) (file : FileFormat) (m : Checkpoints) : Prop where
  names : ∀ hexKey ∈ file.checkpoints, codec.Names keyFormatVersion hexKey
  lookup : ∀ k : ResumeKey, k.keyFormatVersion = keyFormatVersion →
    file.checkpoints.lookup (codec.asHex k) = m.lookup k

/-- The contents of a state file, as its readers see them. -/
def Shows (codec : Codec β) (disk : Option β) (m : Checkpoints) : Prop :=
  match disk with
  | none => ∀ k, m.lookup k = none
  | some bytes => ∃ file, codec.fromSlice bytes = .ok file ∧ codec.Holds file m

theorem Shows.congr {disk : Option β} {m m' : Checkpoints} (h : codec.Shows disk m)
    (hsame : ∀ k, m'.lookup k = m.lookup k) : codec.Shows disk m' := by
  cases disk with
  | none => exact fun k => (hsame k).trans (h k)
  | some bytes =>
    obtain ⟨file, hfile, hholds⟩ := h
    exact ⟨file, hfile, hholds.names, fun k hk => (hholds.lookup k hk).trans (hsame k).symm⟩

/-- A map with keys of the current version only. -/
def Current (m : Checkpoints) : Prop :=
  ∀ k, k.keyFormatVersion ≠ keyFormatVersion → m.lookup k = none

theorem decodeEntries_current {entries : List (Sigma fun _ : Text => Checkpoint)}
    {map read : Checkpoints} (h : codec.decodeEntries keyFormatVersion entries map = .ok read)
    (hmap : Current map) : Current read := by
  induction entries generalizing map with
  | nil =>
    cases h
    exact hmap
  | cons e entries ih =>
    simp only [decodeEntries] at h
    split at h
    · cases h
    · rename_i key hkey
      refine ih h ?_
      intro k hk
      have hversion : key.keyFormatVersion = keyFormatVersion := by
        unfold decodeKey at hkey
        split at hkey
        · cases hkey
        · split at hkey
          · cases hkey
            rfl
          · cases hkey
      have hne : k ≠ key := fun heq => hk (heq ▸ hversion)
      rw [AList.lookup_insert_ne hne]
      exact hmap k hk

/-- What a file shows is what it loads as. -/
theorem load_shows {disk : Option β} {m read : Checkpoints} (h : codec.loadFromDisk faults disk = .ok read)
    (hshows : codec.Shows disk m) (hcurrent : Current m) : ∀ k, read.lookup k = m.lookup k := by
  unfold loadFromDisk at h
  split at h
  · cases h
  · split at h
    · cases h
    · cases h
      intro k
      exact (hshows k).symm
  · split at h
    · cases h
    · rename_i bytes _ file hfile
      obtain ⟨file', hfile', hholds⟩ := hshows
      cases hfile.symm.trans hfile'
      split at h
      · cases h
      · split at h
        · cases h
        · rename_i hversion
          have hversion : file.keyFormatVersion = keyFormatVersion := not_not.mp hversion
          rw [hversion] at h
          intro k
          by_cases hk : k.keyFormatVersion = keyFormatVersion
          · have hnames : ∀ e ∈ file.checkpoints.entries, codec.Names keyFormatVersion e.1 :=
              fun e he => hholds.names e.1 (List.mem_keys_of_mem he)
            rw [decodeEntries_lookup h file.checkpoints.nodupKeys hnames k hk, AList.lookup_empty,
              Option.or_none]
            exact hholds.lookup k hk
          · rw [decodeEntries_current h (fun _ _ => AList.lookup_empty _) k hk, hcurrent k hk]

/-- What is written is what the file then shows. -/
theorem toVec_shows {m : Checkpoints} (h : codec.toVec (codec.fileOf m) = .ok bytes)
    (hcurrent : Current m) : codec.Shows (some bytes) m := by
  obtain ⟨read, hread, -, -, hlookup⟩ := codec.fromSlice_toVec h
  have hmem : ∀ k ∈ m, k.keyFormatVersion = keyFormatVersion := by
    intro k hk
    by_contra hne
    have hnone := hcurrent k hne
    rw [← AList.lookup_isSome, hnone] at hk
    cases hk
  refine ⟨read, hread, ?_, ?_⟩
  · intro hexKey hhex
    rw [← AList.lookup_isSome, hlookup, AList.lookup_isSome] at hhex
    obtain ⟨k, hk, heq⟩ := Lib.Table.mem_reindex codec.asHex m hhex
    exact ⟨k, hmem k hk, heq⟩
  · intro k hk
    rw [hlookup]
    exact Lib.Table.lookup_reindex codec.asHex m fun k' hk' heq => asHex_inj heq ((hmem k' hk').trans hk.symm)

end Codec

/-- Without other writers, the merge of a write does what a memory store does. -/
theorem merge_write (inner disk : Checkpoints) (hdisk : ∀ k, disk.lookup k = inner.lookup k)
    (write : Write) (k : ResumeKey) :
    (mergeMonotonic (prepare inner write).candidate disk (prepare inner write).deletes).lookup k =
      ((MemoryStore.mk inner).write write).get k := by
  rw [lookup_merge, hdisk]
  by_cases hk : k = write.key
  · cases write with
    | put key checkpoint =>
      cases (show k = key from hk)
      obtain ⟨-, -, -, hnone⟩ := prepare_put inner k checkpoint
      simp only [MemoryStore.write, MemoryStore.get_put, hnone, if_true]
      simp only [MemoryStore.get, prepare, lookup_restore, Write.mutate, AList.lookup_insert]
      cases inner.lookup k with
      | none => rfl
      | some held =>
        by_cases hle : checkpoint.lastCommittedSequence ≤ held.lastCommittedSequence
        · simp [restored, resolved, hle, Option.filter]
        · have hlt : held.lastCommittedSequence < checkpoint.lastCommittedSequence := Nat.lt_of_not_le hle
          simp [restored, resolved, Option.filter, Nat.not_le.mpr hlt]
    | delete key =>
      cases (show k = key from hk)
      obtain ⟨hcand, hdel⟩ := prepare_delete inner k
      simp only [MemoryStore.write, MemoryStore.get_delete, if_true, hcand, hdel, Checkpoints.sequence]
      cases inner.lookup k <;> simp [resolved]
  · obtain ⟨hcand, hdel⟩ := prepare_other inner write hk
    have hsame : ((MemoryStore.mk inner).write write).get k = inner.lookup k := by
      cases write with
      | put key checkpoint =>
        exact (MemoryStore.get_put _ key checkpoint k).trans (if_neg hk)
      | delete key => exact (MemoryStore.get_delete _ key k).trans (if_neg hk)
    rw [hcand, hdel, hsame]
    cases inner.lookup k <;> simp [resolved]

/-- A file store and a memory store with the same answers. -/
structure Refines (codec : Codec β) (s : JsonFileStore β) (m : MemoryStore) : Prop where
  inner : ∀ k, s.get k = m.get k
  current : Codec.Current s.inner
  disk : codec.Shows s.disk s.inner

namespace Refines

variable {codec : Codec β} {s s' : JsonFileStore β} {m : MemoryStore} {faults : Faults}

theorem «open» (h : Refines codec s m) (hopen : JsonFileStore.open codec faults s.disk = .ok s') :
    Refines codec s' m := by
  unfold JsonFileStore.open at hopen
  cases hload : codec.loadFromDisk faults s.disk with
  | error e =>
    rw [hload] at hopen
    cases hopen
  | ok read =>
    rw [hload] at hopen
    cases hopen
    have hread := Codec.load_shows hload h.disk h.current
    exact {
      inner := fun k => (hread k).trans (h.inner k)
      current := fun k hk => (hread k).trans (h.current k hk)
      disk := h.disk.congr hread }

theorem congr_write {m m' : MemoryStore} (h : ∀ k, m.get k = m'.get k) (write : Write) (k : ResumeKey) :
    (m.write write).get k = (m'.write write).get k := by
  cases write with
  | put key checkpoint => simp only [MemoryStore.write, MemoryStore.get_put, h]
  | delete key => simp only [MemoryStore.write, MemoryStore.get_delete, h]

/-- A write that returns `Ok` does what a memory store does. -/
theorem write (h : Refines codec s m) {w : Write}
    (hkey : w.key.keyFormatVersion = keyFormatVersion)
    (hwrite : s.writeThrough codec faults w = (.ok (), s')) : Refines codec s' (m.write w) := by
  unfold JsonFileStore.writeThrough at hwrite
  dsimp only at hwrite
  split at hwrite
  · cases hwrite
  · cases hwrite
  · split at hwrite
    · cases hwrite
    · rename_i diskState hload
      have hdisk := Codec.load_shows hload h.disk h.current
      have hmerged := merge_write s.inner diskState hdisk w
      generalize mergeMonotonic (prepare s.inner w).candidate diskState
        (prepare s.inner w).deletes = merged at hmerged hwrite
      have hget (k : ResumeKey) : merged.lookup k = (m.write w).get k :=
        (hmerged k).trans (congr_write (m := ⟨s.inner⟩) h.inner w k)
      have hcurrent : Codec.Current merged := by
        intro k hk
        have hne : k ≠ w.key := fun heq => hk (heq ▸ hkey)
        rw [hmerged k]
        cases w with
        | put key checkpoint =>
          exact ((MemoryStore.get_put _ key checkpoint k).trans (if_neg hne)).trans (h.current k hk)
        | delete key =>
          exact ((MemoryStore.get_delete _ key k).trans (if_neg hne)).trans (h.current k hk)
      unfold JsonFileStore.install at hwrite
      split at hwrite
      · rename_i hsame
        cases hwrite
        exact {
          inner := hget
          current := hcurrent
          disk := h.disk.congr fun k => (hsame.lookup k).trans (hdisk k) }
      · split at hwrite
        · cases hwrite
        · cases hwrite
        · rename_i bytes hbytes _
          cases hwrite
          exact {
            inner := hget
            current := hcurrent
            disk := Codec.toVec_shows hbytes hcurrent }

theorem change (h : Refines codec s m) {op : Op} (hchange : s.change codec faults op = .ok s') :
    Refines codec s' (m.change op) := by
  cases op with
  | put key checkpoint =>
    simp only [JsonFileStore.change] at hchange
    split at hchange
    · rename_i written hwrite
      cases hchange
      exact h.write (w := .put key checkpoint) key.2 hwrite
    · cases hchange
  | get key =>
    cases hchange
    exact h
  | delete key =>
    simp only [JsonFileStore.change] at hchange
    split at hchange
    · rename_i written hwrite
      cases hchange
      exact h.write (w := .delete key) key.2 hwrite
    · cases hchange
  | reopen => exact h.open hchange

theorem answer (h : Refines codec s m) (op : Op) : s.answer op = m.answer op := by
  cases op with
  | get key => simp only [JsonFileStore.answer, MemoryStore.answer, h.inner]
  | put key checkpoint => rfl
  | delete key => rfl
  | reopen => rfl

/-- A whole sequence of calls. -/
theorem run (h : Refines codec s m) {ops : List (Op × Faults)}
    (hrun : s.run codec ops = .ok (given, s')) :
    given = (m.run (ops.map Prod.fst)).1 ∧ Refines codec s' (m.run (ops.map Prod.fst)).2 := by
  induction ops generalizing s m given with
  | nil =>
    cases hrun
    exact ⟨rfl, h⟩
  | cons op ops ih =>
    obtain ⟨op, faults⟩ := op
    simp only [JsonFileStore.run] at hrun
    split at hrun
    · cases hrun
    · rename_i s₁ hchange
      split at hrun
      · cases hrun
      · rename_i rest after hrest
        cases hrun
        obtain ⟨hgiven, hafter⟩ := ih (h.change hchange) hrest
        refine ⟨?_, hafter⟩
        rw [hgiven, h.answer]
        rfl

/-- A store opened on an absent file is an empty memory store. -/
theorem new (hopen : JsonFileStore.open codec faults none = .ok s) : Refines codec s .new := by
  have hempty : Refines codec (⟨none, ∅⟩ : JsonFileStore _) .new := {
    inner := fun _ => rfl
    current := fun _ _ => AList.lookup_empty _
    disk := fun _ => AList.lookup_empty _ }
  exact hempty.open hopen

/-- A put at or below what the store holds changes nothing. -/
theorem put_below (h : Refines codec s m) {key : CurrentKey} {checkpoint held : Checkpoint}
    (hheld : s.get key = some held)
    (hbelow : checkpoint.lastCommittedSequence ≤ held.lastCommittedSequence)
    (hput : s.change codec faults (.put key checkpoint) = .ok s') (k : ResumeKey) :
    s'.get k = s.get k := by
  have hm : m.get key = some held := (h.inner key).symm.trans hheld
  rw [(h.change hput).inner, h.inner]
  have hstays := MemoryStore.get_put m key checkpoint k
  rw [hm] at hstays
  refine hstays.trans ?_
  by_cases hk : k = key
  · simp [hk, hm, hbelow, Option.filter]
  · simp [hk]

/-- After a delete any put takes effect. -/
theorem put_deleted (h : Refines codec s m) {key : CurrentKey} {checkpoint : Checkpoint}
    (hdelete : s.change codec faults (.delete key) = .ok s₁)
    (hput : s₁.change codec faults' (.put key checkpoint) = .ok s') :
    s'.get key = some checkpoint := by
  have hgone : (m.delete key).get key = none := (MemoryStore.get_delete m key key).trans (if_pos rfl)
  rw [((h.change hdelete).change hput).inner]
  have hget := MemoryStore.get_put (m.delete key) key checkpoint key
  rw [hgone, if_pos rfl] at hget
  exact hget

end Refines

/-- One handle on a file that nothing else writes to, opened when the file was absent and
reopened at any points, answers as a memory store. -/
theorem JsonFileStore.refines_memory_store (codec : Codec β) {opening : Faults}
    {first last : JsonFileStore β} {calls : List (Op × Faults)} {given : List (Option Checkpoint)}
    (hopen : JsonFileStore.open codec opening none = .ok first)
    (hrun : first.run codec calls = .ok (given, last)) :
    given = (MemoryStore.new.run (calls.map Prod.fst)).1 ∧
    (∀ (faults : Faults) (key : CurrentKey) (checkpoint held : Checkpoint) (next : JsonFileStore β),
      last.get key = some held →
      checkpoint.lastCommittedSequence ≤ held.lastCommittedSequence →
      last.change codec faults (.put key checkpoint) = .ok next → ∀ k, next.get k = last.get k) ∧
    ∀ (faults faults' : Faults) (key : CurrentKey) (checkpoint : Checkpoint)
      (deleted next : JsonFileStore β),
      last.change codec faults (.delete key) = .ok deleted →
      deleted.change codec faults' (.put key checkpoint) = .ok next →
      next.get key = some checkpoint := by
  obtain ⟨hgiven, hlast⟩ := (Refines.new hopen).run hrun
  refine ⟨hgiven, ?_, ?_⟩
  · intro faults key checkpoint held next hheld hbelow hput
    exact hlast.put_below hheld hbelow hput
  · intro faults faults' key checkpoint deleted next hdelete hput
    exact hlast.put_deleted hdelete hput

/-! A store with one key: two puts, the second too low, a delete, a lower put and a reopening. -/

/-- Two digits per byte. -/
def sampleHexEncode (bytes : List UInt8) : Text :=
  bytes.flatMap fun b => [Nat.digitChar (b.toNat / 16), Nat.digitChar (b.toNat % 16)]

def sampleNibble (c : Char) : Except String Nat :=
  if '0' ≤ c ∧ c ≤ '9' then .ok (c.toNat - 48)
  else if 'a' ≤ c ∧ c ≤ 'f' then .ok (c.toNat - 87)
  else if 'A' ≤ c ∧ c ≤ 'F' then .ok (c.toNat - 55)
  else .error "Invalid character"

def sampleHexDecode : Text → Except String (List UInt8)
  | [] => .ok []
  | [_] => .error "Odd number of digits"
  | high :: low :: text => do
    let h ← sampleNibble high
    let l ← sampleNibble low
    let rest ← sampleHexDecode text
    pure (UInt8.ofNat (16 * h + l) :: rest)

theorem sampleNibble_digitChar : ∀ n : Fin 16, sampleNibble (Nat.digitChar n) = .ok n.val := by
  decide

theorem sampleHexDecode_encode (bytes : List UInt8) :
    sampleHexDecode (sampleHexEncode bytes) = .ok bytes := by
  induction bytes with
  | nil => rfl
  | cons b bytes ih =>
    have hhigh := sampleNibble_digitChar ⟨b.toNat / 16, Nat.div_lt_of_lt_mul b.toNat_lt⟩
    have hlow := sampleNibble_digitChar ⟨b.toNat % 16, Nat.mod_lt _ (by decide)⟩
    have hb : UInt8.ofNat (16 * (b.toNat / 16) + b.toNat % 16) = b := by
      rw [Nat.div_add_mod, UInt8.ofNat_toNat]
    simp only [sampleHexEncode, List.flatMap_cons, List.cons_append, List.nil_append] at *
    simp only [sampleHexDecode, hhigh, hlow, ih]
    exact congrArg (fun c => Except.ok (c :: bytes)) hb

def sampleKey : CurrentKey := ⟨⟨Vector.replicate 32 0, keyFormatVersion⟩, rfl⟩

def sampleFile (entries : List (Sigma fun _ : Text => Checkpoint)) (h : entries.NodupKeys) :
    FileFormat :=
  ⟨fileFormatVersion, keyFormatVersion, ⟨entries, h⟩⟩

def sampleBytes (text : String) : List UInt8 := text.toUTF8.data.toList

def sampleDocument (checkpoints : List UInt8) : List UInt8 :=
  sampleBytes "\x7b\n  \"version\": 1,\n  \"key_format_version\": 1,\n  \"checkpoints\": " ++
    (checkpoints ++ sampleBytes "\n\x7d")

def sampleEntry (sequence : String) : List UInt8 :=
  sampleBytes "\x7b\n    \"" ++ (List.replicate 64 48 ++
    (sampleBytes "\": \x7b\n      \"last_committed_sequence\": " ++ (sampleBytes sequence ++
      sampleBytes ",\n      \"last_event_id\": null\n    \x7d\n  \x7d")))

/-- The state files of the run, beside their JSON documents. -/
def sampleFiles : List (FileFormat × List UInt8) :=
  [(sampleFile [] List.nodupKeys_nil, sampleDocument (sampleBytes "\x7b\x7d")),
   (sampleFile [⟨List.replicate 64 '0', ⟨5, none⟩⟩] (List.nodupKeys_singleton _),
    sampleDocument (sampleEntry "5")),
   (sampleFile [⟨List.replicate 64 '0', ⟨2, none⟩⟩] (List.nodupKeys_singleton _),
    sampleDocument (sampleEntry "2"))]

def sampleToVec (file : FileFormat) : Except String (List UInt8) :=
  match sampleFiles.find? fun row => row.1.version == file.version &&
      row.1.keyFormatVersion == file.keyFormatVersion &&
      row.1.checkpoints.entries == file.checkpoints.entries with
  | some row => .ok row.2
  | none => .error "no such file"

def sampleFromSlice (bytes : List UInt8) : Except String FileFormat :=
  match sampleFiles.find? fun row => row.2 == bytes with
  | some row => .ok row.1
  | none => .error "no such document"

theorem sampleFiles_distinct : (sampleFiles.map Prod.snd).Nodup := by
  decide +kernel

theorem sampleFromSlice_files (row : FileFormat × List UInt8) (hrow : row ∈ sampleFiles) :
    sampleFromSlice row.2 = .ok row.1 := by
  have hsome : (sampleFiles.find? fun other => other.2 == row.2).isSome :=
    List.find?_isSome.mpr ⟨row, hrow, beq_self_eq_true _⟩
  obtain ⟨found, hfound⟩ := Option.isSome_iff_exists.mp hsome
  have hsame : found.2 = row.2 := by
    have hbeq := List.find?_some hfound
    exact eq_of_beq hbeq
  have heq : found = row :=
    List.inj_on_of_nodup_map sampleFiles_distinct (List.mem_of_find?_eq_some hfound) hrow hsame
  rw [sampleFromSlice, hfound, heq]

def sampleCodec : Codec (List UInt8) where
  toVec := sampleToVec
  fromSlice := sampleFromSlice
  hexEncode := sampleHexEncode
  hexDecode := sampleHexDecode
  fromSlice_toVec := by
    intro file bytes h
    unfold sampleToVec at h
    split at h
    · rename_i row hrow
      cases h
      have hsame := List.find?_some hrow
      simp only [Bool.and_eq_true, beq_iff_eq] at hsame
      have hmem := List.mem_of_find?_eq_some hrow
      refine ⟨row.1, sampleFromSlice_files row hmem, hsame.1.1, hsame.1.2, ?_⟩
      intro k
      rw [AList.ext hsame.2]
    · cases h
  hexDecode_hexEncode := sampleHexDecode_encode

def sampleCalls : List (Op × Faults) :=
  [.put sampleKey ⟨5, none⟩, .put sampleKey ⟨3, none⟩, .get sampleKey, .delete sampleKey,
    .get sampleKey, .put sampleKey ⟨2, none⟩, .reopen, .get sampleKey].map fun op => (op, .none)

theorem JsonFileStore.refines_memory_store_sample :
    [some ⟨5, none⟩, none, some ⟨2, none⟩] =
      (MemoryStore.new.run (sampleCalls.map Prod.fst)).1 := by
  have hopen : JsonFileStore.open sampleCodec .none none = .ok ⟨none, ∅⟩ := rfl
  have hgiven : (JsonFileStore.run sampleCodec ⟨none, ∅⟩ sampleCalls).map Prod.fst =
      .ok [some ⟨5, none⟩, none, some ⟨2, none⟩] := by decide +kernel
  cases hrun : JsonFileStore.run sampleCodec ⟨none, ∅⟩ sampleCalls with
  | error e =>
    rw [hrun] at hgiven
    cases hgiven
  | ok result =>
    obtain ⟨given, last⟩ := result
    rw [hrun] at hgiven
    cases hgiven
    exact (JsonFileStore.refines_memory_store sampleCodec hopen hrun).1

end Aviso.State
