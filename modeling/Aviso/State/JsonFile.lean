import Aviso.State.FileStore
import Aviso.State.MemoryStore
import Aviso.Basics

namespace Aviso.State

/-- `FILE_FORMAT_VERSION`. -/
def fileFormatVersion : Nat := 1

inductive StoreError where
  | io (message : String)
  | encode (message : String)
  | decode (message : String)
  | unsupportedFileVersion (found supported : Nat)
  | unsupportedKeyFormatVersion (found supported : Nat)
  | invalidResumeKey (message : String)
  deriving DecidableEq, Repr

/-- On-disk JSON layout. -/
structure FileFormat where
  version : Nat
  keyFormatVersion : Nat
  checkpoints : Lib.Table Text Checkpoint

/-- The JSON and hexadecimal codecs, over the contents a file may have. What they
write they read back; a JSON object keeps no order. -/
structure Codec (β : Type) where
  toVec : FileFormat → Except String β
  fromSlice : β → Except String FileFormat
  hexEncode : List UInt8 → Text
  hexDecode : Text → Except String (List UInt8)
  fromSlice_toVec : toVec file = .ok bytes →
    ∃ read, fromSlice bytes = .ok read ∧ read.version = file.version ∧
      read.keyFormatVersion = file.keyFormatVersion ∧
      ∀ k, read.checkpoints.lookup k = file.checkpoints.lookup k
  hexDecode_hexEncode : ∀ bytes, hexDecode (hexEncode bytes) = .ok bytes

/-- What the file system refuses during one call, if anything. -/
structure Faults where
  /-- Opening the lock file. -/
  lockFile : Option String
  /-- Taking the lock. -/
  lock : Option String
  read : Option String
  /-- The state file is absent and its parent is no directory. -/
  parent : Option String
  write : Option String
  deriving DecidableEq, Repr

def Faults.none : Faults := ⟨.none, .none, .none, .none, .none⟩

namespace Codec

variable (codec : Codec β)

def asHex (k : ResumeKey) : Text := codec.hexEncode k.digest.toList

/-- The key of one entry of the file. -/
def decodeKey (version : Nat) (hexKey : Text) : Except StoreError ResumeKey :=
  match codec.hexDecode hexKey with
  | .error e =>
    .error (.invalidResumeKey ("'" ++ String.ofList hexKey ++ "' is not valid hex: " ++ e))
  | .ok raw =>
    if h : raw.toArray.size = 32 then .ok ⟨⟨raw.toArray, h⟩, version⟩
    else
      .error (.invalidResumeKey
        ("expected 32-byte digest, got " ++ toString raw.length ++ " bytes"))

/-- The loop of `load_from_disk` over the entries of the file. -/
def decodeEntries (version : Nat) :
    List (Sigma fun _ : Text => Checkpoint) → Checkpoints → Except StoreError Checkpoints
  | [], map => .ok map
  | ⟨hexKey, cp⟩ :: entries, map =>
    match codec.decodeKey version hexKey with
    | .error e => .error e
    | .ok key => decodeEntries version entries (map.insert key cp)

/-- `load_from_disk`; `none` is an absent file. -/
def loadFromDisk (faults : Faults) (disk : Option β) : Except StoreError Checkpoints :=
  match faults.read, disk with
  | some e, _ => .error (.io e)
  | none, none =>
    match faults.parent with
    | some e => .error (.io e)
    | none => .ok ∅
  | none, some bytes =>
    match codec.fromSlice bytes with
    | .error e => .error (.decode e)
    | .ok file =>
      if file.version ≠ fileFormatVersion then
        .error (.unsupportedFileVersion file.version fileFormatVersion)
      else if file.keyFormatVersion ≠ State.keyFormatVersion then
        .error (.unsupportedKeyFormatVersion file.keyFormatVersion State.keyFormatVersion)
      else codec.decodeEntries file.keyFormatVersion file.checkpoints.entries ∅

/-- The file a state is written to. -/
def fileOf (merged : Checkpoints) : FileFormat :=
  ⟨fileFormatVersion, State.keyFormatVersion, Lib.Table.reindex codec.asHex merged⟩

end Codec

/-- A `JsonFileStore` that nothing else writes to: the file, and the map its clones share. -/
structure JsonFileStore (β : Type) where
  disk : Option β
  inner : Checkpoints

namespace JsonFileStore

variable (codec : Codec β)

/-- `JsonFileStore::open`. -/
def «open» (faults : Faults) (disk : Option β) : Except StoreError (JsonFileStore β) :=
  (codec.loadFromDisk faults disk).map fun initial => ⟨disk, initial⟩

def get (s : JsonFileStore β) (key : ResumeKey) : Option Checkpoint := s.inner.lookup key

/-- The end of the task of `write_through`: the merged state goes to the disk, if it
differs from what is there. -/
def install (faults : Faults) (s : JsonFileStore β) (diskState merged : Checkpoints) :
    Except StoreError Unit × JsonFileStore β :=
  if merged.Same diskState then (.ok (), { s with inner := merged })
  else
    match codec.toVec (codec.fileOf merged), faults.write with
    | .error e, _ => (.error (.encode e), s)
    | .ok _, some e => (.error (.io e), s)
    | .ok bytes, none => (.ok (), ⟨some bytes, merged⟩)

/-- `write_through`, with what `put` and `delete` hand to it. -/
def writeThrough (faults : Faults) (s : JsonFileStore β) (write : Write) :
    Except StoreError Unit × JsonFileStore β :=
  let task := prepare s.inner write
  match faults.lockFile, faults.lock with
  | some e, _ | none, some e => (.error (.io e), s)
  | none, none =>
    match codec.loadFromDisk faults s.disk with
    | .error e => (.error e, s)
    | .ok diskState =>
      s.install codec faults diskState (mergeMonotonic task.candidate diskState task.deletes)

end JsonFileStore
end Aviso.State
