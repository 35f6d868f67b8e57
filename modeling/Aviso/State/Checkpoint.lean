import Aviso.Lib.Table

namespace Aviso.State

/-- The digest of a watch's identity and the format of the hashed input. -/
structure ResumeKey where
  digest : Vector UInt8 32
  keyFormatVersion : Nat
  deriving DecidableEq, Repr

/-- How far a watch has got. `lastEventId` is for operators only. -/
structure Checkpoint where
  lastCommittedSequence : Nat
  lastEventId : Option String
  deriving DecidableEq, Repr

/-- `HashMap<ResumeKey, Checkpoint>`. -/
abbrev Checkpoints := Lib.Table ResumeKey Checkpoint

/-- The sequence a map holds for a key. -/
def Checkpoints.sequence (m : Checkpoints) (k : ResumeKey) : Option Nat :=
  (m.lookup k).map (·.lastCommittedSequence)

/-- `StateStore::put` and `StateStore::delete`. -/
inductive Write where
  | put (key : ResumeKey) (checkpoint : Checkpoint)
  | delete (key : ResumeKey)
  deriving DecidableEq, Repr

def Write.key : Write → ResumeKey
  | .put key _ => key
  | .delete key => key

/-- What a write does to a map by itself. -/
def Write.mutate (w : Write) (m : Checkpoints) : Checkpoints :=
  match w with
  | .put key checkpoint => m.insert key checkpoint
  | .delete key => m.erase key

end Aviso.State
