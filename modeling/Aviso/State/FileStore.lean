import Aviso.State.Checkpoint
import Aviso.Lib.Runs

namespace Aviso.State

/-- The body of the loop of `merge_monotonic`, for one key on disk. -/
def mergeEntry (deletes : Lib.Table ResumeKey Nat) (candidate : Checkpoints) (k : ResumeKey)
    (diskCp : Checkpoint) : Checkpoints :=
  match deletes.lookup k with
  | some preSeq =>
    if diskCp.lastCommittedSequence > preSeq then candidate.insert k diskCp else candidate
  | none =>
    match candidate.lookup k with
    | some cand =>
      if diskCp.lastCommittedSequence ≥ cand.lastCommittedSequence then candidate.insert k diskCp
      else candidate
    | none => candidate.insert k diskCp

/-- `merge_monotonic`: the candidate of one handle against what is on disk. -/
def mergeMonotonic (candidate diskState : Checkpoints) (deletes : Lib.Table ResumeKey Nat) :
    Checkpoints :=
  diskState.foldl (mergeEntry deletes) candidate

/-- Undoes a change of the candidate that does not raise the sequence of a key. -/
def restoreEntry (candidate : Checkpoints) (k : ResumeKey) (preCp : Checkpoint) : Checkpoints :=
  match candidate.lookup k with
  | some candCp =>
    if candCp.lastCommittedSequence ≤ preCp.lastCommittedSequence then candidate.insert k preCp
    else candidate
  | none => candidate

def restoreLower (preState candidate : Checkpoints) : Checkpoints :=
  preState.foldl restoreEntry candidate

/-- The keys the candidate no longer has, with the sequence seen for each. -/
def deletesOf (preState candidate : Checkpoints) : Lib.Table ResumeKey Nat :=
  preState.foldl (fun deletes k cp =>
    if k ∈ candidate then deletes else deletes.insert k cp.lastCommittedSequence) ∅

/-- What `write_through` hands to the blocking task. -/
structure Task where
  write : Write
  preState : Checkpoints
  candidate : Checkpoints
  deletes : Lib.Table ResumeKey Nat

/-- The part of `write_through` that runs before the file lock is taken. -/
def prepare (inner : Checkpoints) (write : Write) : Task :=
  let candidate := restoreLower inner (write.mutate inner)
  { write := write, preState := inner, candidate := candidate, deletes := deletesOf inner candidate }

/-- The part that runs under the file lock: the merged state, returned to the
handle, and the disk after it. -/
def Task.commit (t : Task) (disk : Checkpoints) : Checkpoints × Checkpoints :=
  let merged := mergeMonotonic t.candidate disk t.deletes
  (merged, if merged.Same disk then disk else merged)

/-- A call of `put` or `delete` that has not returned: its task, and the merged
state once the task is done. -/
structure Call where
  task : Task
  merged : Option Checkpoints

/-- A `JsonFileStore` with its clones: they share the map and the write mutex. -/
structure Handle where
  inner : Checkpoints
  call : Option Call

def Handle.get (h : Handle) (key : ResumeKey) : Option Checkpoint := h.inner.lookup key

/-- The state file and everyone who has it open, in any process. -/
structure World where
  disk : Checkpoints
  handles : List Handle
  /-- Tasks still running although their callers were dropped. -/
  detached : List Task

def World.init (disk : Checkpoints) : World := ⟨disk, [], []⟩

/-- One atomic step of one participant. `h` and `i` are positions in the lists
of handles and of detached tasks. -/
inductive Event where
  /-- Opens the file. -/
  | open
  /-- A handle takes its mutex and prepares a write. -/
  | start (h : Nat) (write : Write)
  /-- The task of a handle runs under the file lock. -/
  | commit (h : Nat)
  /-- The task of a handle fails and leaves the file alone. -/
  | fail (h : Nat)
  /-- A handle installs the merged state and returns. -/
  | finish (h : Nat)
  /-- The caller is dropped before the call returns. -/
  | drop (h : Nat)
  /-- A task without a caller runs under the file lock. -/
  | commitDetached (i : Nat)
  /-- A task without a caller fails, or its process ends. -/
  | failDetached (i : Nat)
  deriving DecidableEq, Repr

namespace World

def setCall (w : World) (h : Nat) (handle : Handle) (call : Option Call) : World :=
  { w with handles := w.handles.set h { handle with call := call } }

/-- The task whose locked section an event runs. -/
def locked (w : World) : Event → Option Task
  | .commit h => w.handles[h]?.bind fun handle => handle.call.bind fun call =>
      if call.merged.isSome then none else some call.task
  | .commitDetached i => w.detached[i]?
  | _ => none

/-- The write that an event returns `Ok` from. -/
def returned (w : World) : Event → Option Write
  | .finish h => w.handles[h]?.bind fun handle => handle.call.bind fun call =>
      if call.merged.isSome then some call.task.write else none
  | _ => none

def step (w : World) : Event → Option World
  | .open => some { w with handles := w.handles ++ [⟨w.disk, none⟩] }
  | .start h write =>
    w.handles[h]?.bind fun handle =>
      match handle.call with
      | none => some (w.setCall h handle (some ⟨prepare handle.inner write, none⟩))
      | some _ => none
  | .commit h =>
    w.handles[h]?.bind fun handle =>
      match handle.call with
      | some ⟨task, none⟩ =>
        some { w.setCall h handle (some ⟨task, some (task.commit w.disk).1⟩) with
          disk := (task.commit w.disk).2 }
      | _ => none
  | .fail h =>
    w.handles[h]?.bind fun handle =>
      match handle.call with
      | some ⟨_, none⟩ => some (w.setCall h handle none)
      | _ => none
  | .finish h =>
    w.handles[h]?.bind fun handle =>
      match handle.call with
      | some ⟨_, some merged⟩ => some (w.setCall h { handle with inner := merged } none)
      | _ => none
  | .drop h =>
    w.handles[h]?.bind fun handle =>
      match handle.call with
      | some ⟨task, none⟩ =>
        some { w.setCall h handle none with detached := w.detached ++ [task] }
      | some ⟨_, some _⟩ => some (w.setCall h handle none)
      | none => none
  | .commitDetached i =>
    w.detached[i]?.bind fun task =>
      some { w with disk := (task.commit w.disk).2, detached := w.detached.eraseIdx i }
  | .failDetached i =>
    w.detached[i]?.bind fun _ => some { w with detached := w.detached.eraseIdx i }

end World
end Aviso.State
