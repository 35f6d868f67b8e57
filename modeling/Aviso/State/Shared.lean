import Aviso.State.JsonFile

namespace Aviso.State

/-- A write whose key is one `ResumeKey::new` makes. -/
abbrev CurrentWrite := { w : Write // w.key.keyFormatVersion = keyFormatVersion }

/-- Where the blocking task of `write_through` is. -/
inductive TaskStage (β : Type) where
  /-- Before the lock file is open. -/
  | spawned
  | opened
  /-- Under the file lock, before the file is read. -/
  | locked
  | loaded (diskState : Checkpoints)
  /-- The merged state differs from the file and is encoded. -/
  | encoded (merged : Checkpoints) (bytes : β)
  /-- The task is over, and its lock free. -/
  | done (result : Except StoreError Checkpoints)

def TaskStage.holdsLock : TaskStage β → Bool
  | .locked | .loaded _ | .encoded _ _ => true
  | .spawned | .opened | .done _ => false

/-- One step of the task: where it is then, and the file. -/
def TaskStage.advance (codec : Codec β) (disk : Option β) (free : Bool) (faults : Faults) (task : Task) :
    TaskStage β → Option (TaskStage β × Option β)
  | .spawned =>
    match faults.lockFile with
    | some e => some (.done (.error (.io e)), disk)
    | none => some (.opened, disk)
  | .opened =>
    match faults.lock with
    | some e => some (.done (.error (.io e)), disk)
    | none => if free then some (.locked, disk) else none
  | .locked =>
    match codec.loadFromDisk faults disk with
    | .error e => some (.done (.error e), disk)
    | .ok diskState => some (.loaded diskState, disk)
  | .loaded diskState =>
    let merged := mergeMonotonic task.candidate diskState task.deletes
    if merged.Same diskState then some (.done (.ok merged), disk)
    else
      match codec.toVec (codec.fileOf merged) with
      | .error e => some (.done (.error (.encode e)), disk)
      | .ok bytes => some (.encoded merged bytes, disk)
  | .encoded merged bytes =>
    match faults.write with
    | some e => some (.done (.error (.io e)), disk)
    | none => some (.done (.ok merged), some bytes)
  | .done _ => none

structure RunningTask (β : Type) where
  task : Task
  stage : TaskStage β

/-- A `JsonFileStore` with its clones, and the call that has its write mutex. -/
structure Store (β : Type) where
  inner : Checkpoints
  call : Option (RunningTask β)

/-- A state file, everyone who has it open, and the tasks whose callers were dropped. -/
structure Shared (β : Type) where
  disk : Option β
  stores : List (Store β)
  detached : List (RunningTask β)

/-- Who waits for a task, if anyone does. -/
inductive Owner where
  | caller (h : Nat)
  | nobody (i : Nat)
  deriving DecidableEq

inductive SharedEvent where
  | open (faults : Faults)
  /-- A store takes its mutex, prepares a write and spawns its task. -/
  | start (h : Nat) (write : CurrentWrite)
  | advance (owner : Owner) (faults : Faults)
  /-- The call of a store returns. -/
  | finish (h : Nat)
  /-- The caller is dropped before the call returns. -/
  | drop (h : Nat)
  /-- A task without a caller ends with its process, which frees its lock. -/
  | kill (i : Nat)

namespace Shared

def init (disk : Option β) : Shared β := ⟨disk, [], []⟩

def setCall (w : Shared β) (h : Nat) (call : Option (RunningTask β)) : Shared β :=
  { w with stores := w.stores.modify h fun s => { s with call := call } }

def callOf (w : Shared β) (h : Nat) : Option (RunningTask β) := w.stores[h]?.bind (·.call)

def taskAt (w : Shared β) : Owner → Option (RunningTask β)
  | .caller h => w.callOf h
  | .nobody i => w.detached[i]?

def setTask (w : Shared β) (owner : Owner) (t : RunningTask β) : Shared β :=
  match owner with
  | .caller h => w.setCall h (some t)
  | .nobody i => { w with detached := w.detached.set i t }

/-- Every task in flight. -/
def tasks (w : Shared β) : List (RunningTask β) := w.stores.filterMap (·.call) ++ w.detached

/-- Nobody has the file lock. -/
def free (w : Shared β) : Bool := w.tasks.all fun t => !t.stage.holdsLock

/-- What `get` answers through a store. -/
def get (w : Shared β) (h : Nat) (key : ResumeKey) : Option Checkpoint :=
  w.stores[h]?.bind fun s => s.inner.lookup key

/-- A store installs the merged state of its task. -/
def install (w : Shared β) (h : Nat) (merged : Checkpoints) : Shared β :=
  { w with stores := w.stores.modify h fun _ => ⟨merged, none⟩ }

/-- What the call of a store returns, once its task is done. -/
def returned (w : Shared β) (h : Nat) : Option (Except StoreError Unit) :=
  (w.callOf h).bind fun t =>
    match t.stage with
    | .done result => some (result.map fun _ => ())
    | _ => none

def step (codec : Codec β) : Lib.Machine (Shared β) SharedEvent := fun w event =>
  match event with
  | .open faults =>
    match codec.loadFromDisk faults w.disk with
    | .error _ => some w
    | .ok initial => some { w with stores := w.stores ++ [⟨initial, none⟩] }
  | .start h write =>
    w.stores[h]?.bind fun s =>
      match s.call with
      | none => some (w.setCall h (some ⟨prepare s.inner write, .spawned⟩))
      | some _ => none
  | .advance owner faults =>
    (w.taskAt owner).bind fun t =>
      (t.stage.advance codec w.disk w.free faults t.task).map fun (stage, disk) =>
        { w.setTask owner { t with stage := stage } with disk := disk }
  | .finish h =>
    (w.callOf h).bind fun t =>
      match t.stage with
      | .done (.ok merged) => some (w.install h merged)
      | .done (.error _) => some (w.setCall h none)
      | _ => none
  | .drop h =>
    (w.callOf h).map fun t => { w.setCall h none with detached := w.detached ++ [t] }
  | .kill i =>
    w.detached[i]?.map fun _ => { w with detached := w.detached.eraseIdx i }

end Shared
end Aviso.State
