import Aviso.Ffi.Outcome
import Aviso.Lib.Runs
import Aviso.Watch.Multi

namespace Aviso.Ffi

open Watch (ClientError Poll MultiNotificationStream Yield)

/-- How a C callback comes back: with its answer, or by an unwinding that is trapped. -/
inductive Reply where
  | answered (go : Bool)
  | unwound
  deriving DecidableEq, Repr

/-- What sets the loop of one kind of watch apart: how its stream is polled, what an item
leads to (a callback, or the end of the loop), and what the answer of a callback leads to.
`σ` is the stream, `κ` the callbacks, `φ` what the loop keeps and `ρ` why it ends. -/
structure Task (σ ι κ φ ρ : Type) where
  poll : σ → Poll (Option ι) × σ
  fresh : φ
  onItem : φ → Option ι → Except ρ κ
  onReply : φ → κ → Reply → Except ρ φ
  graceful : ρ
  outcome : ρ → AvisoOutcome

/-- The variables of the loop. -/
structure Loop (σ φ : Type) where
  stream : σ
  kept : φ

/-- Where the task of a watch is. -/
inductive Stage (σ κ φ ρ : Type) where
  /-- The core opens the watch. -/
  | opening
  /-- At the head of the loop, about to load the flag. -/
  | checking (l : Loop σ φ)
  /-- `select!` polls the notification first. -/
  | selecting (l : Loop σ φ)
  | receiving (l : Loop σ φ)
  | calling (l : Loop σ φ) (call : κ)
  | closing (reason : ρ)
  /-- About to call `on_end`, and inside it. -/
  | ending (outcome : AvisoOutcome)
  | inEnd (outcome : AvisoOutcome)
  | finished
  /-- The task panicked outside a callback. -/
  | panicked

inductive WaitResult where
  | success
  | invalidUsage
  | poisoned
  | panicked
  deriving DecidableEq, Repr

/-- A call of `aviso_watch_wait`. -/
inductive Waiter where
  | locking
  /-- It holds the lock and blocks on the task. -/
  | joining
  | returned (result : WaitResult)
  deriving DecidableEq, Repr

/-- What an observer of the boundary sees. -/
inductive Mark (κ : Type) where
  | started (call : κ)
  | returned (call : κ) (r : Reply)
  | stopRequested
  | endStarted (outcome : AvisoOutcome)
  | endReturned
  | waited (result : WaitResult)
  deriving DecidableEq, Repr

/-- A watch handle, its task, and the threads that use it. `permit` is what the `Notify` has
stored, and `notifying` counts the stops between their two writes. -/
structure AvisoWatch (σ κ φ ρ : Type) where
  flag : Bool
  permit : Bool
  notifying : Nat
  stage : Stage σ κ φ ρ
  /-- The join handle was taken out of its slot. -/
  joined : Bool
  poisoned : Bool
  waiters : List Waiter
  freed : Bool
  trace : List (Mark κ)

inductive WatchEvent (σ : Type) where
  | opened (result : Except AvisoOutcome σ)
  /-- The task takes a step that waits for nobody. -/
  | advance
  | replied (reply : Reply)
  | closed
  | endReturned
  /-- Library code of the task panics. -/
  | fault
  /-- The two writes of a stop, by any thread. -/
  | raise
  | notify
  | wait (onRuntime : Bool)
  | lock (i : Nat)
  | join (i : Nat)
  /-- Blocking on the task panics while the lock is held. -/
  | unwind (i : Nat)
  | free

namespace AvisoWatch

variable {σ ι κ φ ρ : Type}

/-- A watch just started; a request that could not be built is reported by the task at once. -/
def spawn (built : Except AvisoOutcome Unit) : AvisoWatch σ κ φ ρ :=
  { flag := false, permit := false, notifying := 0
    stage := match built with
      | .ok () => .opening
      | .error outcome => .ending outcome
    joined := false, poisoned := false, waiters := [], freed := false, trace := [] }

def goto (w : AvisoWatch σ κ φ ρ) (stage : Stage σ κ φ ρ) : AvisoWatch σ κ φ ρ := { w with stage := stage }

def mark (w : AvisoWatch σ κ φ ρ) (m : Mark κ) : AvisoWatch σ κ φ ρ := { w with trace := w.trace ++ [m] }

/-- The loop goes on after an item was received. -/
def receive (t : Task σ ι κ φ ρ) (w : AvisoWatch σ κ φ ρ) (l : Loop σ φ) (item : Option ι) :
    AvisoWatch σ κ φ ρ :=
  match t.onItem l.kept item with
  | .error reason => w.goto (.closing reason)
  | .ok call => (w.mark (.started call)).goto (.calling l call)

def advance (t : Task σ ι κ φ ρ) (w : AvisoWatch σ κ φ ρ) : Option (AvisoWatch σ κ φ ρ) :=
  match w.stage with
  | .checking l => some (if w.flag then w.goto (.closing t.graceful) else w.goto (.selecting l))
  | .selecting l =>
    some (if w.permit then { w with permit := false, stage := .closing t.graceful } else w.goto (.receiving l))
  | .receiving l =>
    match t.poll l.stream with
    | (.pending, stream) => some (w.goto (.selecting { l with stream := stream }))
    | (.ready item, stream) => some (w.receive t { l with stream := stream } item)
  | .ending outcome => some ((w.mark (.endStarted outcome)).goto (.inEnd outcome))
  | _ => none

def reply (t : Task σ ι κ φ ρ) (w : AvisoWatch σ κ φ ρ) (r : Reply) : Option (AvisoWatch σ κ φ ρ) :=
  match w.stage with
  | .calling l call =>
    let w := w.mark (.returned call r)
    match t.onReply l.kept call r with
    | .error reason => some (w.goto (.closing reason))
    | .ok kept => some (w.goto (.checking { l with kept := kept }))
  | _ => none

/-- A call of wait returns. -/
def release (w : AvisoWatch σ κ φ ρ) (i : Nat) (result : WaitResult) : AvisoWatch σ κ φ ρ :=
  { w with waiters := w.waiters.set i (.returned result), trace := w.trace ++ [.waited result] }

def lock (w : AvisoWatch σ κ φ ρ) (i : Nat) : Option (AvisoWatch σ κ φ ρ) :=
  if w.waiters[i]? = some .locking ∧ .joining ∉ w.waiters then
    if w.poisoned then some (w.release i .poisoned)
    else if w.joined then some (w.release i .success)
    else some { w with waiters := w.waiters.set i .joining }
  else none

def join (w : AvisoWatch σ κ φ ρ) (i : Nat) : Option (AvisoWatch σ κ φ ρ) :=
  if w.waiters[i]? = some .joining then
    match w.stage with
    | .finished => some { w.release i .success with joined := true }
    | .panicked => some { w.release i .panicked with joined := true }
    | _ => none
  else none

def step (t : Task σ ι κ φ ρ) : Lib.Machine (AvisoWatch σ κ φ ρ) (WatchEvent σ) := fun w event =>
  match event with
  | .opened result =>
    match w.stage, result with
    | .opening, .ok stream => some (w.goto (.checking ⟨stream, t.fresh⟩))
    | .opening, .error outcome => some (w.goto (.ending outcome))
    | _, _ => none
  | .advance => w.advance t
  | .replied r => w.reply t r
  | .closed =>
    match w.stage with
    | .closing reason => some (w.goto (.ending (t.outcome reason)))
    | _ => none
  | .endReturned =>
    match w.stage with
    | .inEnd _ => some ((w.mark .endReturned).goto .finished)
    | _ => none
  | .fault =>
    match w.stage with
    | .opening | .receiving _ | .closing _ => some (w.goto .panicked)
    | _ => none
  | .raise =>
    if w.freed then none
    else some { w with flag := true, notifying := w.notifying + 1, trace := w.trace ++ [.stopRequested] }
  | .notify =>
    if w.notifying = 0 then none else some { w with notifying := w.notifying - 1, permit := true }
  | .wait onRuntime =>
    if w.freed then none
    else if onRuntime then
      some { w with waiters := w.waiters ++ [.returned .invalidUsage], trace := w.trace ++ [.waited .invalidUsage] }
    else some { w with waiters := w.waiters ++ [.locking] }
  | .lock i => w.lock i
  | .join i => w.join i
  | .unwind i =>
    if w.waiters[i]? = some .joining then some { w.release i .panicked with poisoned := true } else none
  -- The caller frees a handle nobody else uses any more.
  | .free =>
    if w.freed = false ∧ w.notifying = 0 ∧ .locking ∉ w.waiters ∧ .joining ∉ w.waiters then
      some { w with freed := true, flag := true, notifying := 1, trace := w.trace ++ [.stopRequested] }
    else none

end AvisoWatch

/-- Why the loop of a single watch ended. -/
inductive EndReason where
  | graceful
  | failed (error : ClientError)
  | panicked
  deriving DecidableEq, Repr

/-- `run_watch`; the stream answers its k-th poll with `answers k`. -/
def runWatch {ν : Type} (display : ClientError → Text) (answers : Nat → Poll (Option (Except ClientError ν))) :
    Task Nat (Except ClientError ν) ν Unit EndReason where
  poll := fun k => (answers k, k + 1)
  fresh := ()
  onItem := fun _ item =>
    match item with
    | some (.ok notification) => .ok notification
    | some (.error err) => .error (.failed err)
    | none => .error .graceful
  onReply := fun _ _ r =>
    match r with
    | .answered true => .ok ()
    | .answered false => .error .graceful
    | .unwound => .error .panicked
  graceful := .graceful
  outcome := fun reason =>
    match reason with
    | .graceful => .empty
    | .failed err => .error (mapError display err)
    | .panicked => .error panicError

/-- Why the loop of a merged watch ended. -/
inductive ManyEndReason where
  | graceful
  /-- `on_error` returned `false` for this failure. -/
  | stopped (failure : EntryError)
  /-- Every watch failed and `on_error` kept going each time. -/
  | allFailed (failures : List EntryError)
  | panicked
  deriving DecidableEq, Repr

/-- A call into C from the loop of a merged watch. -/
inductive ManyCall (ν : Type) where
  | onNotification (name : String) (notification : ν)
  | onError (failure : EntryError)
  deriving DecidableEq, Repr

/-- `run_watch_many` over `count` watches; it keeps the failures `on_error` chose to continue past. -/
def runWatchMany {ν : Type} (display : ClientError → Text) (count : Nat)
    (answers : Nat → Nat → Poll (Option (Except ClientError ν))) :
    Task MultiNotificationStream (Yield ν ClientError) (ManyCall ν) (List EntryError) ManyEndReason where
  poll := fun s => s.pollNext answers
  fresh := []
  onItem := fun failures item =>
    match item with
    | some y =>
      match y.item with
      | .ok notification => .ok (.onNotification y.name notification)
      | .error err => .ok (.onError ⟨y.name, err⟩)
    | none => if failures.length = count then .error (.allFailed failures) else .error .graceful
  onReply := fun failures call r =>
    match call, r with
    | .onNotification _ _, .answered true => .ok failures
    | .onNotification _ _, .answered false => .error .graceful
    | .onError failure, .answered true => .ok (failures ++ [failure])
    | .onError failure, .answered false => .error (.stopped failure)
    | _, .unwound => .error .panicked
  graceful := .graceful
  outcome := fun reason =>
    match reason with
    | .graceful => .empty
    | .stopped failure => .error (entryError display failure)
    | .allFailed failures => .error (allFailedError display failures)
    | .panicked => .error panicError

end Aviso.Ffi
