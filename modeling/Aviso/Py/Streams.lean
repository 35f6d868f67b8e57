import Aviso.Lib.Runs
import Aviso.Watch.Multi

namespace Aviso.Py

open Watch (Poll)

/-- The awaitables of an async iterator, and the task a cancelled `run` leaves behind. -/
inductive Role where
  | anext
  | run
  | aclose
  | background
  deriving DecidableEq, Repr

/-- What an awaitable gives back; `ended` is `StopAsyncIteration`, or the `None` of `run` and `aclose`. -/
inductive Outcome (ν ε : Type) where
  | ended
  | item (notification : ν)
  | error (err : ε)
  deriving DecidableEq, Repr

/-- Where an awaitable is. From `registered` on, `woken` tells whether the wake-up it registered
for has come. -/
inductive Stage (ν ε : Type) where
  | created
  | notifying
  | entering
  /-- It waits for the lock. -/
  | queued
  | holding
  | registered (woken : Bool)
  /-- `select!` polls the wake-up first, and then the stream. -/
  | selecting (woken : Bool)
  | receiving (woken : Bool)
  | parked (woken : Bool)
  | leaving (outcome : Outcome ν ε)
  | taking (outcome : Outcome ν ε)
  /-- It took the stream out and waits for the core to close it. -/
  | closing (outcome : Outcome ν ε)
  | done (outcome : Outcome ν ε)
  | dropped
  deriving DecidableEq, Repr

inductive Mark (ν ε : Type) where
  /-- The flag is stored. -/
  | requested
  | read (i : Nat) (item : Option (Except ε ν))
  | taken (i : Nat)
  | closed (i : Nat)
  /-- The stream was dropped in the middle of its close. -/
  | abandoned (i : Nat)
  | returned (i : Nat) (outcome : Outcome ν ε)
  /-- A `run` that had begun was cancelled. -/
  | cancelled (i : Nat)
  deriving DecidableEq, Repr

/-- What a step does with the lock. -/
inductive LockUse where
  | keep
  | join
  | leave
  deriving DecidableEq, Repr

/-- What a step of an awaitable does. -/
structure Effect (σ ν ε : Type) where
  stage : Stage ν ε
  inner : Option σ
  lock : LockUse := .keep
  /-- It stores the flag. -/
  requests : Bool := false
  /-- `notify_waiters`. -/
  wakes : Bool := false
  marks : List (Mark ν ε) := []

namespace Effect

variable {σ ν ε : Type}

def goto (inner : Option σ) (stage : Stage ν ε) : Effect σ ν ε := { stage := stage, inner := inner }

/-- The awaitable returns, and its guard releases the lock. -/
def finish (inner : Option σ) (i : Nat) (outcome : Outcome ν ε) (marks : List (Mark ν ε)) : Effect σ ν ε :=
  { stage := .done outcome, inner := inner, lock := .leave, marks := marks ++ [.returned i outcome] }

/-- Reading ends: `__anext__` returns, and `run` goes on to close. -/
def leave (inner : Option σ) (role : Role) (i : Nat) (outcome : Outcome ν ε) (marks : List (Mark ν ε)) :
    Effect σ ν ε :=
  match role with
  | .anext => finish inner i outcome marks
  | _ => { stage := .leaving outcome, inner := inner, marks := marks }

end Effect

structure Op (ν ε : Type) where
  role : Role
  stage : Stage ν ε
  deriving DecidableEq, Repr

/-- An async iterator with all its awaitables. `queue` is the lock: a fair one, held by its head. -/
structure AsyncNotificationIterator (σ ν ε : Type) where
  inner : Option σ
  closed : Bool
  queue : List Nat
  ops : List (Op ν ε)
  trace : List (Mark ν ε)
  deriving DecidableEq, Repr

inductive StreamEvent where
  /-- Python calls a method. -/
  | call (role : Role)
  /-- An awaitable takes a step that waits for nobody. -/
  | advance (i : Nat)
  /-- The core has closed the stream an awaitable took out. -/
  | closed (i : Nat)
  /-- The task that awaits is cancelled, and the future is dropped. -/
  | drop (i : Nat)
  deriving DecidableEq, Repr

section Turn

variable {σ ν ε : Type} (poll : σ → Poll (Option (Except ε ν)) × σ)

/-- What the stream answered ends `__anext__`; `run` reads on after a notification. -/
def receive (inner : Option σ) (role : Role) (i : Nat) (item : Option (Except ε ν)) : Effect σ ν ε :=
  match item with
  | some (.ok notification) =>
    match role with
    | .anext => .finish inner i (.item notification) [.read i item]
    | _ => { stage := .holding, inner := inner, marks := [.read i item] }
  | some (.error err) => .leave inner role i (.error err) [.read i item]
  | none => .leave inner role i .ended [.read i item]

/-- The next step of awaitable `i`, if it waits for nobody; `first` says that it is first at the lock. -/
def turn (i : Nat) (closed : Bool) (inner : Option σ) (first : Bool) (role : Role) :
    Stage ν ε → Option (Effect σ ν ε)
  | .created =>
    match role with
    | .anext => some (if closed then .finish inner i .ended [] else .goto inner .entering)
    | .run => some (.goto inner .entering)
    | .aclose | .background =>
      some { stage := .notifying, inner := inner, requests := true, marks := [.requested] }
  | .notifying => some { stage := .entering, inner := inner, wakes := true }
  | .entering => some { stage := .queued, inner := inner, lock := .join }
  | .queued =>
    if first then
      match role with
      | .anext | .run => some (.goto inner .holding)
      | .aclose | .background => some (.goto inner (.taking .ended))
    else none
  | .holding => some (.goto inner (.registered false))
  | .registered woken =>
    if closed then some (.leave inner role i .ended [])
    else
      match inner with
      | none => some (.leave inner role i .ended [])
      | some _ => some (.goto inner (.selecting woken))
  | .selecting woken =>
    some (if woken then .leave inner role i .ended [] else .goto inner (.receiving woken))
  | .receiving woken =>
    match inner with
    | none => none
    | some stream =>
      match poll stream with
      | (.pending, stream) => some (.goto (some stream) (.parked woken))
      | (.ready item, stream) => some (receive (some stream) role i item)
  | .parked woken => some (.goto inner (.selecting woken))
  | .leaving outcome =>
    some { stage := .taking outcome, inner := inner, requests := true, marks := [.requested] }
  | .taking outcome =>
    match inner with
    | some _ => some { stage := .closing outcome, inner := none, marks := [.taken i] }
    | none => some (.finish none i outcome [])
  | .closing _ | .done _ | .dropped => none

end Turn

def Stage.wake {ν ε : Type} : Stage ν ε → Stage ν ε
  | .registered _ => .registered true
  | .selecting _ => .selecting true
  | .receiving _ => .receiving true
  | .parked _ => .parked true
  | stage => stage

def Op.wake {ν ε : Type} (op : Op ν ε) : Op ν ε := { op with stage := op.stage.wake }

namespace AsyncNotificationIterator

variable {σ ν ε : Type}

def new (stream : σ) : AsyncNotificationIterator σ ν ε :=
  { inner := some stream, closed := false, queue := [], ops := [], trace := [] }

def setStage (ops : List (Op ν ε)) (i : Nat) (stage : Stage ν ε) : List (Op ν ε) :=
  ops.modify i fun op => { op with stage := stage }

def lockAfter (queue : List Nat) (i : Nat) : LockUse → List Nat
  | .keep => queue
  | .join => queue ++ [i]
  | .leave => queue.erase i

def apply (w : AsyncNotificationIterator σ ν ε) (i : Nat) (e : Effect σ ν ε) : AsyncNotificationIterator σ ν ε :=
  { inner := e.inner
    closed := w.closed || e.requests
    queue := lockAfter w.queue i e.lock
    ops := setStage (if e.wakes then w.ops.map Op.wake else w.ops) i e.stage
    trace := w.trace ++ e.marks }

def advance (poll : σ → Poll (Option (Except ε ν)) × σ) (w : AsyncNotificationIterator σ ν ε) (i : Nat) :
    Option (AsyncNotificationIterator σ ν ε) :=
  w.ops[i]?.bind fun op => (turn poll i w.closed w.inner (w.queue.head? = some i) op.role op.stage).map (w.apply i)

/-- A future is dropped with what it holds; a `run` that had begun closes in the background. -/
def abandon (w : AsyncNotificationIterator σ ν ε) (i : Nat) (role : Role) (marks : List (Mark ν ε)) :
    AsyncNotificationIterator σ ν ε :=
  let w := w.apply i { stage := .dropped, inner := w.inner, lock := .leave, marks := marks }
  match role with
  | .run => { w with ops := w.ops ++ [⟨.background, .created⟩], trace := w.trace ++ [.cancelled i] }
  | _ => w

/-- A future can be dropped where it awaits something; one that was never polled just goes. -/
def drop (w : AsyncNotificationIterator σ ν ε) (i : Nat) : Option (AsyncNotificationIterator σ ν ε) :=
  w.ops[i]?.bind fun op =>
    if op.role = .background then none
    else
      match op.stage with
      | .created => some (w.apply i { stage := .dropped, inner := w.inner })
      | .queued | .parked _ => some (w.abandon i op.role [])
      | .closing _ => some (w.abandon i op.role [.abandoned i])
      | _ => none

def step (poll : σ → Poll (Option (Except ε ν)) × σ) :
    Lib.Machine (AsyncNotificationIterator σ ν ε) StreamEvent := fun w event =>
  match event with
  | .call role => if role = .background then none else some { w with ops := w.ops ++ [⟨role, .created⟩] }
  | .advance i => w.advance poll i
  | .closed i =>
    w.ops[i]?.bind fun op =>
      match op.stage with
      | .closing outcome => some (w.apply i (.finish w.inner i outcome [.closed i]))
      | _ => none
  | .drop i => w.drop i

end AsyncNotificationIterator
end Aviso.Py
