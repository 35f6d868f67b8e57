import Aviso.Basics
import Aviso.Lib.Runs
import Mathlib.Data.List.Dedup

namespace Aviso.Py

/-- A function trigger as the native side passes it; what the function does is up to its answers. -/
structure FunctionTrigger where
  name : Text
  retries : Nat
  required : Bool
  deriving DecidableEq, Repr

/-- How a call into the caller's code ends. -/
inductive Answer (ε : Type) where
  | returned
  /-- It returned something to await; on an event loop that is awaited and is no answer yet. -/
  | awaitable
  /-- An `Exception`. -/
  | raised (e : ε)
  /-- `asyncio.CancelledError`. -/
  | cancelled
  /-- Any other `BaseException`. -/
  | escaped (e : ε)
  deriving DecidableEq, Repr

inductive ListenFailureKind where
  | listener
  | trigger
  deriving DecidableEq, Repr

/-- What `__next__` raises. -/
inductive PyError (ε : Type) where
  | stopIteration
  | cancelled
  | user (e : ε)
  | escaped (e : ε)
  /-- `TypeError`: plain code got an awaitable. -/
  | awaitable
  /-- `AvisoError` of a listener, with its name on it. -/
  | listener (name : Text) (e : ε)
  /-- `TriggerError` of a function. -/
  | trigger (name : Text) (function : Text) (attempts : Nat) (cause : ε)
  | allFailed (failures : List (Text × ListenFailureKind × PyError ε))
  /-- An exception that came while the listeners were closed for `context`, its `__context__`. -/
  | during (error context : PyError ε)

/-- A failure of a listener, or of a function for one of its notifications. -/
abbrev ListenFailure (ε : Type) := Text × ListenFailureKind × PyError ε

inductive OnError where
  | raise
  | proceed
  /-- A function is asked. -/
  | ask
  deriving DecidableEq, Repr

structure ListenConfig where
  functions : Text → List FunctionTrigger
  onError : OnError
  count : Nat
  /-- The iterator of `AsyncAvisoClient`. -/
  onLoop : Bool

/-- What the native iterator answers to a read. -/
inductive RawItem (ν ε : Type) where
  | notification (name : Text) (n : ν)
  | failure (name : Text) (e : ε)
  | ended
  | broke (answer : Answer ε)

/-- What became of an item that was read. -/
inductive Fate (ε : Type) where
  | yielded
  | failed (error : PyError ε)
  /-- The exception ended the read in the middle of the item. -/
  | cut (error : PyError ε)

structure Entry (ν ε : Type) where
  listener : Text
  item : Except ε ν
  /-- The calls of function triggers made with it, in order. -/
  calls : List (FunctionTrigger × Answer ε)
  fate : Fate ε

inductive ReadPhase (ν ε : Type) where
  | idle
  /-- In the native iterator. -/
  | reading
  /-- In the first function of `todo`, which has raised `attempt` times. -/
  | calling (listener : Text) (n : ν) (calls : List (FunctionTrigger × Answer ε)) (todo : List FunctionTrigger)
      (attempt : Nat)
  /-- In the caller's `on_error`. -/
  | asking (failure : ListenFailure ε)
  /-- In the native `close`, after the end of the native iterator. -/
  | ending
  /-- In the native `close`, before `error` leaves. -/
  | closing (error : PyError ε)

inductive ListenEvent (ν ε : Type) where
  | next
  | raw (item : RawItem ν ε)
  /-- The function that runs answers. -/
  | answer (answer : Answer ε)
  /-- `on_error` answers. -/
  | verdict (answer : Answer ε)
  /-- The native `close` that the read waits for comes back, or is broken into. -/
  | released (answer : Answer ε)
  /-- `close`, from anywhere else. -/
  | close

/-- A `MultiNotificationIterator` or `AsyncMultiNotificationIterator`, with the items read, what
`on_error` answered and what `__next__` gave so far. -/
structure Listener (ν ε : Type) where
  phase : ReadPhase ν ε
  closed : Bool
  stopped : Bool
  failures : List (ListenFailure ε)
  /-- How often the native `close` was called. -/
  closes : Nat
  history : List (Entry ν ε)
  asked : List (ListenFailure ε × Answer ε)
  returned : List (Except (PyError ε) (Text × ν))

/-- What an answer other than a return raises through the code around the call. -/
def Answer.raises (onLoop : Bool) : Answer ε → Option (PyError ε)
  | .returned => none
  | .awaitable => if onLoop then none else some .awaitable
  | .raised e => some (.user e)
  | .cancelled => some .cancelled
  | .escaped e => some (.escaped e)

namespace Listener

variable {ν ε : Type}

def init : Listener ν ε := ⟨.idle, false, false, [], 0, [], [], []⟩

def close (s : Listener ν ε) : Listener ν ε :=
  if s.closed then s else { s with closed := true, closes := s.closes + 1 }

def give (s : Listener ν ε) (result : Except (PyError ε) (Text × ν)) : Listener ν ε :=
  { s with phase := .idle, returned := s.returned ++ [result] }

/-- An exception leaves `__next__`, once the listeners are closed; on an event loop a cancelled read
leaves them as they are. -/
def leave (cfg : ListenConfig) (s : Listener ν ε) (error : PyError ε) : Listener ν ε :=
  match cfg.onLoop, error with
  | true, .cancelled => s.give (.error .cancelled)
  | _, _ =>
    if s.closed then { s with stopped := true }.give (.error error)
    else { s.close with stopped := true, phase := .closing error }

def settle (s : Listener ν ε) (entry : Entry ν ε) : Listener ν ε := { s with history := s.history ++ [entry] }

def heed (s : Listener ν ε) (failure : ListenFailure ε) (answer : Answer ε) : Listener ν ε :=
  { s with asked := s.asked ++ [(failure, answer)] }

/-- `_fail`. -/
def fail (cfg : ListenConfig) (s : Listener ν ε) (failure : ListenFailure ε) : Listener ν ε :=
  let s := { s with failures := s.failures ++ [failure] }
  match cfg.onError with
  | .raise => s.leave cfg failure.2.2
  | .proceed => { s with phase := .reading }
  | .ask => { s with phase := .asking failure }

/-- `failed_listeners`. -/
def failedListeners (s : Listener ν ε) : List Text :=
  ((s.failures.filter fun failure => failure.2.1 = .listener).map Prod.fst).dedup

/-- `check_all_failed`, and what is raised once the native iterator has ended. -/
def allFailed (cfg : ListenConfig) (s : Listener ν ε) : PyError ε :=
  if cfg.onError ≠ .raise ∧ cfg.count ≠ 0 ∧ s.failedListeners.length = cfg.count then .allFailed s.failures
  else .stopIteration

/-- The next function, or the notification is yielded. -/
def serve (s : Listener ν ε) (listener : Text) (n : ν) (calls : List (FunctionTrigger × Answer ε)) :
    List FunctionTrigger → Listener ν ε
  | [] => (s.settle ⟨listener, .ok n, calls, .yielded⟩).give (.ok (listener, n))
  | f :: todo => { s with phase := .calling listener n calls (f :: todo) 0 }

/-- The loop of `call_functions`, from the answer of a call. -/
def answered (cfg : ListenConfig) (s : Listener ν ε) (listener : Text) (n : ν)
    (calls : List (FunctionTrigger × Answer ε)) (f : FunctionTrigger) (todo : List FunctionTrigger) (attempt : Nat)
    (answer : Answer ε) : Option (Listener ν ε) :=
  let calls := calls ++ [(f, answer)]
  match answer with
  | .returned => some (s.serve listener n calls todo)
  | .raised e =>
    if attempt < f.retries then some { s with phase := .calling listener n calls (f :: todo) (attempt + 1) }
    else if f.required then
      let error := .trigger listener f.name (f.retries + 1) e
      some ((s.settle ⟨listener, .ok n, calls, .failed error⟩).fail cfg (listener, .trigger, error))
    else some (s.serve listener n calls todo)
  | answer => (answer.raises cfg.onLoop).map fun error => (s.settle ⟨listener, .ok n, calls, .cut error⟩).leave cfg error

def step (cfg : ListenConfig) : Lib.Machine (Listener ν ε) (ListenEvent ν ε) := fun s event =>
  match s.phase, event with
  | _, .close => some s.close
  | .idle, .next => some (if s.stopped then s.give (.error .stopIteration) else { s with phase := .reading })
  | .reading, .raw (.notification name n) => some (s.serve name n [] (cfg.functions name))
  | .reading, .raw (.failure name e) =>
    some ((s.settle ⟨name, .error e, [], .failed (.listener name e)⟩).fail cfg (name, .listener, .listener name e))
  | .reading, .raw .ended =>
    some (if s.closed then s.leave cfg (s.allFailed cfg) else { s.close with phase := .ending })
  | .reading, .raw (.broke answer) => (answer.raises cfg.onLoop).map fun error => s.leave cfg error
  | .calling listener n calls (f :: todo) attempt, .answer answer => s.answered cfg listener n calls f todo attempt answer
  | .asking failure, .verdict .returned => some { s.heed failure .returned with phase := .reading }
  | .asking failure, .verdict answer =>
    (answer.raises cfg.onLoop).map fun error => (s.heed failure answer).leave cfg error
  | _, .released .awaitable => none
  | .ending, .released .returned => some (s.leave cfg (s.allFailed cfg))
  | .ending, .released answer => (answer.raises cfg.onLoop).map fun error => s.leave cfg error
  | .closing error, .released .returned => some (s.give (.error error))
  | .closing error, .released answer => (answer.raises cfg.onLoop).map fun later => s.give (.error (.during later error))
  | _, _ => none

end Listener

end Aviso.Py
