import Aviso.Ffi.Watch

namespace Aviso.Ffi.Facade

/-- Where `Watch::finish` is. -/
inductive FinishStage where
  /-- Between the two writes of its stop. -/
  | stopping
  | stopped
  | waiting (i : Nat)
  | drained (result : WaitResult)
  deriving DecidableEq, Repr

/-- A `finish` of the watch an object holds; a move assignment then takes over what another holds. -/
structure Finish where
  object : Nat
  other : Option Nat
  onRuntime : Bool
  stage : FinishStage
  deriving DecidableEq, Repr

/-- A watch of the C interface with its `WatchState`. -/
structure Running (σ κ φ ρ : Type) where
  core : AvisoWatch σ κ φ ρ
  callbackError : Option OutcomeError
  /-- What `on_end` of the handler was called with. -/
  reported : Option (Option OutcomeError)
  finishing : Option Finish
  stateFreed : Bool
  stateLeaked : Bool

inductive RunningEvent (σ : Type) where
  /-- The task, or a call of wait, takes a step. -/
  | core (event : WatchEvent σ)
  /-- The handler answers a callback, or throws. -/
  | handled (answer : Except (Option Text) Bool)
  /-- A step of `stop()` or `wait()`. -/
  | use (event : WatchEvent σ)
  | finish (object : Nat) (other : Option Nat) (onRuntime : Bool)
  /-- A step of `finish`. -/
  | proceed

/-- `record_callback_error`; only a `std::exception` says what happened. -/
def recordCallbackError (callback : Text) (what : Option Text) : OutcomeError :=
  let what := what.getD "an exception not derived from std::exception".toList
  ⟨.internal, 0, "the handler's ".toList ++ callback ++ " threw: ".toList ++ what, none, none, none⟩

/-- How the trampolines of a single watch, and of a merged one, name the callback of a call. -/
def watchCallback {ν : Type} (_ : ν) : Text := "on_notification".toList

def watchManyCallback {ν : Type} : ManyCall ν → Text
  | .onNotification _ _ => "on_notification".toList
  | .onError _ => "on_error".toList

/-- The error an ended watch reports: the exception of the handler first. -/
def endError (callbackError : Option OutcomeError) (outcome : AvisoOutcome) : Option OutcomeError :=
  match callbackError with
  | some error => some error
  | none =>
    match outcome with
    | .empty => none
    | .error error => some error

namespace Running

variable {σ ι κ φ ρ : Type}

def start (built : Except AvisoOutcome Unit) : Running σ κ φ ρ :=
  { core := .spawn built, callbackError := none, reported := none, finishing := none
    stateFreed := false, stateLeaked := false }

def setCore (r : Running σ κ φ ρ) (core : AvisoWatch σ κ φ ρ) : Running σ κ φ ρ := { r with core := core }

def setFinish (r : Running σ κ φ ρ) (f : Finish) : Running σ κ φ ρ := { r with finishing := some f }

/-- The steps that no object of the facade takes. -/
def isCore : WatchEvent σ → Bool
  | .opened _ | .advance | .closed | .endReturned | .fault | .lock _ | .join _ | .unwind _ => true
  | .replied _ | .raise | .notify | .wait _ | .free => false

def isUse : WatchEvent σ → Bool
  | .raise | .notify | .wait _ => true
  | _ => false

/-- The task calls `on_end`, which asks for the error to report. -/
def endReport (r : Running σ κ φ ρ) : WatchEvent σ → Option (Option OutcomeError)
  | .advance =>
    match r.core.stage with
    | .ending outcome => some (endError r.callbackError outcome)
    | _ => r.reported
  | _ => r.reported

/-- The reply the C callback gives for the answer of the handler. -/
def reply (callback : κ → Text) (r : Running σ κ φ ρ) (call : κ) :
    Except (Option Text) Bool → Running σ κ φ ρ × Reply
  | .ok go => (r, .answered go)
  | .error what => ({ r with callbackError := some (recordCallbackError (callback call) what) }, .answered false)

def proceed (t : Task σ ι κ φ ρ) (r : Running σ κ φ ρ) (f : Finish) : Option (Running σ κ φ ρ) :=
  match f.stage with
  | .stopping =>
    (AvisoWatch.step t r.core .notify).map fun core => (r.setCore core).setFinish { f with stage := .stopped }
  | .stopped =>
    let stage := if f.onRuntime then .drained .invalidUsage else .waiting r.core.waiters.length
    (AvisoWatch.step t r.core (.wait f.onRuntime)).map fun core => (r.setCore core).setFinish { f with stage := stage }
  | .waiting i =>
    match r.core.waiters[i]? with
    | some (.returned result) => some (r.setFinish { f with stage := .drained result })
    | _ => none
  | .drained result =>
    (AvisoWatch.step t r.core .free).map fun core =>
      { r with
        core := core, finishing := none
        stateFreed := result ≠ .invalidUsage, stateLeaked := result = .invalidUsage }

def step (t : Task σ ι κ φ ρ) (callback : κ → Text) : Lib.Machine (Running σ κ φ ρ) (RunningEvent σ) := fun r event =>
  match event with
  | .core event =>
    if isCore event then
      (AvisoWatch.step t r.core event).map fun core => { r with core := core, reported := r.endReport event }
    else none
  | .handled answer =>
    match r.core.stage with
    | .calling _ call =>
      let (r, reply) := r.reply callback call answer
      (AvisoWatch.step t r.core (.replied reply)).map r.setCore
    | _ => none
  | .use event =>
    -- An object is not used while it is finished.
    if isUse event ∧ r.finishing = none then (AvisoWatch.step t r.core event).map r.setCore else none
  | .finish object other onRuntime =>
    -- And it is not finished while it is used.
    if r.finishing = none ∧ r.core.notifying = 0 ∧ .locking ∉ r.core.waiters ∧ .joining ∉ r.core.waiters then
      (AvisoWatch.step t r.core .raise).map fun core => (r.setCore core).setFinish ⟨object, other, onRuntime, .stopping⟩
    else none
  | .proceed => r.finishing.bind (r.proceed t)

/-- The `finish` of a watch that has waited for it. -/
def drained (r : Running σ κ φ ρ) : Option Finish :=
  r.finishing.bind fun f =>
    match f.stage with
    | .drained _ => some f
    | _ => none

end Running

/-- The `Watch` objects of a program, each with the watch it holds if it was not moved from. -/
structure Program (σ κ φ ρ : Type) where
  running : List (Running σ κ φ ρ)
  objects : List (Option Nat)

inductive ProgramEvent (σ : Type) where
  | watch (built : Except AvisoOutcome Unit)
  /-- A new object is made from the one at `o`. -/
  | move (o : Nat)
  | stop (o : Nat)
  | wait (o : Nat) (onRuntime : Bool)
  /-- The destructor of an object, or an assignment to it. -/
  | finish (o : Nat) (other : Option Nat) (onRuntime : Bool)
  /-- A step of a watch by itself. -/
  | on (c : Nat) (event : RunningEvent σ)
  /-- A `finish` that has waited releases what the object holds. -/
  | release (c : Nat)

namespace Program

variable {σ ι κ φ ρ : Type}

/-- The watch an object holds. -/
def holds (p : Program σ κ φ ρ) (o : Nat) : Option Nat := p.objects[o]?.join

/-- No other thread finishes the watch an object holds. -/
def still (p : Program σ κ φ ρ) (o : Nat) : Bool :=
  match p.holds o with
  | some c => (p.running[c]?.bind (·.finishing)).isNone
  | none => true

/-- An object takes over what another holds, if it is assigned from one. -/
def takeOver (objects : List (Option Nat)) (o : Nat) (other : Option Nat) : List (Option Nat) :=
  match other with
  | none => objects.set o none
  | some o' => (objects.set o' none).set o objects[o']?.join

/-- A watch takes a step. -/
def turn (t : Task σ ι κ φ ρ) (callback : κ → Text) (p : Program σ κ φ ρ) (c : Nat) (event : RunningEvent σ) :
    Option (Program σ κ φ ρ) :=
  p.running[c]?.bind fun r => (r.step t callback event).map fun r' => { p with running := p.running.set c r' }

/-- The steps a watch takes by itself. -/
def isOwn : RunningEvent σ → Bool
  | .core _ | .handled _ | .use .notify | .proceed => true
  | .use _ | .finish _ _ _ => false

def step (t : Task σ ι κ φ ρ) (callback : κ → Text) : Lib.Machine (Program σ κ φ ρ) (ProgramEvent σ) := fun p event =>
  match event with
  | .watch built => some ⟨p.running ++ [.start built], p.objects ++ [some p.running.length]⟩
  | .move o =>
    if o < p.objects.length ∧ p.still o then some { p with objects := p.objects.set o none ++ [p.holds o] } else none
  -- Both throw on an object that was moved from, and nothing else happens.
  | .stop o =>
    match p.holds o with
    | some c => p.turn t callback c (.use .raise)
    | none => some p
  | .wait o onRuntime =>
    match p.holds o with
    | some c => p.turn t callback c (.use (.wait onRuntime))
    | none => some p
  | .finish o other onRuntime =>
    if other = some o then some p
    else
      match p.holds o with
      | some c => p.turn t callback c (.finish o other onRuntime)
      | none =>
        if o < p.objects.length ∧ other.all p.still then some { p with objects := takeOver p.objects o other } else none
  | .on c event =>
    if isOwn event ∧ (p.running[c]?.bind (·.drained)) = none then p.turn t callback c event else none
  | .release c =>
    (p.running[c]?.bind (·.drained)).bind fun f =>
      if f.other.all p.still then
        (p.turn t callback c .proceed).map fun p => { p with objects := takeOver p.objects f.object f.other }
      else none

end Program
end Aviso.Ffi.Facade
