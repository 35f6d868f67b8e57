import Aviso.Watch.Supervisor

namespace Aviso.Watch

inductive DispatchOutcome where
  | cancelled
  | requiredFailed (kind : String) (source : TriggerError)
  deriving DecidableEq, Repr

/-- Where `dispatch_triggers` is: at the probe before a trigger, in an attempt, or in the delay after one. -/
inductive DispatchStage where
  | probing (i : Nat)
  | attempting (i attempt : Nat)
  | backingOff (i attempt : Nat)
  | done (result : Except DispatchOutcome Unit)
  deriving DecidableEq, Repr

inductive DispatchInput where
  /-- What `check_cancelled` says. -/
  | probe (cancelled : Bool)
  | attempt (result : Except TriggerError Unit)
  | slept
  | cancelled
  deriving DecidableEq, Repr

inductive DispatchEvent where
  | attempted (i : Nat) (result : Except TriggerError Unit)
  /-- A cancellation was observed before the trigger or in a delay between its attempts. -/
  | cancelled (i : Nat)
  deriving DecidableEq, Repr

/-- A dispatch in progress, and what it did. -/
structure Dispatch where
  stage : DispatchStage
  log : List DispatchEvent
  deriving DecidableEq, Repr

namespace Dispatch

/-- The loop over the triggers reaches the i-th. -/
def enter (triggers : List Trigger) (i : Nat) : DispatchStage :=
  if i < triggers.length then .probing i else .done (.ok ())

def start (triggers : List Trigger) : Dispatch := ⟨enter triggers 0, []⟩

def goto (d : Dispatch) (stage : DispatchStage) : Dispatch := { d with stage := stage }

def note (d : Dispatch) (event : DispatchEvent) : Dispatch := { d with log := d.log ++ [event] }

def cancel (d : Dispatch) (i : Nat) : Dispatch :=
  (d.note (.cancelled i)).goto (.done (.error .cancelled))

/-- Where the loop over the attempts goes when one returns. -/
def afterAttempt (triggers : List Trigger) (trigger : Trigger) (i attempt : Nat) :
    Except TriggerError Unit → DispatchStage
  | .ok () => enter triggers (i + 1)
  | .error err =>
    if trigger.isTerminalError err || trigger.retries ≤ attempt then
      if trigger.required then .done (.error (.requiredFailed trigger.label err))
      else enter triggers (i + 1)
    else .backingOff i attempt

def step (triggers : List Trigger) : Lib.Machine Dispatch DispatchInput := fun d input =>
  match d.stage, input with
  | .probing i, .probe true => some (d.cancel i)
  | .probing i, .probe false => some (d.goto (.attempting i 0))
  | .attempting i attempt, .attempt result =>
    triggers[i]?.map fun trigger =>
      (d.note (.attempted i result)).goto (afterAttempt triggers trigger i attempt result)
  | .backingOff i _, .cancelled => some (d.cancel i)
  | .backingOff i attempt, .slept => some (d.goto (.attempting i (saturatingSucc32 attempt)))
  | _, _ => none

end Dispatch

/-- The inputs a dispatch goes on with. -/
def DispatchStage.awaits : DispatchStage → DispatchInput → Bool
  | .probing _, .probe _ => true
  | .attempting _ _, .attempt _ => true
  | .backingOff _ _, .slept | .backingOff _ _, .cancelled => true
  | _, _ => false

end Aviso.Watch
