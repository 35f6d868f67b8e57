import Aviso.Watch.Supervisor
import Aviso.Lib.History

namespace Aviso.Watch

namespace Effect

def sentSequence : Effect → Option Nat
  | .sent n => some n.sequence
  | _ => none

def dispatchedSequence : Effect → Option Nat
  | .dispatched n => some n.sequence
  | _ => none

/-- The value an effect puts in the store, or tries to. -/
def putSequence : Effect → Option Nat
  | .landed cp => some cp.lastCommittedSequence
  | .put cp _ => some cp.lastCommittedSequence
  | _ => none

def storedSequence : Effect → Option Nat
  | .put cp true => some cp.lastCommittedSequence
  | _ => none

/-- The effects by which a watch goes on delivering. -/
def Active : Effect → Prop
  | .requested _ | .received _ | .dispatched _ | .attempted _ _ | .sent _ => True
  | _ => False

/-- The effects that move no notification and no cursor. -/
def Quiet : Effect → Prop
  | .fetched _ | .refreshCalled | .backedOff _ | .confirmed _ | .reported _ | .ended _ _ => True
  | _ => False

end Effect

/-- The sequences of the notifications sent, in order. -/
def sentOf (t : List Effect) : List Nat := t.filterMap Effect.sentSequence

def dispatchedOf (t : List Effect) : List Nat := t.filterMap Effect.dispatchedSequence

def putsOf (t : List Effect) : List Nat := t.filterMap Effect.putSequence

/-- The value of the last successful put. -/
def lastPut (t : List Effect) : Option Nat := (t.filterMap Effect.storedSequence).getLast?

/-- The request names the position it was built from. -/
def Asks (start : Option ResumeStart) (body : WireWatchRequest) : Prop :=
  body.fromId = (start.bind ResumeStart.sequence).map (· + 1) ∧
    (body.fromDate.isSome ↔ ∃ d, start = some (.date d))

namespace Delivery

/-- What bears on delivery in the setup of a watch. -/
structure Config where
  start : Option ResumeStart
  hasStore : Bool
  relaxed : Bool
  /-- Which triggers are required, in order. -/
  required : List Bool

/-- How far the notification at hand has got. -/
inductive Phase where
  | resolving
  | idle
  | asking (start : Option ResumeStart) (body : WireWatchRequest)
  | listening (guard : GapGuard)
  | putting (guard : GapGuard) (n : Notification)
  | dispatching (guard : GapGuard) (n : Notification) (i : Nat)
  | sending (guard : GapGuard) (n : Notification)
  | leaving

/-- No notification is at hand. -/
def Phase.Calm : Phase → Prop
  | .putting _ _ | .dispatching _ _ _ | .sending _ _ => False
  | _ => True

/-- A watch, seen as two cursors over one sequence of notifications. -/
structure State where
  phase : Phase
  start : Option ResumeStart
  commit : Option Nat
  pending : Option PendingCommit
  store : Option State.Checkpoint
  trace : List Effect

namespace State

/-- Where the start position stands, if it is a sequence. -/
def floor (σ : State) : Option Nat := σ.start.bind ResumeStart.sequence

/-- Where the next request resumes. -/
def resume (σ : State) : Option ResumeStart :=
  ((lastDelivered σ.pending σ.commit).map ResumeStart.afterSequence).or σ.start

def enter (σ : State) (phase : Phase) : State := { σ with phase := phase }

def emit (σ : State) (e : Effect) : State := { σ with trace := σ.trace ++ [e] }

end State

/-- The positions a watch may start from: the one asked for, else what the store holds. -/
def Config.Resolves (c : Config) (store : Option State.Checkpoint) (start : Option ResumeStart) :
    Prop :=
  match c.start with
  | some s => start = some s
  | none =>
    if c.hasStore then start = store.map fun cp => .afterSequence cp.lastCommittedSequence
    else start = none

/-- The delivery protocol of a watch: what may happen to the notification at
hand, to the cursors and to the store, whatever the server, the triggers, the
store and the consumer do. -/
inductive Step (c : Config) : State → State → Prop where
  | quiet (e : Effect) : e.Quiet → σ.phase.Calm → Step c σ (σ.emit e)
  | resolve (start : Option ResumeStart) :
      σ.phase = .resolving → c.Resolves σ.store start →
      Step c σ { σ with
        phase := .idle, start := start, commit := start.bind ResumeStart.sequence, pending := none }
  | ask (body : WireWatchRequest) :
      σ.phase = .idle → Asks σ.resume body → Step c σ (σ.enter (.asking σ.resume body))
  | request :
      σ.phase = .asking start body →
      Step c σ ((σ.emit (.requested body)).enter (.listening (.new start c.relaxed)))
  | lose : σ.phase = .listening g → Step c σ (σ.enter .idle)
  /-- A wait is cut short, a send fails, a trigger fails or the server ends it. -/
  | leave : Step c σ (σ.enter .leaving)
  | refuse (n : Notification) :
      σ.phase = .listening g → g.observe n.sequence = .error reason →
      Step c σ ((σ.emit (.received n)).enter .leaving)
  | hold (n : Notification) (p : PendingCommit) :
      σ.phase = .listening g → n.sequence ≤ u64Max → g.observe n.sequence = .ok g' →
      c.hasStore = true → σ.pending = some p →
      Step c σ ((σ.emit (.received n)).enter (.putting g' n))
  | take (n : Notification) :
      σ.phase = .listening g → n.sequence ≤ u64Max → g.observe n.sequence = .ok g' →
      (c.hasStore = true → σ.pending = none) →
      Step c σ { ((σ.emit (.received n)).emit (.dispatched n)).enter (.dispatching g' n 0) with
        commit := lastDelivered σ.pending σ.commit }
  | land (p : PendingCommit) :
      σ.phase = .putting g n → σ.pending = some p →
      Step c σ { σ.emit (.landed p.checkpoint) with store := putMonotonic σ.store p.checkpoint }
  | stored (p : PendingCommit) :
      σ.phase = .putting g n → σ.pending = some p →
      Step c σ { ((σ.emit (.put p.checkpoint true)).emit (.dispatched n)).enter
        (.dispatching g n 0) with commit := some p.sequence }
  | rejected (p : PendingCommit) :
      σ.phase = .putting g n → σ.pending = some p →
      Step c σ ((σ.emit (.put p.checkpoint false)).enter .leaving)
  | retry (result : Except TriggerError Unit) :
      σ.phase = .dispatching g n i → Step c σ (σ.emit (.attempted i result))
  | pass (result : Except TriggerError Unit) :
      σ.phase = .dispatching g n i → (c.required[i]? = some true → result = .ok ()) →
      Step c σ ((σ.emit (.attempted i result)).enter (.dispatching g n (i + 1)))
  | complete :
      σ.phase = .dispatching g n i → c.required.length ≤ i → Step c σ (σ.enter (.sending g n))
  | send :
      σ.phase = .sending g n →
      Step c σ { (σ.emit (.sent n)).enter (.listening g) with
        pending := raisePending σ.commit σ.pending n }
  | flush (p : PendingCommit) :
      σ.phase = .leaving → σ.pending = some p →
      Step c σ { σ.emit (.landed p.checkpoint) with store := putMonotonic σ.store p.checkpoint }
  | flushed (p : PendingCommit) (ok : Bool) :
      σ.phase = .leaving → σ.pending = some p → Step c σ (σ.emit (.put p.checkpoint ok))

/-- Steps in any number. -/
abbrev Steps (c : Config) : State → State → Prop := Relation.ReflTransGen (Step c)

def State.initial (store : Option State.Checkpoint) : State :=
  ⟨.resolving, none, none, none, store, []⟩

end Delivery
end Aviso.Watch
