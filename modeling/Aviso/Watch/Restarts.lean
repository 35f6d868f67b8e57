import Aviso.Watch.Supervisor

namespace Aviso.Watch

open State (Checkpoint)

/-- What one run of a watch was started with, and what it did. -/
structure Record where
  setup : Setup
  trace : List Effect

/-- One watch identity over the life of its store: one process at a time runs it. -/
structure Life where
  eventType : Text
  store : Option Checkpoint
  current : Option (Setup × System)
  past : List Record

/-- Whether a put of the run took effect in the store. -/
def Record.stored (r : Record) : Bool := r.trace.any fun
  | .landed _ => true
  | _ => false

inductive LifeEvent where
  | launch (c : Setup)
  /-- A step of the process that runs. -/
  | input (i : Input)
  /-- The process is gone, wherever it was. -/
  | crash

namespace Life

def init (eventType : Text) (store : Option Checkpoint) : Life := ⟨eventType, store, none, []⟩

/-- The runs so far, the present one last. -/
def runs (w : Life) : List Record :=
  w.past ++ (w.current.map fun (c, s) => (⟨c, s.trace⟩ : Record)).toList

/-- Setups of one identity may differ in all but the event type and the filter. -/
def admits (w : Life) (c : Setup) : Bool :=
  c.request.eventType = w.eventType && c.request.filter.isEmpty && c.request.start.isNone &&
    c.hasStore

def step : Lib.Machine Life LifeEvent := fun w event =>
  match event with
  | .launch c =>
    if w.current.isNone && w.admits c then
      some { w with current := some (c, System.start w.store) }
    else none
  | .input i =>
    w.current.bind fun (c, s) =>
      (System.step c s i).map fun s' => { w with store := s'.store, current := some (c, s') }
  | .crash =>
    w.current.map fun (c, s) => { w with current := none, past := w.past ++ [⟨c, s.trace⟩] }

end Life
end Aviso.Watch
