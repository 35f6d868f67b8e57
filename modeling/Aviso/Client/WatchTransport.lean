import Aviso.Lib.Runs
import Mathlib.Data.List.DropRight

namespace Aviso.Client

/-- One HTTP client and how many watches it carries. -/
structure Slot (κ : Type) where
  http : κ
  active : Nat
  deriving DecidableEq, Repr

/-- A watch's claim on one connection. -/
structure Lease (κ : Type) where
  index : Nat
  http : κ
  deriving DecidableEq, Repr

/-- The set of HTTP clients watches lease from. -/
structure WatchTransport (κ : Type) where
  perConnection : Nat
  nonzero : 0 < perConnection
  slots : List (Slot κ)

namespace WatchTransport

def new (perConnection : Nat) (nonzero : 0 < perConnection) (first : κ) : WatchTransport κ :=
  ⟨perConnection, nonzero, [⟨first, 0⟩]⟩

/-- The lease of the first slot with room, and the slots with it taken. -/
def leaseFirstFree (t : WatchTransport κ) : Option (Lease κ × WatchTransport κ) :=
  (t.slots.findIdx? (·.active < t.perConnection)).bind fun index =>
    t.slots[index]?.map fun slot =>
      (⟨index, slot.http⟩,
        { t with slots := t.slots.set index { slot with active := slot.active + 1 } })

/-- A new client with its first lease. -/
def push (t : WatchTransport κ) (built : κ) : Lease κ × WatchTransport κ :=
  (⟨t.slots.length, built⟩, { t with slots := t.slots ++ [⟨built, 1⟩] })

/-- The loop of `Lease::drop` that releases the idle clients at the end, keeping the first. -/
def trim : List (Slot κ) → List (Slot κ)
  | [] => []
  | first :: rest => first :: rest.rdropWhile (·.active = 0)

/-- `Lease::drop`. -/
def release (t : WatchTransport κ) (lease : Lease κ) : WatchTransport κ :=
  { t with
    slots := trim (t.slots.modify lease.index fun slot => { slot with active := slot.active - 1 }) }

end WatchTransport

/-- A transport with everyone who uses it: the live leases, and how many calls of
`acquire` are building a client without the lock. -/
structure World (κ : Type) where
  transport : WatchTransport κ
  leases : List (Lease κ)
  building : Nat

/-- One critical section of one user. -/
inductive Event (κ : Type) where
  /-- `acquire` looks for a free slot. -/
  | acquire
  /-- The factory has returned to an `acquire`, which looks again. -/
  | built (client : Option κ)
  /-- The live lease at this position is dropped. -/
  | drop (position : Nat)
  deriving DecidableEq, Repr

namespace World

def init (perConnection : Nat) (nonzero : 0 < perConnection) (first : κ) : World κ :=
  ⟨.new perConnection nonzero first, [], 0⟩

def slots (w : World κ) : List (Slot κ) := w.transport.slots

/-- An `acquire` returns a lease. -/
def grant (w : World κ) (granted : Lease κ × WatchTransport κ) : World κ :=
  { w with transport := granted.2, leases := granted.1 :: w.leases }

def step : Lib.Machine (World κ) (Event κ) := fun w event =>
  match event with
  | .acquire =>
    match w.transport.leaseFirstFree with
    | some granted => some (w.grant granted)
    | none => some { w with building := w.building + 1 }
  | .built client =>
    if w.building = 0 then none
    else
      let w := { w with building := w.building - 1 }
      match client with
      | none => some w
      | some client => some (w.grant (w.transport.leaseFirstFree.getD (w.transport.push client)))
  | .drop position =>
    w.leases[position]?.map fun lease =>
      { w with transport := w.transport.release lease, leases := w.leases.eraseIdx position }

end World
end Aviso.Client
