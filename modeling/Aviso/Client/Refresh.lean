import Aviso.Lib.Runs
import Aviso.Basics

namespace Aviso.Client

/-- `AtomicU64::fetch_add(1)`. -/
def wrappingSucc (n : Nat) : Nat := (n + 1) % 2 ^ 64

/-- The client all requests go through, with its clones. -/
structure Refreshing where
  hasAuth : Bool
  /-- A successful refresh publishes a new credential, as a provider with a cached token does. -/
  rotates : Bool

/-- Where a `send_with_refresh` is. A credential is the number of those published before it,
and none is attached without a provider. -/
inductive RequestStage (ε : Type) where
  | building
  /-- The credential is attached and the epoch is not read yet. -/
  | attached (credential : Option Nat)
  | sending (credential : Option Nat) (observed : Nat)
  /-- Before the lock in `refresh_once`. -/
  | waiting (credential : Option Nat) (observed : Nat)
  | locked (credential : Option Nat) (observed : Nat)
  /-- In the provider's `refresh`. -/
  | refreshing (credential : Option Nat) (observed : Nat) (published : Bool)
  /-- `refresh_once` has returned `Ok`. -/
  | renewed (credential : Option Nat) (observed : Nat) (skipped : Bool)
  | resending (credential : Option Nat) (observed : Nat) (skipped : Bool) (again : Option Nat)
  | done (result : Except ε Nat)
  | dropped

def RequestStage.holdsLock : RequestStage ε → Bool
  | .locked _ _ | .refreshing _ _ _ => true
  | _ => false

def RequestStage.isOver : RequestStage ε → Bool
  | .done _ | .dropped => true
  | _ => false

inductive RequestEvent (ε : Type) where
  | start
  /-- `attach_auth` returns. -/
  | attach (r : Nat) (result : Except ε Unit)
  /-- The epoch is read and the first attempt sent. -/
  | send (r : Nat)
  | answer (r : Nat) (result : Except ε Nat)
  | acquire (r : Nat)
  | compare (r : Nat)
  /-- The provider publishes a credential in its `refresh`. -/
  | publish (r : Nat)
  /-- The provider's `refresh` returns; with no await behind it, the epoch advances and the lock
  is released. -/
  | refreshed (r : Nat) (result : Except ε Unit)
  /-- The caller drops the request. -/
  | drop (r : Nat)
  /-- A watch has the provider refreshed on its own. -/
  | rotate

/-- What requests do, in order. -/
inductive RequestEffect (ε : Type) where
  | unattached (r : Nat) (e : ε)
  | sent (r : Nat)
  | answered (r : Nat) (result : Except ε Nat)
  | refreshed (r : Nat) (observed : Nat) (result : Except ε Unit)

/-- The requests through the clones of one client, with the provider's credential and the epoch of
the `RefreshCoordinator`. -/
structure Requests (ε : Type) where
  version : Nat
  generation : Nat
  requests : List (RequestStage ε)
  trace : List (RequestEffect ε)

namespace Requests

variable {ε : Type}

def init (version : Nat) : Requests ε := ⟨version, 0, [], []⟩

def goto (s : Requests ε) (r : Nat) (stage : RequestStage ε) : Requests ε :=
  { s with requests := s.requests.set r stage }

def emit (s : Requests ε) (effect : RequestEffect ε) : Requests ε := { s with trace := s.trace ++ [effect] }

/-- Nobody holds the lock of the `RefreshCoordinator`. -/
def free (s : Requests ε) : Bool := s.requests.all fun stage => !stage.holdsLock

/-- What `authorization_header` returns now. -/
def authorizationHeader (c : Refreshing) (s : Requests ε) : Option Nat := if c.hasAuth then some s.version else none

def stepAttach (c : Refreshing) (s : Requests ε) (r : Nat) : RequestStage ε → Except ε Unit → Option (Requests ε)
  | .building, .ok () => some (s.goto r (.attached (s.authorizationHeader c)))
  | .renewed credential observed skipped, .ok () =>
    some ((s.goto r (.resending credential observed skipped (s.authorizationHeader c))).emit (.sent r))
  | .building, .error e | .renewed _ _ _, .error e =>
    if c.hasAuth then some ((s.goto r (.done (.error e))).emit (.unattached r e)) else none
  | _, _ => none

def stepAnswer (c : Refreshing) (s : Requests ε) (r : Nat) (result : Except ε Nat) :
    RequestStage ε → Option (Requests ε)
  | .sending credential observed =>
    match result with
    | .error e => some ((s.goto r (.done (.error e))).emit (.answered r (.error e)))
    | .ok status =>
      if status = 401 ∧ c.hasAuth then
        some ((s.goto r (.waiting credential observed)).emit (.answered r (.ok status)))
      else some ((s.goto r (.done (.ok status))).emit (.answered r (.ok status)))
  | .resending _ _ _ _ => some ((s.goto r (.done result)).emit (.answered r result))
  | _ => none

def stepRefreshed (c : Refreshing) (s : Requests ε) (r : Nat) (result : Except ε Unit) :
    RequestStage ε → Option (Requests ε)
  | .refreshing credential observed published =>
    match result with
    | .error e => some ((s.goto r (.done (.error e))).emit (.refreshed r observed (.error e)))
    | .ok () =>
      if c.rotates && !published then none
      else
        some (({ s with generation := wrappingSucc s.generation }.goto r
          (.renewed credential observed false)).emit (.refreshed r observed (.ok ())))
  | _ => none

def step (c : Refreshing) : Lib.Machine (Requests ε) (RequestEvent ε) := fun s event =>
  match event with
  | .start => some { s with requests := s.requests ++ [.building] }
  | .attach r result => s.requests[r]?.bind fun stage => s.stepAttach c r stage result
  | .send r =>
    s.requests[r]?.bind fun
      | .attached credential => some ((s.goto r (.sending credential s.generation)).emit (.sent r))
      | _ => none
  | .answer r result => s.requests[r]?.bind fun stage => s.stepAnswer c r result stage
  | .acquire r =>
    s.requests[r]?.bind fun
      | .waiting credential observed => if s.free then some (s.goto r (.locked credential observed)) else none
      | _ => none
  | .compare r =>
    s.requests[r]?.bind fun
      | .locked credential observed =>
        if s.generation ≠ observed then some (s.goto r (.renewed credential observed true))
        else some (s.goto r (.refreshing credential observed false))
      | _ => none
  | .publish r =>
    s.requests[r]?.bind fun
      | .refreshing credential observed _ =>
        some ({ s with version := s.version + 1 }.goto r (.refreshing credential observed true))
      | _ => none
  | .refreshed r result => s.requests[r]?.bind fun stage => s.stepRefreshed c r result stage
  | .drop r =>
    s.requests[r]?.bind fun stage => if stage.isOver then none else some (s.goto r .dropped)
  | .rotate => some { s with version := s.version + 1 }

end Requests
end Aviso.Client
