import Aviso.Client.WatchTransport
import Aviso.Lib.Table
import Aviso.State.ResumeKey
import Aviso.Watch.Session

namespace Aviso.Client

open State (BaseUrl Bytes ResumeKey asBytes normalizeBaseUrl)
open Watch (ClientError WatchRequest WireWatchRequest)

/-- A base URL and a request as the program holds them: their strings are in memory. -/
abbrev HeldUrl := { url : BaseUrl // (asBytes (normalizeBaseUrl url)).length ≤ usizeMax }
abbrev HeldRequest := { request : WatchRequest // (asBytes request.eventType).length ≤ usizeMax }

/-- What a client makes resume keys with: its base URL, `serde_jcs::to_vec` and the hash. -/
structure Keys where
  baseUrl : HeldUrl
  toVec : Json → Except String Bytes
  sha256 : List UInt8 → Vector UInt8 32

theorem no_schemaFingerprint_fits : ∀ text ∈ (none : Option Text), (asBytes text).length ≤ usizeMax := by
  simp

def Keys.computeResumeKey (keys : Keys) (request : HeldRequest) : Except ClientError ResumeKey :=
  match ResumeKey.new keys.toVec keys.sha256
      { baseUrl := keys.baseUrl.val, eventType := request.val.eventType, filter := .object request.val.filter
        schemaFingerprint := none, baseUrl_fits := keys.baseUrl.property
        eventType_fits := request.property, schemaFingerprint_fits := no_schemaFingerprint_fits } with
  | .ok key => .ok key
  | .error (.canonicaliseFilter source) =>
    .error (.config ("compute resume key for watch request: filter canonicalisation failed: " ++ source))

/-- The checks `watch` makes before it opens anything, and the key it computes. -/
def Keys.prepare (keys : Keys) (request : HeldRequest) : Except ClientError ResumeKey :=
  match WireWatchRequest.fromPublic request.val with
  | .error e => .error e
  | .ok _ => keys.computeResumeKey request

def Keys.checkWatchRequest (keys : Keys) (request : HeldRequest) : Except ClientError Unit :=
  (keys.prepare request).map fun _ => ()

/-- Puts the watch's name into a configuration error's message. -/
def named (name : String) (error : ClientError) : ClientError :=
  match error with
  | .config message => .config ("watch '" ++ name ++ "': " ++ message)
  | other => other

/-- The loop of `watch_many` over its requests before it opens any. -/
def checkRequests (keys : Keys) (seen : List String) : List (String × HeldRequest) → Except ClientError Unit
  | [] => .ok ()
  | (name, request) :: rest =>
    if name.isEmpty then .error (.config "watch_many: a watch name must not be empty")
    else if name ∈ seen then .error (.config ("watch_many: the watch name '" ++ name ++ "' is used twice"))
    else
      match keys.checkWatchRequest request with
      | .error e => .error (named name e)
      | .ok () => checkRequests keys (name :: seen) rest

/-- All that `watch_many` refuses; `runtime` says whether a Tokio runtime is entered. -/
def refusal (keys : Keys) (runtime : Bool) (requests : List (String × HeldRequest)) : Except ClientError Unit :=
  if !runtime then .error (.config "AvisoClient::watch_many requires a Tokio runtime")
  else if requests.isEmpty then .error (.config "watch_many needs at least one request")
  else checkRequests keys [] requests

def incrementActiveKey (active : Lib.Table ResumeKey Nat) (key : ResumeKey) : Lib.Table ResumeKey Nat :=
  active.insert key ((active.lookup key).getD 0 + 1)

def decrementActiveKey (active : Lib.Table ResumeKey Nat) (key : ResumeKey) : Lib.Table ResumeKey Nat :=
  match active.lookup key with
  | some count => if count - 1 = 0 then active.erase key else active.insert key (count - 1)
  | none => active

inductive SupervisorStage where
  /-- Its task was not polled yet. -/
  | spawned
  | running
  /-- Its key was given back, and its lease not yet. -/
  | exiting
  | ended
  /-- The runtime dropped its task before the first poll. -/
  | lost
  deriving DecidableEq, Repr

namespace SupervisorStage

/-- The key of the watch is in the tracker. -/
def counted : SupervisorStage → Bool
  | .spawned | .running | .lost => true
  | .exiting | .ended => false

/-- The watch has its slot on a connection. -/
def leased : SupervisorStage → Bool
  | .spawned | .running | .exiting => true
  | .ended | .lost => false

end SupervisorStage

structure Supervisor (κ : Type) where
  key : ResumeKey
  lease : Lease κ
  stage : SupervisorStage
  /-- The stream was dropped. -/
  cancelled : Bool
  /-- Its start was reported as a collision. -/
  warned : Bool
  deriving DecidableEq, Repr

namespace Supervisor

def goto (s : Supervisor κ) (stage : SupervisorStage) : Supervisor κ := { s with stage := stage }

def cancel (s : Supervisor κ) : Supervisor κ := { s with cancelled := true }

/-- What a watch has of the tracker and of the transport. -/
def counts (s : Supervisor κ) : Option ResumeKey := if s.stage.counted then some s.key else none

def holds (s : Supervisor κ) : Option (Lease κ) := if s.stage.leased then some s.lease else none

end Supervisor

/-- Where a call of `watch` or `watch_many` is. -/
inductive CallStage (κ : Type) where
  /-- About to open the next request. -/
  | next
  | seeking (key : ResumeKey)
  | building (key : ResumeKey)
  | leased (key : ResumeKey) (lease : Lease κ)
  | returned
  | failed (error : ClientError)
  /-- The caller dropped the stream it was given. -/
  | dropped
  deriving DecidableEq, Repr

/-- A call, with the supervisors behind the streams it has opened so far. -/
structure Call (κ : Type) where
  requests : List (Option String × HeldRequest)
  streams : List Nat
  stage : CallStage κ

namespace Call

def start (requests : List (Option String × HeldRequest)) (checked : Except ClientError Unit) : Call κ :=
  match checked with
  | .ok () => ⟨requests, [], .next⟩
  | .error e => ⟨requests, [], .failed e⟩

def goto (call : Call κ) (stage : CallStage κ) : Call κ := { call with stage := stage }

/-- The stream of a supervisor joins those of the call, which goes on to its next request. -/
def join (call : Call κ) (i : Nat) : Call κ := { call with streams := call.streams ++ [i], stage := .next }

def current (call : Call κ) : Option (Option String × HeldRequest) := call.requests[call.streams.length]?

def holds (call : Call κ) : Option (Lease κ) :=
  match call.stage with
  | .leased _ lease => some lease
  | _ => none

def builds (call : Call κ) : Option Unit :=
  match call.stage with
  | .building _ => some ()
  | _ => none

end Call

/-- The error of a request under the name it goes by, if it has one. -/
def nameError (name : Option String) (error : ClientError) : ClientError :=
  match name with
  | some name => named name error
  | none => error

/-- A client with all that was opened through it. -/
structure Openings (κ : Type) where
  world : World κ
  active : Lib.Table ResumeKey Nat
  poisoned : Bool
  calls : List (Call κ)
  supervisors : List (Supervisor κ)

inductive OpeningEvent (κ : Type) where
  | watch (runtime : Bool) (request : HeldRequest)
  | watchMany (runtime : Bool) (requests : List (String × HeldRequest))
  /-- A call takes its next step. -/
  | advance (c : Nat)
  /-- The factory has returned to a call. -/
  | built (c : Nat) (client : Except String κ)
  | dropStream (c : Nat)
  /-- The first poll of a supervisor, and the two steps of its end. -/
  | polled (i : Nat)
  | exits (i : Nat)
  | ends (i : Nat)
  /-- The runtime is shut down before the first poll. -/
  | lose (i : Nat)
  /-- A panic while the lock of the tracker was held. -/
  | poison

namespace Openings

variable {κ : Type}

def init (perConnection : Nat) (nonzero : 0 < perConnection) (first : κ) : Openings κ :=
  ⟨.init perConnection nonzero first, ∅, false, [], []⟩

def setStage (w : Openings κ) (c : Nat) (stage : CallStage κ) : Openings κ :=
  { w with calls := w.calls.modify c (·.goto stage) }

/-- The streams of a call are dropped, which cancels their supervisors. -/
def cancel (w : Openings κ) (streams : List Nat) : Openings κ :=
  { w with supervisors := w.supervisors.mapIdx fun i s => if i ∈ streams then s.cancel else s }

/-- A call returns an error; the watches it has opened are dropped with it. -/
def fail (w : Openings κ) (c : Nat) (call : Call κ) (error : ClientError) : Openings κ :=
  (w.cancel call.streams).setStage c (.failed error)

/-- A call begins, unless it is refused. -/
def enter (w : Openings κ) (requests : List (Option String × HeldRequest)) (checked : Except ClientError Unit) :
    Openings κ :=
  { w with calls := w.calls ++ [.start requests checked] }

/-- The supervisor is spawned, and its stream joins those of the call. -/
def spawn (w : Openings κ) (c : Nat) (key : ResumeKey) (lease : Lease κ) : Openings κ :=
  let prior := (w.active.lookup key).getD 0
  { w with
    active := incrementActiveKey w.active key
    supervisors := w.supervisors ++ [⟨key, lease, .spawned, false, 0 < prior && !w.poisoned⟩]
    calls := w.calls.modify c (·.join w.supervisors.length) }

def advance (keys : Keys) (w : Openings κ) (c : Nat) : Option (Openings κ) :=
  w.calls[c]?.bind fun call =>
    match call.stage with
    | .next =>
      match call.current with
      | none => some (w.setStage c .returned)
      | some (name, request) =>
        match keys.prepare request with
        | .error e => some (w.fail c call (nameError name e))
        | .ok key => some (w.setStage c (.seeking key))
    | .seeking key =>
      match w.world.transport.leaseFirstFree with
      | some granted => some ({ w with world := w.world.grant granted }.setStage c (.leased key granted.1))
      | none => some ({ w with world := { w.world with building := w.world.building + 1 } }.setStage c (.building key))
    | .leased key lease => some (w.spawn c key lease)
    | _ => none

/-- `acquire` once the client is built: it looks for a free slot again. -/
def built (w : Openings κ) (c : Nat) (client : Except String κ) : Option (Openings κ) :=
  w.calls[c]?.bind fun call =>
    match call.stage with
    | .building key =>
      let w := { w with world := { w.world with building := w.world.building - 1 } }
      match client with
      | .error e =>
        let error := .config ("failed to build the HTTP client for a watch: " ++ e)
        some (w.fail c call (nameError (call.current.bind (·.1)) error))
      | .ok client =>
        let granted := w.world.transport.leaseFirstFree.getD (w.world.transport.push client)
        some ({ w with world := w.world.grant granted }.setStage c (.leased key granted.1))
    | _ => none

/-- A supervisor gives its lease back. -/
def giveBack [DecidableEq κ] (w : Openings κ) (lease : Lease κ) : Option (Openings κ) :=
  (w.world.step (.drop (w.world.leases.idxOf lease))).map fun world => { w with world := world }

def setSupervisor (w : Openings κ) (i : Nat) (stage : SupervisorStage) : Openings κ :=
  { w with supervisors := w.supervisors.modify i (·.goto stage) }

/-- A step of the task of a supervisor, from one stage to the next. -/
def turn [DecidableEq κ] (w : Openings κ) (i : Nat) (source target : SupervisorStage) : Option (Openings κ) :=
  w.supervisors[i]?.bind fun s =>
    if s.stage = source then
      let w := if source.counted && !target.counted then { w with active := decrementActiveKey w.active s.key } else w
      (if source.leased && !target.leased then w.giveBack s.lease else some w).map fun w => w.setSupervisor i target
    else none

def step [DecidableEq κ] (keys : Keys) : Lib.Machine (Openings κ) (OpeningEvent κ) := fun w event =>
  match event with
  | .watch runtime request =>
    let checked := if runtime then .ok () else .error (.config "AvisoClient::watch requires a Tokio runtime")
    some (w.enter [(none, request)] checked)
  | .watchMany runtime requests =>
    some (w.enter (requests.map fun (name, request) => (some name, request)) (refusal keys runtime requests))
  | .advance c => w.advance keys c
  | .built c client => w.built c client
  | .dropStream c =>
    w.calls[c]?.bind fun call =>
      if call.stage matches .returned then some ((w.cancel call.streams).setStage c .dropped) else none
  | .polled i => w.turn i .spawned .running
  | .exits i => w.turn i .running .exiting
  | .ends i => w.turn i .exiting .ended
  | .lose i => w.turn i .spawned .lost
  | .poison => some { w with poisoned := true }

end Openings
end Aviso.Client
