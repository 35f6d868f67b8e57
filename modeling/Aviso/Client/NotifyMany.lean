import Aviso.Client.Refresh
import Aviso.Lib.Pool

namespace Aviso.Client

/-- `DEFAULT_NOTIFY_CONCURRENCY`. -/
def defaultNotifyConcurrency : Nat := 16

def notifyLimit (concurrency : Nat) : Nat := if concurrency = 0 then defaultNotifyConcurrency else concurrency

/-- How a body becomes a response, and how a refusal becomes an error. -/
structure Decoder (ε β ρ : Type) where
  fromSlice : β → Except ε ρ
  http : Nat → β → ε

variable {ε β ρ : Type}

/-- `parse_json_response`; `read` is what reading the body gave. -/
def parseJsonResponse (d : Decoder ε β ρ) (status : Nat) (read : Except ε β) : Except ε ρ := do
  let body ← read
  if 200 ≤ status ∧ status < 300 then d.fromSlice body else .error (d.http status body)

/-- `notify`, from what `send_with_refresh` returned. -/
def notify (d : Decoder ε β ρ) (sent : Except ε Nat) (read : Except ε β) : Except ε ρ := do
  parseJsonResponse d (← sent) read

/-- A `notify_many` among the other requests through clones of its client. -/
structure Batch (ε ρ : Type) where
  client : Requests ε
  /-- The request that carries each item taken so far. -/
  carriers : List Nat
  /-- The futures of `buffer_unordered`, and what `collect` has of them. -/
  pool : Lib.Pool (Except ε ρ)
  /-- The future of the batch was dropped. -/
  cancelled : Bool

inductive BatchEvent (ε β : Type) where
  /-- `buffer_unordered` takes the next item. -/
  | fill
  /-- Any request of any clone moves. -/
  | client (event : RequestEvent ε)
  /-- The future of an item resolves. -/
  | finish (i : Nat) (read : Except ε β)
  | cancel

namespace Batch

def init (client : Requests ε) : Batch ε ρ := ⟨client, [], .empty, false⟩

/-- Only the batch drops its requests. -/
def drops (carriers : List Nat) : RequestEvent ε → Bool
  | .drop r => carriers.contains r
  | _ => false

/-- A request that is not over is dropped with the future that waits for it. -/
def dropRequest (c : Refreshing) (client : Requests ε) (r : Nat) : Requests ε :=
  (Requests.step c client (.drop r)).getD client

/-- What the batch returns, once it can. -/
def results (n : Nat) (s : Batch ε ρ) : Option (List (Except ε ρ)) :=
  if s.pool.next = n ∧ s.pool.pending = [] ∧ s.cancelled = false then some s.pool.inOrder else none

def step (c : Refreshing) (d : Decoder ε β ρ) (n concurrency : Nat) : Lib.Machine (Batch ε ρ) (BatchEvent ε β) :=
  fun s event =>
  match event with
  | .fill =>
    if s.cancelled = false ∧ s.pool.next < n ∧ s.pool.pending.length < notifyLimit concurrency then
      (Requests.step c s.client .start).map fun client => { s with
        client := client
        carriers := s.carriers ++ [s.client.requests.length]
        pool := s.pool.start }
    else none
  | .client event =>
    if drops s.carriers event then none
    else (Requests.step c s.client event).map fun client => { s with client := client }
  | .finish i read =>
    if s.cancelled = false ∧ i ∈ s.pool.pending then
      match s.carriers[i]?.bind (s.client.requests[·]?) with
      | some (.done sent) => some { s with pool := s.pool.finish i (notify d sent read) }
      | _ => none
    else none
  | .cancel =>
    if s.cancelled = false ∧ s.results n = none then
      some { s with client := s.carriers.foldl (dropRequest c) s.client, cancelled := true }
    else none

end Batch

end Aviso.Client
