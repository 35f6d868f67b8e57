import Aviso.Basics

namespace Aviso.Watch

inductive Poll (α : Type) where
  | pending
  | ready (a : α)
  deriving DecidableEq, Repr

/-- What the polls of a stream have answered, in order. -/
inductive Reads {σ α : Type} (poll : σ → Poll α × σ) (first : σ) : List α → σ → Prop where
  | start : Reads poll first [] first
  | pending (h : Reads poll first items s) (hpoll : poll s = (.pending, s')) : Reads poll first items s'
  | ready (h : Reads poll first items s) (hpoll : poll s = (.ready item, s')) :
      Reads poll first (items ++ [item]) s'

inductive ErrorPolicy where
  | stop
  | continue
  deriving DecidableEq, Repr

/-- The consumer's end of one watch, with the number of times it was polled. -/
structure NotificationStream where
  watch : Nat
  polled : Nat
  cancelled : Bool
  deriving DecidableEq, Repr

namespace NotificationStream

def cancel (stream : NotificationStream) : NotificationStream := { stream with cancelled := true }

def poll (stream : NotificationStream) : NotificationStream := { stream with polled := stream.polled + 1 }

end NotificationStream

structure Entry where
  name : String
  stream : Option NotificationStream
  deriving DecidableEq, Repr

/-- A named item or error, with the position of the entry it came from. -/
structure Yield (ν ε : Type) where
  index : Nat
  name : String
  item : Except ε ν

structure MultiNotificationStream where
  entries : List Entry
  stopped : List NotificationStream
  policy : ErrorPolicy
  next : Nat
  deriving DecidableEq, Repr

namespace MultiNotificationStream

variable {ν ε : Type}

def new (streams : List (String × NotificationStream)) (policy : ErrorPolicy) : MultiNotificationStream :=
  ⟨streams.map fun (name, stream) => ⟨name, some stream⟩, [], policy, 0⟩

/-- As `watch_many` opens it: one watch for each name. -/
def watchMany (names : List String) (policy : ErrorPolicy) : MultiNotificationStream :=
  .new (names.zipIdx.map fun (name, i) => (name, ⟨i, 0, false⟩)) policy

/-- The names of the watches still running. -/
def running (s : MultiNotificationStream) : List String :=
  (s.entries.filter (·.stream.isSome)).map (·.name)

def setStream (s : MultiNotificationStream) (index : Nat) (stream : Option NotificationStream) :
    MultiNotificationStream :=
  { s with entries := s.entries.modify index fun e => { e with stream := stream } }

/-- The stream of an entry is kept for `close`. -/
def retire (s : MultiNotificationStream) (index : Nat) (stream : NotificationStream) : MultiNotificationStream :=
  { s.setStream index none with stopped := s.stopped ++ [stream] }

/-- Every stream that still runs is cancelled, and kept for `close`. -/
def cancelAll (s : MultiNotificationStream) : MultiNotificationStream :=
  { s with
    entries := s.entries.map fun e => { e with stream := none }
    stopped := s.stopped ++ (s.entries.filterMap (·.stream)).map (·.cancel) }

/-- The watch after the last producer goes first. -/
def advance (s : MultiNotificationStream) (index : Nat) : MultiNotificationStream :=
  { s with next := (index + 1) % s.entries.length }

/-- The body of the loop of `poll_next`; a watch answers its k-th poll with `answers watch k`. -/
def visit (answers : Nat → Nat → Poll (Option (Except ε ν))) (s : MultiNotificationStream) (index : Nat) :
    Option (Yield ν ε) × MultiNotificationStream :=
  match s.entries[index]? with
  | none => (none, s)
  | some entry =>
    match entry.stream with
    | none => (none, s)
    | some stream =>
      match answers stream.watch stream.polled with
      | .pending => (none, s.setStream index (some stream.poll))
      | .ready (some (.ok notification)) =>
        (some ⟨index, entry.name, .ok notification⟩, (s.setStream index (some stream.poll)).advance index)
      | .ready (some (.error error)) =>
        let s' := (s.retire index stream.poll).advance index
        (some ⟨index, entry.name, .error error⟩, if s.policy = .stop then s'.cancelAll else s')
      | .ready none => (none, s.retire index stream.poll)

def scan (answers : Nat → Nat → Poll (Option (Except ε ν))) :
    List Nat → MultiNotificationStream → Option (Yield ν ε) × MultiNotificationStream
  | [], s => (none, s)
  | offset :: offsets, s =>
    match visit answers s ((s.next + offset) % s.entries.length) with
    | (some y, s) => (some y, s)
    | (none, s) => scan answers offsets s

def pollNext (answers : Nat → Nat → Poll (Option (Except ε ν))) (s : MultiNotificationStream) :
    Poll (Option (Yield ν ε)) × MultiNotificationStream :=
  match scan answers (List.range s.entries.length) s with
  | (some y, s) => (.ready (some y), s)
  | (none, s) => (if s.entries.all (·.stream.isNone) then .ready none else .pending, s)

/-- The answers to a number of polls, and the stream after them. -/
def polls (answers : Nat → Nat → Poll (Option (Except ε ν))) :
    Nat → MultiNotificationStream → List (Poll (Option (Yield ν ε))) × MultiNotificationStream
  | 0, s => ([], s)
  | m + 1, s =>
    ((pollNext answers s).1 :: (polls answers m (pollNext answers s).2).1,
      (polls answers m (pollNext answers s).2).2)

/-- The streams `close` waits for, in order. -/
def close (s : MultiNotificationStream) : List NotificationStream := s.cancelAll.stopped

end MultiNotificationStream
end Aviso.Watch
