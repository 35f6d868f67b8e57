import Aviso.Proofs.Ledger

namespace Aviso.Watch

open Lib (Machine Always)
open State (Checkpoint)

namespace System

/-- Every state of every run is sound for the delivery protocol. -/
theorem run_sound {c : Setup} {held : Option Checkpoint} {inputs : List Input} {s : System}
    (h : Machine.run (step c) (start held) inputs = some s) :
    Delivery.Sound c.delivery held (s.delivery c) := by
  have hsteps := Machine.run_refines (delivery c) (fun _ _ _ => step_steps) h
  exact Delivery.Sound.initial.steps hsteps

/-- The sequence the start position of a watch names, if it names one. -/
def floor (s : System) : Option Nat := s.vars.initialCursor.bind ResumeStart.sequence

def required (c : Setup) : List Bool := c.request.triggers.map (·.required)

/-- In every run, each put is backed by a delivery above the start position and
does not fall below an earlier one, each send comes after a put of what was sent
before it, and a failed put is the end. -/
theorem checkpoint_law (c : Setup) (held : Option Checkpoint) (inputs : List Input) (s : System)
    (h : Machine.run (step c) (start held) inputs = some s) :
    Always (Lawful (required c) c.hasStore s.floor) s.trace ∧
      (∀ x p, s.vars.commitCursor = some x → s.vars.pendingCommit = some p → x ≤ p.sequence) ∧
      (s.store = held ∨ ∃ cp, s.store = some cp ∧ .landed cp ∈ s.trace) ∧
      (∀ p, s.vars.pendingCommit = some p → p.sequence ∈ sentOf s.trace) := by
  obtain ⟨hcursors, -, hledger⟩ := run_sound h
  refine ⟨hledger.law, hcursors.commit_le, hledger.stored, ?_⟩
  intro p hp
  obtain ⟨n, rfl, hdel⟩ := hcursors.pending_delivered p hp
  exact hdel.sent

end System

/-- The openings of a stream and two notifications, as the JSON library reads them. -/
def sampleSerde : Serde where
  fromStr data :=
    if data = "\x7b\"type\":\"connection_established\"\x7d".toList then
      some (.object [("type".toList, .string "connection_established".toList)])
    else if data = "\x7b\"type\":\"replay_started\"\x7d".toList then
      some (.object [("type".toList, .string "replay_started".toList)])
    else if data = "\x7b\"id\":\"mars@1\",\"data\":\x7b\"identifier\":\x7b\x7d\x7d\x7d".toList then
      some (.object [("id".toList, .string "mars@1".toList),
        ("data".toList, .object [("identifier".toList, .object [])])])
    else if data = "\x7b\"id\":\"mars@2\",\"data\":\x7b\"identifier\":\x7b\x7d\x7d\x7d".toList then
      some (.object [("id".toList, .string "mars@2".toList),
        ("data".toList, .object [("identifier".toList, .object [])])])
    else none
  connectionEstablished raw := ((raw.get "type".toList).bind Json.asStr).isSome
  cloudEvent raw := ((raw.get "id".toList).bind Json.asStr).map fun id => ⟨id, [], .null⟩
  connectionClosing _ := none
  replayControl _ := none
  errorEvent _ := none

/-- A live watch of `mars` with a store and one required trigger. -/
def sampleSetup : Setup where
  request := ⟨"mars".toList, [], none, none, .watch, [⟨"echo", 0, true, true⟩], false⟩
  serde := sampleSerde
  hasStore := true
  hasAuth := false
  flushCursorOnExit := true
  endpointError := none

def sampleEvent (event data : String) : List UInt8 :=
  ("event:" ++ event ++ "\ndata:" ++ data ++ "\n\n").toList.map fun c => c.toNat.toUInt8

def sampleOpening (event type : String) : List UInt8 :=
  sampleEvent event ("\x7b\"type\":\"" ++ type ++ "\"\x7d")

def sampleNotification (n : Nat) : List UInt8 :=
  sampleEvent "replay"
    ("\x7b\"id\":\"mars@" ++ toString n ++ "\",\"data\":\x7b\"identifier\":\x7b\x7d\x7d\x7d")

def sampleResponse : Response :=
  ⟨200, some "text/event-stream".toList, none, none, fun _ => none⟩

/-- The connection opens, and two notifications arrive and are delivered. -/
def sampleInputs : List Input :=
  [.fetched true, .jitter 0, .response sampleResponse,
    .chunk (sampleOpening "live-notification" "connection_established" ++ sampleNotification 1 ++
      sampleNotification 2),
    .proceed, .probe false, .attempt (.ok ()), .accepted,
    .proceed, .lands, .stored, .probe false, .attempt (.ok ()), .pull, .accepted]

namespace System

theorem sample_run : ∃ s, Machine.run (step sampleSetup) (start none) sampleInputs = some s ∧
    sentOf s.trace = [1, 2] ∧ putsOf s.trace = [1, 1] ∧ s.floor = none := by
  have hrun : (Machine.run (step sampleSetup) (start none) sampleInputs).map
      (fun s => (sentOf s.trace, putsOf s.trace, s.floor)) = some ([1, 2], [1, 1], none) := by
    decide +kernel
  obtain ⟨s, hs, heq⟩ := Option.map_eq_some_iff.mp hrun
  simp only [Prod.mk.injEq] at heq
  exact ⟨s, hs, heq⟩

theorem checkpoint_law_two_sent : ∃ s,
    Machine.run (step sampleSetup) (start none) sampleInputs = some s ∧ sentOf s.trace = [1, 2] ∧
      putsOf s.trace = [1, 1] ∧ Always (Lawful [true] true none) s.trace := by
  obtain ⟨s, hs, hsent, hputs, hfloor⟩ := sample_run
  have hlaw := (checkpoint_law sampleSetup none sampleInputs s hs).1
  exact ⟨s, hs, hsent, hputs, hfloor ▸ hlaw⟩

end System
end Aviso.Watch
