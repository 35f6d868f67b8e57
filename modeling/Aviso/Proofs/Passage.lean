import Aviso.Proofs.ControlRefinement
import Aviso.Proofs.Opening
import Aviso.Proofs.Sessions

namespace Aviso.Watch

open Finesse (Frame Message Stands)
open Lib

/-- The connection of a stage, once its body is read. -/
def Stage.connection : Stage → Option Connection
  | .reading conn | .draining conn _ | .putting conn _ _ _ | .dispatching conn _ _ _
  | .attempting conn _ _ _ _ | .backingOff conn _ _ _ _ | .sending conn _ _ => some conn
  | _ => none

/-- From the request of a connection to its end. -/
def Stage.connected : Stage → Bool
  | .opening _ | .readingBody _ _ _ => true
  | stage => stage.connection.isSome

/-- The connection of a stage and the chunk it drains. -/
def Stage.batch : Stage → Option (Connection × Chunk)
  | .draining conn chunk | .putting conn chunk _ _ | .dispatching conn chunk _ _
  | .attempting conn chunk _ _ _ | .backingOff conn chunk _ _ _ | .sending conn chunk _ => some (conn, chunk)
  | _ => none

/-- What passes through a connection: its body, and the frames `drain_frames` takes. -/
inductive Traffic where
  | chunk (bytes : List UInt8)
  | eof
  | handled (frame : Frame)

def System.traffic (s : System) (input : Input) : Option Traffic :=
  match s.stage, input with
  | .reading _, .chunk bytes => some (.chunk bytes)
  | .reading _, .eof => some .eof
  | .draining conn _, .proceed => conn.parser.nextFrame.1.map .handled
  | _, _ => none

namespace Traffic

/-- The bytes of the body, however they were cut. -/
def body (log : List Traffic) : List UInt8 :=
  (log.filterMap fun
    | .chunk bytes => some bytes
    | .eof | .handled _ => none).flatten

def ended (log : List Traffic) : Bool :=
  log.any fun
    | .eof => true
    | .chunk _ | .handled _ => false

/-- The frames handled, in order. -/
def frames (log : List Traffic) : List Frame :=
  log.filterMap fun
    | .handled frame => some frame
    | .chunk _ | .eof => none

/-- The frames the body makes, read byte by byte. -/
def seen (log : List Traffic) : List Frame :=
  Finesse.ByteReader.framesOf .default (body log) (ended log)

variable (log : List Traffic)

theorem body_chunk (bytes : List UInt8) : body (log ++ [.chunk bytes]) = body log ++ bytes := by
  simp [body, List.filterMap_append]

theorem body_eof : body (log ++ [.eof]) = body log := by simp [body, List.filterMap_append]

theorem body_handled (frame : Frame) : body (log ++ [.handled frame]) = body log := by
  simp [body, List.filterMap_append]

theorem ended_chunk (bytes : List UInt8) : ended (log ++ [.chunk bytes]) = ended log := by simp [ended]

theorem ended_eof : ended (log ++ [.eof]) = true := by simp [ended]

theorem ended_handled (frame : Frame) : ended (log ++ [.handled frame]) = ended log := by simp [ended]

theorem frames_chunk (bytes : List UInt8) : frames (log ++ [.chunk bytes]) = frames log := by
  simp [frames, List.filterMap_append]

theorem frames_eof : frames (log ++ [.eof]) = frames log := by simp [frames, List.filterMap_append]

theorem frames_handled (frame : Frame) : frames (log ++ [.handled frame]) = frames log ++ [frame] := by
  simp [frames, List.filterMap_append]

theorem seen_handled (frame : Frame) : seen (log ++ [.handled frame]) = seen log := by
  rw [seen, seen, body_handled, ended_handled]

end Traffic

/-- What a frame notifies of, if it is a notification. -/
def Setup.notified (c : Setup) : Frame → Option Notification
  | .message m =>
    match c.serde.incoming c.request.eventType m with
    | .notification n => some n
    | _ => none
  | .retry _ => none

def receivedOf (t : List Effect) : List Notification :=
  t.filterMap fun
    | .received n => some n
    | _ => none

namespace System

/-- Nothing is done and no cursor or readiness moves from one state to the other. -/
structure Untouched (s₀ s : System) : Prop where
  trace : s.trace = s₀.trace
  store : s.store = s₀.store
  commitCursor : s.vars.commitCursor = s₀.vars.commitCursor
  pendingCommit : s.vars.pendingCommit = s₀.vars.pendingCommit
  ready : s.vars.ready = s₀.vars.ready

variable {c : Setup} {s₀ s s' : System} {historical : Bool} {log : List Traffic} {conn : Connection} {chunk : Chunk}

theorem Untouched.refl (s : System) : Untouched s s := ⟨rfl, rfl, rfl, rfl, rfl⟩

theorem Untouched.goto (h : Untouched s₀ s) (stage : Stage) : Untouched s₀ (s.goto stage) :=
  ⟨h.trace, h.store, h.commitCursor, h.pendingCommit, h.ready⟩

theorem Untouched.apply (h : Untouched s₀ s) (event : WatchEvent) : Untouched s₀ (s.apply event) :=
  ⟨h.trace, h.store, h.commitCursor, h.pendingCommit, h.ready⟩

/-! ### What a connection has read -/

/-- A parser after a read stands for the reading, or reports its overflow. -/
theorem feed_tracks {p : Finesse.Parser} {taken : List Frame} {max : Nat} {r : Finesse.ByteReader}
    (h : Stands taken max p r) (bytes : List UInt8) :
    Finesse.Tracks taken max (p.feed bytes) (bytes.foldlM (Finesse.ByteReader.readByte max) r) := by
  have hstart : (⟨p, taken, none⟩ : Finesse.Session).Reads max (.ok r) := ⟨rfl, h⟩
  have hreads := Finesse.Session.reads_feed hstart bytes
  rw [Finesse.ok_bind] at hreads
  simp only [Finesse.Session.apply] at hreads
  generalize p.feed bytes = res at hreads ⊢
  obtain ⟨res, q⟩ := res
  cases hread : bytes.foldlM (Finesse.ByteReader.readByte max) r with
  | ok r' =>
    rw [hread] at hreads
    cases res with
    | ok _ => exact ⟨rfl, hreads.2⟩
    | error overflow => cases hreads.1
  | error stopped =>
    obtain ⟨overflow, frames⟩ := stopped
    rw [hread] at hreads
    obtain ⟨hover, -, hframes⟩ := hreads
    cases res with
    | ok _ => cases hover
    | error overflow' =>
      cases hover
      exact ⟨rfl, hframes⟩

/-- Frames that leave the queue are yielded. -/
theorem stands_pop {p : Finesse.Parser} {taken popped rest : List Frame} {max : Nat} {r : Finesse.ByteReader}
    (h : Stands taken max p r) (hqueue : p.queue = popped ++ rest) :
    Stands (taken ++ popped) max { p with queue := rest } r :=
  { h with frames := by rw [h.frames, hqueue, List.append_assoc] }

/-- The parser of a connection stands for the body so far. -/
def Live (conn : Connection) (log : List Traffic) (gated : List Frame) : Prop :=
  Traffic.ended log = false ∧ ∃ r,
    (Traffic.body log).foldlM (Finesse.ByteReader.readByte Finesse.Limits.default.maxLineBytes)
      (.start .default) = .ok r ∧
    Stands (gated ++ Traffic.frames log) Finesse.Limits.default.maxLineBytes conn.parser r

/-- The frames of a connection: those its gate took, those handled, and its queue. -/
structure Holds (c : Setup) (historical : Bool) (s₀ s : System) (log : List Traffic) (conn : Connection)
    (gated : List Frame) : Prop where
  wire : conn.wireFrom.isSome = historical
  seen : Traffic.seen log = gated ++ (Traffic.frames log ++ conn.parser.queue)
  shut : conn.confirmed = false →
    (∀ m, .message m ∈ gated → ¬ Opening.Watched m) ∧ Traffic.frames log = [] ∧ Untouched s₀ s
  opened : conn.confirmed = true → ∃ before m, gated = before ++ [.message m] ∧
    (∀ m, .message m ∈ before → ¬ Opening.Watched m) ∧ Opening.IsOpening c.serde historical m

/-- What the gate made of a connection that is over. -/
def Verdict (c : Setup) (historical : Bool) (s₀ s : System) (log : List Traffic) : Prop :=
  match Opening.confirmed c.serde historical (Traffic.seen log) with
  | (.error e, _) => Traffic.frames log = [] ∧ Untouched s₀ s ∧ s.stage = .ended (.fatal e)
  | (.ok none, _) => Traffic.frames log = [] ∧ Untouched s₀ s
  | (.ok (some _), rest) => Traffic.frames log <+: rest

/-- How far a connection has got. -/
inductive Place (c : Setup) (historical : Bool) (s₀ s : System) (log : List Traffic) : Prop where
  | waiting : s.stage.connected = true → s.stage.connection = none →
      (∀ a, s.stage = .opening a → a.wireFrom.isSome = historical) → log = [] → Untouched s₀ s →
      Place c historical s₀ s log
  | reading (conn : Connection) (gated : List Frame) : s.stage = .reading conn →
      Holds c historical s₀ s log conn gated → Live conn log gated → conn.parser.queue = [] →
      Place c historical s₀ s log
  | draining (conn : Connection) (chunk : Chunk) (gated : List Frame) : s.stage.batch = some (conn, chunk) →
      Holds c historical s₀ s log conn gated →
      (chunk.eof = false → chunk.overflow = none → Live conn log gated) → Place c historical s₀ s log
  | left : s.stage.connected = false → Verdict c historical s₀ s log → Place c historical s₀ s log

theorem Holds.moved (h : Holds c historical s₀ s log conn gated)
    (huntouched : conn.confirmed = false → Untouched s₀ s') : Holds c historical s₀ s' log conn gated where
  wire := h.wire
  seen := h.seen
  shut := by
    intro hshut
    obtain ⟨hgated, hframes, -⟩ := h.shut hshut
    exact ⟨hgated, hframes, huntouched hshut⟩
  opened := h.opened

/-- A read adds to the queue only. -/
theorem Holds.fed (h : Holds c historical s₀ s log conn gated) {log' : List Traffic} {p : Finesse.Parser}
    (hframes : Traffic.frames log' = Traffic.frames log)
    (hseen : Traffic.seen log' = gated ++ (Traffic.frames log' ++ p.queue)) :
    Holds c historical s₀ s log' { conn with parser := p } gated where
  wire := h.wire
  seen := hseen
  shut := by
    intro hshut
    obtain ⟨hgated, hnone, huntouched⟩ := h.shut hshut
    exact ⟨hgated, hframes.trans hnone, huntouched⟩
  opened := h.opened

theorem Holds.goto (h : Holds c historical s₀ s log conn gated) (stage : Stage) :
    Holds c historical s₀ (s.goto stage) log conn gated :=
  h.moved fun hshut => (h.shut hshut).2.2.goto stage

theorem Holds.confirmed_shut (h : Holds c historical s₀ s log conn gated) (hshut : conn.confirmed = false) :
    Opening.confirmed c.serde historical (Traffic.seen log) =
      Opening.confirmed c.serde historical conn.parser.queue := by
  obtain ⟨hgated, hframes, -⟩ := h.shut hshut
  rw [h.seen, Opening.confirmed_skip hgated, hframes, List.nil_append]

theorem Holds.confirmed_opened (h : Holds c historical s₀ s log conn gated) (hopened : conn.confirmed = true) :
    ∃ opening, Opening.confirmed c.serde historical (Traffic.seen log) =
      (.ok (some opening), Traffic.frames log ++ conn.parser.queue) := by
  obtain ⟨before, m, rfl, hbefore, hm⟩ := h.opened hopened
  rw [h.seen, List.append_assoc, List.singleton_append]
  exact Opening.confirmed_opening hbefore hm _

/-- A connection that is left while its gate has nothing to examine. -/
theorem Holds.verdict (h : Holds c historical s₀ s log conn gated)
    (hqueue : conn.confirmed = false → conn.parser.queue = [])
    (huntouched : conn.confirmed = false → Untouched s₀ s') : Verdict c historical s₀ s' log := by
  unfold Verdict
  cases hconfirmed : conn.confirmed with
  | false =>
    rw [h.confirmed_shut hconfirmed, hqueue hconfirmed]
    exact ⟨(h.shut hconfirmed).2.1, huntouched hconfirmed⟩
  | true =>
    obtain ⟨opening, hopening⟩ := h.confirmed_opened hconfirmed
    rw [hopening]
    exact List.prefix_append _ _

theorem Live.seen (h : Live conn log gated) :
    Traffic.seen log = gated ++ (Traffic.frames log ++ conn.parser.queue) := by
  obtain ⟨hended, r, hread, hstands⟩ := h
  unfold Traffic.seen Finesse.ByteReader.framesOf Finesse.ByteReader.readSoFar
  rw [hended, hread, Finesse.ok_bind]
  exact hstands.frames.trans (List.append_assoc _ _ _)

/-! ### Steps within a connection -/

theorem receivedOf_snoc (t : List Effect) (e : Effect) :
    receivedOf (t ++ [e]) = receivedOf t ++ receivedOf [e] :=
  List.filterMap_append

/-- An effect that is not the receipt of a notification. -/
theorem receivedOf_other (s : System) (h : receivedOf [e] = []) :
    receivedOf (s.emit e).trace = receivedOf s.trace := by
  rw [emit, receivedOf_snoc, h, List.append_nil]

/-- Where a step from a chunk leads, and that it receives nothing. -/
structure Continues (s s' : System) (conn : Connection) (chunk : Chunk) : Prop where
  place : s'.stage.batch = some (conn, chunk) ∨ s'.stage.connected = false
  received : receivedOf s'.trace = receivedOf s.trace

theorem continues_nextTrigger (c : Setup) (s : System) (conn : Connection) (chunk : Chunk) (n : Notification) (i : Nat) :
    Continues s (s.nextTrigger c conn chunk n i) conn chunk := by
  unfold nextTrigger
  split
  · exact ⟨.inl rfl, rfl⟩
  · exact ⟨.inl rfl, rfl⟩

theorem continues_beginDispatch (c : Setup) (s : System) (conn : Connection) (chunk : Chunk) (n : Notification) :
    Continues s (s.beginDispatch c conn chunk n) conn chunk := by
  have hnext := continues_nextTrigger c (s.emit (.dispatched n)) conn chunk n 0
  exact ⟨hnext.place, hnext.received.trans (receivedOf_other s rfl)⟩

theorem continues_stepPutting (hs : s.stepPutting c conn chunk n landed prev input = some s') :
    Continues s s' conn chunk := by
  unfold stepPutting at hs
  repeat' split at hs
  all_goals cases hs
  · exact ⟨.inl rfl, receivedOf_other { s with store := putMonotonic s.store prev.checkpoint } rfl⟩
  · have hbegin := continues_beginDispatch c
      ((s.emit (.put prev.checkpoint true)).setVars { s.vars with commitCursor := some prev.sequence }) conn chunk n
    exact ⟨hbegin.place, hbegin.received.trans (receivedOf_other s rfl)⟩
  · exact ⟨.inr rfl, receivedOf_other s rfl⟩

theorem continues_stepAttempting (hs : s.stepAttempting c conn chunk n i attempt result = some s') :
    Continues s s' conn chunk := by
  unfold stepAttempting at hs
  obtain ⟨trigger, -, rfl⟩ := Option.map_eq_some_iff.mp hs
  have hnext := continues_nextTrigger c (s.emit (.attempted i result)) conn chunk n (i + 1)
  have hattempted := receivedOf_other s (show receivedOf [.attempted i result] = [] from rfl)
  dsimp only
  split
  · exact ⟨hnext.place, hnext.received.trans hattempted⟩
  · split
    · split
      · exact ⟨.inr rfl, hattempted⟩
      · exact ⟨hnext.place, hnext.received.trans hattempted⟩
    · exact ⟨.inl rfl, hattempted⟩

theorem continues_stepSending (hs : s.stepSending c conn chunk n input = some s') :
    Continues s s' conn chunk := by
  unfold stepSending at hs
  split at hs
  · cases hs
    exact ⟨.inr rfl, rfl⟩
  · split at hs
    all_goals cases hs
    exact ⟨.inr rfl, rfl⟩
  · obtain ⟨mid, haccept, rfl⟩ := Option.map_eq_some_iff.mp hs
    have htrace : mid.trace = s.trace := by
      unfold accept at haccept
      split at haccept
      all_goals cases haccept
      rfl
    have hsent := receivedOf_other mid (show receivedOf [.sent n] = [] from rfl)
    rw [htrace] at hsent
    exact ⟨.inl rfl, hsent⟩
  · cases hs

/-- A step between two frames of a chunk. -/
theorem continues_stepStage (hbatch : s.stage.batch = some (conn, chunk))
    (hbusy : ∀ conn chunk, s.stage ≠ .draining conn chunk) (hs : s.stepStage c input = some s') :
    Continues s s' conn chunk := by
  unfold stepStage at hs
  split at hs
  all_goals rename_i hstage
  all_goals rw [hstage] at hbatch
  all_goals cases hbatch
  · exact absurd hstage (hbusy _ _)
  · obtain ⟨prev, -, hs⟩ := Option.bind_eq_some_iff.mp hs
    exact continues_stepPutting hs
  · unfold stepDispatching at hs
    split at hs
    all_goals cases hs
    · exact ⟨.inr rfl, rfl⟩
    · exact ⟨.inl rfl, rfl⟩
  · split at hs
    · exact continues_stepAttempting hs
    · cases hs
  · unfold stepBackingOff at hs
    split at hs
    all_goals cases hs
    · exact ⟨.inr rfl, rfl⟩
    · exact ⟨.inl rfl, rfl⟩
  · exact continues_stepSending hs

/-- The end of an iteration goes on reading or ends the connection, and does nothing else. -/
structure Finishes (s s' : System) (conn : Connection) (chunk : Chunk) : Prop where
  place : (s'.stage = .reading conn ∧ chunk.eof = false ∧ chunk.overflow = none) ∨ s'.stage.connected = false
  trace : s'.trace = s.trace
  untouched : ∀ s₀, Untouched s₀ s → Untouched s₀ s'

theorem finishes_finishChunk (s : System) (conn : Connection) (chunk : Chunk) :
    Finishes s (s.finishChunk conn chunk false) conn chunk := by
  unfold finishChunk
  split
  · exact ⟨.inr rfl, rfl, fun _ h => (h.apply _).goto _⟩
  · rename_i hover
    split
    · exact ⟨.inr rfl, rfl, fun _ h => h.goto _⟩
    · split
      · exact ⟨.inr rfl, rfl, fun _ h => h.goto _⟩
      · split
        · exact ⟨.inr rfl, rfl, fun _ h => (h.apply _).goto _⟩
        · rename_i heof
          exact ⟨.inl ⟨rfl, Bool.eq_false_iff.mpr heof, hover⟩, rfl, fun _ h => h.goto _⟩

theorem finishChunk_closed (s : System) (conn : Connection) (chunk : Chunk) :
    (s.finishChunk conn chunk true).stage.connected = false ∧
      (s.finishChunk conn chunk true).trace = s.trace := by
  unfold finishChunk
  split
  · exact ⟨rfl, rfl⟩
  · exact ⟨rfl, rfl⟩

/-- Where the handling of a message leads, and what it receives. -/
structure Takes (c : Setup) (s s' : System) (conn : Connection) (chunk : Chunk) (frame : Frame) : Prop where
  place : (∃ g, s'.stage.batch = some ({ conn with gapGuard := g }, chunk)) ∨ s'.stage.connected = false
  received : receivedOf s'.trace = receivedOf s.trace ++ (c.notified frame).toList

theorem takes_receiveNotification (hm : c.serde.incoming c.request.eventType m = .notification n) :
    Takes c s (s.receiveNotification c conn chunk n) conn chunk (.message m) := by
  have hreceived : receivedOf (s.trace ++ [.received n]) =
      receivedOf s.trace ++ (c.notified (.message m)).toList := by
    rw [receivedOf_snoc, Setup.notified, hm]
    rfl
  unfold receiveNotification
  dsimp only
  split
  · exact ⟨.inr rfl, hreceived⟩
  · rename_i g _
    split
    · split
      · exact ⟨.inl ⟨g, rfl⟩, hreceived⟩
      · rename_i prev _ _
        have hbegin := continues_beginDispatch c
          ((((s.apply (.notificationReceived n.sequence)).emit (.received n))).setVars
            { ((s.apply (.notificationReceived n.sequence)).emit (.received n)).vars with
              commitCursor := some prev.sequence })
          { conn with gapGuard := g } chunk n
        exact ⟨hbegin.place.imp_left fun h => ⟨g, h⟩, hbegin.received.trans hreceived⟩
    · have hbegin := continues_beginDispatch c ((s.apply (.notificationReceived n.sequence)).emit (.received n))
        { conn with gapGuard := g } chunk n
      exact ⟨hbegin.place.imp_left fun h => ⟨g, h⟩, hbegin.received.trans hreceived⟩

theorem takes_receiveMessage (s : System) (conn : Connection) (chunk : Chunk) (m : Message) :
    Takes c s (s.receiveMessage c conn chunk m) conn chunk (.message m) := by
  unfold receiveMessage
  dsimp only
  cases hm : c.serde.incoming c.request.eventType m with
  | notification n => exact takes_receiveNotification hm
  | closing reason =>
    obtain ⟨hclosed, htrace⟩ := finishChunk_closed (s.apply (.serverClose reason)) conn chunk
    refine ⟨.inr hclosed, ?_⟩
    dsimp only
    rw [htrace, Setup.notified, hm]
    exact (List.append_nil _).symm
  | _ =>
    refine ⟨?_, ?_⟩
    · first | exact .inr rfl | exact .inl ⟨conn.gapGuard, rfl⟩
    · rw [Setup.notified, hm]
      exact (List.append_nil _).symm

/-! ### The passage of a connection -/

/-- A connection on its way, from the state its request left. -/
structure Passage (c : Setup) (historical : Bool) (s₀ s : System) (log : List Traffic) : Prop where
  tidy : s.stage.Tidy
  place : Place c historical s₀ s log
  received : receivedOf s.trace = receivedOf s₀.trace ++ (Traffic.frames log).filterMap c.notified

theorem place_leave (huntouched : Untouched s₀ s') (hleft : s'.stage.connected = false) (hlog : log = []) :
    Place c historical s₀ s' log := by
  subst hlog
  exact .left hleft ⟨rfl, huntouched⟩

theorem place_stepOpening (h : ∀ a, s.stage = .opening a → a.wireFrom.isSome = historical)
    (hstage : s.stage = .opening a) (huntouched : Untouched s₀ s) (hs : s.stepOpening c a input = some s') :
    Place c historical s₀ s' [] ∧ s'.trace = s.trace := by
  unfold stepOpening at hs
  split at hs
  · cases hs
    exact ⟨place_leave (huntouched.goto _) rfl rfl, rfl⟩
  · cases hs
    exact ⟨place_leave (huntouched.goto _) rfl rfl, rfl⟩
  · cases hs
    exact ⟨place_leave (huntouched.goto _) rfl rfl, rfl⟩
  · split at hs
    · cases hs
      exact ⟨.waiting rfl rfl (fun a heq => by cases heq) rfl (huntouched.goto _), rfl⟩
    · split at hs
      · cases hs
        obtain ⟨-, hstands⟩ := Finesse.Session.reads_start .default
        refine ⟨.reading _ [] rfl ?_ ⟨rfl, _, rfl, hstands⟩ rfl, rfl⟩
        constructor
        · exact h a hstage
        · rfl
        · exact fun _ => ⟨by simp, rfl, huntouched.goto _⟩
        · intro hopened
          cases hopened
      · cases hs
        exact ⟨place_leave (huntouched.goto _) rfl rfl, rfl⟩
  · cases hs

theorem place_stepReadingBody (c : Setup) (historical : Bool) (huntouched : Untouched s₀ s)
    (hs : s.stepReadingBody status requestId retryAfter input = some s') :
    Place c historical s₀ s' [] ∧ s'.trace = s.trace := by
  unfold stepReadingBody at hs
  split at hs
  all_goals cases hs
  all_goals exact ⟨place_leave (huntouched.goto _) rfl rfl, rfl⟩

/-- The gate after a read. -/
theorem place_receive (h : Holds c historical s₀ s log conn gated)
    (hlive : chunk.eof = false → chunk.overflow = none → Live conn log gated) :
    Place c historical s₀ (s.receive c conn chunk) log := by
  unfold receive
  split
  · exact .draining conn chunk gated rfl (h.goto _) hlive
  · rename_i hconfirmed
    have hshut : conn.confirmed = false := Bool.eq_false_iff.mpr hconfirmed
    obtain ⟨hgated, hframes, huntouched⟩ := h.shut hshut
    have hgate := h.confirmed_shut hshut
    rw [h.wire]
    cases hqueue : Opening.confirmed c.serde historical conn.parser.queue with
    | mk verdict queue =>
      rw [hqueue] at hgate
      cases verdict with
      | error e =>
        refine .left rfl ?_
        unfold Verdict
        rw [hgate]
        exact ⟨hframes, huntouched.goto _, rfl⟩
      | ok verdict =>
        cases verdict with
        | none =>
          obtain ⟨rfl, hignored⟩ := Opening.confirmed_none hqueue
          have hpopped : Holds c historical s₀ s log { conn with parser := { conn.parser with queue := [] } }
              (gated ++ conn.parser.queue) := by
            refine ⟨h.wire, ?_, ?_, fun hopened => absurd hopened hconfirmed⟩
            · rw [h.seen, hframes, List.nil_append, List.append_assoc, List.append_nil, List.append_nil]
            · intro _
              refine ⟨?_, hframes, huntouched⟩
              intro m hm
              rcases List.mem_append.mp hm with hm | hm
              · exact hgated m hm
              · exact hignored m hm
          have hpop : Live conn log gated →
              Live { conn with parser := { conn.parser with queue := [] } } log (gated ++ conn.parser.queue) := by
            rintro ⟨hended, r, hread, hstands⟩
            refine ⟨hended, r, hread, ?_⟩
            rw [hframes, List.append_nil] at hstands ⊢
            exact stands_pop hstands (List.append_nil _).symm
          dsimp only
          split
          · rename_i hgoes
            rw [Bool.and_eq_true, Bool.not_eq_true', Option.isNone_iff_eq_none] at hgoes
            exact .reading _ _ rfl (hpopped.goto _) (hpop (hlive hgoes.1 hgoes.2)) rfl
          · exact .draining _ chunk _ rfl (hpopped.goto _) fun heof hover => hpop (hlive heof hover)
        | some opening =>
          obtain ⟨before, m, hsplit, hbefore, hm⟩ := Opening.confirmed_some hqueue
          have hall : ∀ m, .message m ∈ gated ++ before → ¬ Opening.Watched m := by
            intro m hm
            rcases List.mem_append.mp hm with hm | hm
            · exact hgated m hm
            · exact hbefore m hm
          refine .draining _ chunk (gated ++ before ++ [.message m]) rfl ?_ ?_
          · refine ⟨h.wire, ?_, ?_, fun _ => ⟨gated ++ before, m, rfl, hall, hm⟩⟩
            · rw [h.seen, hframes, hsplit]
              simp
            · intro hnot
              cases hnot
          · intro heof hover
            obtain ⟨hended, r, hread, hstands⟩ := hlive heof hover
            refine ⟨hended, r, hread, ?_⟩
            rw [hframes, List.append_nil] at hstands ⊢
            rw [List.append_assoc]
            exact stands_pop hstands (by rw [hsplit, List.append_assoc, List.singleton_append])

theorem trace_receive : receivedOf (s.receive c conn chunk).trace = receivedOf s.trace := by
  unfold receive
  split
  · rfl
  · split
    · rfl
    · exact receivedOf_other (s.setVars _) rfl
    · dsimp only
      split <;> rfl

theorem place_fed (h : Holds c historical s₀ s log conn gated) (hlive : Live conn log gated) (bytes : List UInt8) :
    Place c historical s₀ (s.receive c { conn with parser := (conn.parser.feed bytes).2 }
      ⟨false, overflowOf (conn.parser.feed bytes).1⟩) (log ++ [.chunk bytes]) := by
  obtain ⟨hended, r, hread, hstands⟩ := hlive
  have htracks := feed_tracks hstands bytes
  have hended' : Traffic.ended (log ++ [.chunk bytes]) = false := by rw [Traffic.ended_chunk, hended]
  have hread' : (Traffic.body (log ++ [.chunk bytes])).foldlM
      (Finesse.ByteReader.readByte Finesse.Limits.default.maxLineBytes) (.start .default) =
        bytes.foldlM (Finesse.ByteReader.readByte Finesse.Limits.default.maxLineBytes) r := by
    rw [Traffic.body_chunk, List.foldlM_append, hread, Finesse.ok_bind]
  cases hout : bytes.foldlM (Finesse.ByteReader.readByte Finesse.Limits.default.maxLineBytes) r with
  | ok r' =>
    rw [hout] at htracks hread'
    have hlive : Live { conn with parser := (conn.parser.feed bytes).2 } (log ++ [.chunk bytes]) gated :=
      ⟨hended', r', hread', by rw [Traffic.frames_chunk]; exact htracks.2⟩
    exact place_receive (h.fed (Traffic.frames_chunk _ _) hlive.seen) fun _ _ => hlive
  | error stopped =>
    rw [hout] at htracks hread'
    obtain ⟨hover, hframes⟩ := htracks
    refine place_receive (h.fed (Traffic.frames_chunk _ _) ?_) ?_
    · rw [Traffic.seen, Finesse.ByteReader.framesOf, Finesse.ByteReader.readSoFar, hread', Finesse.error_bind,
        Traffic.frames_chunk]
      exact hframes.trans (List.append_assoc _ _ _)
    · intro _ hnone
      dsimp only at hnone
      rw [hover] at hnone
      cases hnone

theorem place_ended (h : Holds c historical s₀ s log conn gated) (hlive : Live conn log gated) :
    Place c historical s₀ (s.receive c { conn with parser := conn.parser.end.2 }
      ⟨true, overflowOf conn.parser.end.1⟩) (log ++ [.eof]) := by
  obtain ⟨hended, r, hread, hstands⟩ := hlive
  have hends := Finesse.Parser.end_ends hstands
  refine place_receive (h.fed (Traffic.frames_eof _) ?_) ?_
  · rw [Traffic.seen, Finesse.ByteReader.framesOf, Finesse.ByteReader.readSoFar, Traffic.body_eof,
      Traffic.ended_eof, hread, Finesse.ok_bind, if_pos rfl, Traffic.frames_eof]
    cases hfinish : r.finish Finesse.Limits.default.maxLineBytes with
    | ok r' =>
      rw [hfinish] at hends
      exact hends.2.trans (List.append_assoc _ _ _)
    | error stopped =>
      rw [hfinish] at hends
      exact hends.2.trans (List.append_assoc _ _ _)
  · intro heof
    cases heof

/-- A connection that reads on or ends with its body unread. -/
theorem place_stepReading (h : Holds c historical s₀ s log conn gated) (hlive : Live conn log gated)
    (hqueue : conn.parser.queue = []) (hstage : s.stage = .reading conn)
    (hs : s.stepReading c conn input = some s') :
    Place c historical s₀ s' (log ++ (s.traffic input).toList) ∧ receivedOf s'.trace = receivedOf s.trace := by
  have hleft : ∀ z : System, z.stage.connected = false → (Untouched s₀ s → Untouched s₀ z) →
      Place c historical s₀ z (log ++ []) := by
    intro z hz huntouched
    rw [List.append_nil]
    exact .left hz (h.verdict (fun _ => hqueue) fun hshut => huntouched (h.shut hshut).2.2)
  unfold stepReading at hs
  unfold traffic
  rw [hstage]
  split at hs
  · cases hs
    exact ⟨hleft _ rfl fun h => (h.apply _).goto _, rfl⟩
  · split at hs
    · cases hs
    · cases hs
      exact ⟨hleft _ rfl fun h => h.goto _, rfl⟩
  · cases hs
    exact ⟨hleft _ rfl fun h => (h.apply _).goto _, rfl⟩
  · cases hs
    exact ⟨hleft _ rfl fun h => h.goto _, rfl⟩
  · cases hs
    exact ⟨place_fed h hlive _, trace_receive⟩
  · cases hs
    exact ⟨place_ended h hlive, trace_receive⟩
  · cases hs

/-- One frame of a chunk, or its end. -/
theorem place_stepDraining (h : Holds c historical s₀ s log conn gated)
    (hlive : chunk.eof = false → chunk.overflow = none → Live conn log gated)
    (hqueue : conn.confirmed = false → conn.parser.queue = []) :
    Place c historical s₀ (s.stepDraining c conn chunk)
        (log ++ (conn.parser.nextFrame.1.map Traffic.handled).toList) ∧
      receivedOf (s.stepDraining c conn chunk).trace =
        receivedOf s.trace ++ (conn.parser.nextFrame.1.toList).filterMap c.notified := by
  unfold stepDraining Finesse.Parser.nextFrame
  cases hnext : conn.parser.queue with
  | nil =>
    have hfinishes := finishes_finishChunk s conn chunk
    refine ⟨?_, ?_⟩
    · dsimp only
      rw [Option.map_none, Option.toList_none, List.append_nil]
      rcases hfinishes.place with ⟨hreading, heof, hover⟩ | hclosed
      · exact .reading conn gated hreading
          (h.moved fun hshut => hfinishes.untouched s₀ (h.shut hshut).2.2) (hlive heof hover) hnext
      · exact .left hclosed (h.verdict hqueue fun hshut => hfinishes.untouched s₀ (h.shut hshut).2.2)
    · dsimp only
      rw [hfinishes.trace]
      exact (List.append_nil _).symm
  | cons frame rest =>
    have hopened : conn.confirmed = true := by
      by_contra hnot
      cases hnext.symm.trans (hqueue (Bool.eq_false_iff.mpr hnot))
    have hheld : ∀ g z, Holds c historical s₀ z (log ++ [.handled frame])
        { conn with parser := { conn.parser with queue := rest }, gapGuard := g } gated := by
      intro g z
      refine ⟨h.wire, ?_, fun hshut => absurd (hopened.symm.trans hshut) (by simp), h.opened⟩
      rw [Traffic.seen_handled, h.seen, hnext, Traffic.frames_handled, List.append_assoc (Traffic.frames log)]
      rfl
    have hlives : ∀ g, chunk.eof = false → chunk.overflow = none →
        Live { conn with parser := { conn.parser with queue := rest }, gapGuard := g } (log ++ [.handled frame])
          gated := by
      intro g heof hover
      obtain ⟨hended, r, hread, hstands⟩ := hlive heof hover
      refine ⟨by rw [Traffic.ended_handled, hended], r, by rw [Traffic.body_handled, hread], ?_⟩
      rw [Traffic.frames_handled, ← List.append_assoc]
      exact stands_pop hstands hnext
    cases frame with
    | retry ms => exact ⟨.draining _ chunk gated rfl (hheld conn.gapGuard _) (hlives conn.gapGuard), (List.append_nil _).symm⟩
    | message m =>
      have htakes := takes_receiveMessage (c := c) s { conn with parser := { conn.parser with queue := rest } } chunk m
      refine ⟨?_, ?_⟩
      · dsimp only
        rcases htakes.place with ⟨g, hbatch⟩ | hclosed
        · exact .draining _ chunk gated hbatch (hheld g _) (hlives g)
        · refine .left hclosed ((hheld conn.gapGuard s).verdict ?_ ?_)
          · exact fun hshut => absurd (hopened.symm.trans hshut) (by simp)
          · exact fun hshut => absurd (hopened.symm.trans hshut) (by simp)
      · dsimp only
        rw [htakes.received]
        rfl


theorem tidy_batch {stage : Stage} (htidy : stage.Tidy) (hbatch : stage.batch = some (conn, chunk)) :
    conn.confirmed = false → conn.parser.queue = [] := by
  intro hshut
  cases stage with
  | draining conn' chunk' =>
    cases hbatch
    exact htidy hshut
  | putting conn' chunk' n landed =>
    cases hbatch
    cases htidy.symm.trans hshut
  | dispatching conn' chunk' n i =>
    cases hbatch
    cases htidy.symm.trans hshut
  | attempting conn' chunk' n i attempt =>
    cases hbatch
    cases htidy.symm.trans hshut
  | backingOff conn' chunk' n i attempt =>
    cases hbatch
    cases htidy.symm.trans hshut
  | sending conn' chunk' n =>
    cases hbatch
    cases htidy.symm.trans hshut
  | _ => cases hbatch

theorem tidy_busy {stage : Stage} (htidy : stage.Tidy) (hbatch : stage.batch = some (conn, chunk))
    (hbusy : ∀ conn chunk, stage ≠ .draining conn chunk) : conn.confirmed = true := by
  cases stage with
  | draining conn' chunk' => exact absurd rfl (hbusy _ _)
  | putting conn' chunk' n landed =>
    cases hbatch
    exact htidy
  | dispatching conn' chunk' n i =>
    cases hbatch
    exact htidy
  | attempting conn' chunk' n i attempt =>
    cases hbatch
    exact htidy
  | backingOff conn' chunk' n i attempt =>
    cases hbatch
    exact htidy
  | sending conn' chunk' n =>
    cases hbatch
    exact htidy
  | _ => cases hbatch

/-- What the supervisor does not do leaves a connection where it is. -/
theorem Place.moved (h : Place c historical s₀ s log) (hstage : s'.stage = s.stage)
    (huntouched : Untouched s₀ s → Untouched s₀ s') : Place c historical s₀ s' log := by
  cases h with
  | waiting hconnected hnone hwire hlog hsame =>
    exact .waiting (hstage ▸ hconnected) (hstage ▸ hnone) (fun a ha => hwire a (hstage ▸ ha)) hlog (huntouched hsame)
  | reading conn gated hreading hholds hlive hqueue =>
    exact .reading conn gated (hstage.trans hreading)
      (hholds.moved fun hshut => huntouched (hholds.shut hshut).2.2) hlive hqueue
  | draining conn chunk gated hbatch hholds hlive =>
    exact .draining conn chunk gated (hstage ▸ hbatch)
      (hholds.moved fun hshut => huntouched (hholds.shut hshut).2.2) hlive
  | left hclosed hverdict =>
    refine .left (hstage ▸ hclosed) ?_
    unfold Verdict at hverdict ⊢
    split at hverdict
    · exact ⟨hverdict.1, huntouched hverdict.2.1, hstage.trans hverdict.2.2⟩
    · exact ⟨hverdict.1, huntouched hverdict.2⟩
    · exact hverdict

/-- The startup budget runs out. -/
theorem Place.expired (h : Place c historical s₀ s log) (htidy : s.stage.Tidy) (hconnected : s.stage.connected = true)
    (hclosed : s'.stage.connected = false) (huntouched : Untouched s₀ s → Untouched s₀ s') :
    Place c historical s₀ s' log := by
  cases h with
  | waiting _ _ _ hlog hsame => exact place_leave (huntouched hsame) hclosed hlog
  | reading conn gated _ hholds _ hqueue =>
    exact .left hclosed (hholds.verdict (fun _ => hqueue) fun hshut => huntouched (hholds.shut hshut).2.2)
  | draining conn chunk gated hbatch hholds _ =>
    exact .left hclosed
      (hholds.verdict (tidy_batch htidy hbatch) fun hshut => huntouched (hholds.shut hshut).2.2)
  | left hover _ => cases hover.symm.trans hconnected

theorem place_stepStage (h : Place c historical s₀ s log) (htidy : s.stage.Tidy) (hs : s.stepStage c input = some s')
    (hconnected : s.stage.connected = true) :
    Place c historical s₀ s' (log ++ (s.traffic input).toList) ∧
      receivedOf s'.trace = receivedOf s.trace ++ (Traffic.frames (s.traffic input).toList).filterMap c.notified := by
  cases h with
  | waiting _ hnone hwire hlog huntouched =>
    subst hlog
    unfold stepStage at hs
    cases hstage : s.stage with
    | opening a =>
      rw [hstage] at hs
      obtain ⟨hplace, htrace⟩ := place_stepOpening hwire hstage huntouched hs
      have hquiet : s.traffic input = none := by simp [traffic, hstage]
      rw [hquiet, htrace]
      exact ⟨hplace, (List.append_nil _).symm⟩
    | readingBody status requestId retryAfter =>
      rw [hstage] at hs
      obtain ⟨hplace, htrace⟩ := place_stepReadingBody c historical huntouched hs
      have hquiet : s.traffic input = none := by simp [traffic, hstage]
      rw [hquiet, htrace]
      exact ⟨hplace, (List.append_nil _).symm⟩
    | _ => simp [hstage, Stage.connected, Stage.connection] at hconnected hnone
  | reading conn gated hstage hholds hlive hqueue =>
    unfold stepStage at hs
    rw [hstage] at hs
    obtain ⟨hplace, hreceived⟩ := place_stepReading hholds hlive hqueue hstage hs
    refine ⟨hplace, ?_⟩
    have hquiet : Traffic.frames (s.traffic input).toList = [] := by
      unfold traffic
      rw [hstage]
      cases input <;> rfl
    rw [hreceived, hquiet]
    exact (List.append_nil _).symm
  | draining conn chunk gated hbatch hholds hlive =>
    by_cases hbusy : ∀ conn chunk, s.stage ≠ .draining conn chunk
    · have hcontinues := continues_stepStage hbatch hbusy hs
      have hopened := tidy_busy htidy hbatch hbusy
      have hshut : conn.confirmed = false → Untouched s₀ s' := fun hshut => absurd (hopened.symm.trans hshut) (by simp)
      have hquiet : s.traffic input = none := by
        cases hstage : s.stage with
        | reading conn' =>
          rw [hstage] at hbatch
          cases hbatch
        | draining conn' chunk' => exact absurd hstage (hbusy _ _)
        | _ => simp [traffic, hstage]
      rw [hquiet, hcontinues.received]
      refine ⟨?_, (List.append_nil _).symm⟩
      rw [Option.toList_none, List.append_nil]
      rcases hcontinues.place with hplace | hclosed
      · exact .draining conn chunk gated hplace (hholds.moved hshut) hlive
      · exact .left hclosed (hholds.verdict (tidy_batch htidy hbatch) hshut)
    · push Not at hbusy
      obtain ⟨conn', chunk', hstage⟩ := hbusy
      rw [hstage] at hbatch
      cases hbatch
      unfold stepStage at hs
      rw [hstage] at hs
      dsimp only at hs
      split at hs
      · cases hs
        obtain ⟨hplace, hreceived⟩ := place_stepDraining hholds hlive (tidy_batch htidy (by rw [hstage]; rfl))
        have htraffic : s.traffic .proceed = conn.parser.nextFrame.1.map .handled := by simp [traffic, hstage]
        rw [htraffic]
        refine ⟨hplace, hreceived.trans ?_⟩
        cases conn.parser.nextFrame.1 <;> rfl
      · cases hs
  | left hclosed _ => cases hclosed.symm.trans hconnected

theorem traffic_stageless (h : input = .startupExpires ∨ input = .pull ∨ input = .hangUp) : s.traffic input = none := by
  unfold traffic
  rcases h with rfl | rfl | rfl
  all_goals split
  all_goals first | rfl | contradiction

theorem passage_step (h : Passage c historical s₀ s log) (hconnected : s.stage.connected = true)
    (hs : step c s input = some s') : Passage c historical s₀ s' (log ++ (s.traffic input).toList) := by
  have htidy := step_tidy h.tidy hs
  have hsame : ∀ z : System, s.traffic input = none → z.trace = s.trace → Place c historical s₀ z log →
      Place c historical s₀ z (log ++ (s.traffic input).toList) ∧
        receivedOf z.trace = receivedOf s.trace ++ (Traffic.frames (s.traffic input).toList).filterMap c.notified := by
    intro z hnone htrace hplace
    rw [hnone, htrace, Option.toList_none, List.append_nil]
    exact ⟨hplace, (List.append_nil _).symm⟩
  have hboth : Place c historical s₀ s' (log ++ (s.traffic input).toList) ∧
      receivedOf s'.trace = receivedOf s.trace ++ (Traffic.frames (s.traffic input).toList).filterMap c.notified := by
    unfold step at hs
    split at hs
    · split at hs
      · cases hs
        exact hsame _ (traffic_stageless (.inl rfl)) rfl (h.place.expired h.tidy hconnected rfl fun h => h.goto _)
      · cases hs
    · split at hs
      · cases hs
      · cases hs
        exact hsame _ (traffic_stageless (.inr (.inl rfl))) rfl
          (h.place.moved rfl fun h => ⟨h.trace, h.store, h.commitCursor, h.pendingCommit, h.ready⟩)
    · cases hs
      exact hsame _ (traffic_stageless (.inr (.inr rfl))) rfl
        (h.place.moved rfl fun h => ⟨h.trace, h.store, h.commitCursor, h.pendingCommit, h.ready⟩)
    · exact place_stepStage h.place h.tidy hs hconnected
  refine ⟨htidy, hboth.1, ?_⟩
  rw [hboth.2, h.received, List.append_assoc, ← List.filterMap_append]
  simp only [Traffic.frames, List.filterMap_append]

end System
end Aviso.Watch
