import Aviso.Lib.Cells
import Aviso.Lib.History
import Aviso.Py.Streams

namespace Aviso.Py

open Watch (Poll Reads)

variable {σ ν ε : Type}

/-- How a stage stands to the lock. -/
inductive Hold where
  | out
  | waits
  | holds
  deriving DecidableEq

namespace Stage

def hold : Stage ν ε → Hold
  | .created | .notifying | .entering | .done _ | .dropped => .out
  | .queued => .waits
  | _ => .holds

/-- The stream may be read before the flag is looked at again. -/
def reading : Stage ν ε → Bool
  | .selecting _ | .receiving _ | .parked _ => true
  | _ => false

/-- It reads and was not woken. -/
def deaf : Stage ν ε → Bool
  | .selecting woken | .receiving woken | .parked woken => !woken
  | _ => false

def ended : Stage ν ε → Bool
  | .done _ | .dropped => true
  | _ => false

/-- It closes the stream and carries an item: no awaitable does. -/
def laden : Stage ν ε → Bool
  | .leaving (.item _) | .taking (.item _) | .closing (.item _) => true
  | _ => false

def isClosing : Stage ν ε → Bool
  | .closing _ => true
  | _ => false

def isDone : Stage ν ε → Bool
  | .done _ => true
  | _ => false

/-- How many steps an awaitable takes at most once the iterator is closing. -/
def rank : Stage ν ε → Nat
  | .created => 9
  | .notifying => 8
  | .entering => 7
  | .queued | .receiving _ => 6
  | .holding | .parked _ => 5
  | .registered _ | .selecting _ => 4
  | .leaving _ => 3
  | .taking _ => 2
  | .closing _ => 1
  | .done _ | .dropped => 0

@[simp] theorem hold_wake (stage : Stage ν ε) : stage.wake.hold = stage.hold := by cases stage <;> rfl
@[simp] theorem reading_wake (stage : Stage ν ε) : stage.wake.reading = stage.reading := by cases stage <;> rfl
@[simp] theorem deaf_wake (stage : Stage ν ε) : stage.wake.deaf = false := by cases stage <;> rfl
@[simp] theorem ended_wake (stage : Stage ν ε) : stage.wake.ended = stage.ended := by cases stage <;> rfl
@[simp] theorem laden_wake (stage : Stage ν ε) : stage.wake.laden = stage.laden := by cases stage <;> rfl
@[simp] theorem isClosing_wake (stage : Stage ν ε) : stage.wake.isClosing = stage.isClosing := by cases stage <;> rfl
@[simp] theorem isDone_wake (stage : Stage ν ε) : stage.wake.isDone = stage.isDone := by cases stage <;> rfl
@[simp] theorem rank_wake (stage : Stage ν ε) : stage.wake.rank = stage.rank := by cases stage <;> rfl

theorem rank_le (stage : Stage ν ε) : stage.rank ≤ 9 := by cases stage <;> simp [rank]

theorem holds_of_closing {stage : Stage ν ε} (h : stage.isClosing = true) : stage.hold = .holds := by
  cases stage <;> first | rfl | cases h

theorem holds_of_reading {stage : Stage ν ε} (h : stage.reading = true) : stage.hold = .holds := by
  cases stage <;> first | rfl | cases h

end Stage

theorem Stage.reading_of_deaf {stage : Stage ν ε} (h : stage.deaf = true) : stage.reading = true := by
  cases stage <;> first | rfl | cases h

namespace Role

/-- It reads the stream. -/
def reads : Role → Bool
  | .anext | .run => true
  | .aclose | .background => false

/-- It takes the stream out in the end. -/
def closes : Role → Bool
  | .anext => false
  | _ => true

/-- The stages an awaitable passes through. -/
def fits {ν ε : Type} (role : Role) : Stage ν ε → Bool
  | .created | .entering | .queued | .done _ => true
  | .dropped => role != .background
  | .notifying => !role.reads
  | .taking _ | .closing _ => role.closes
  | .leaving _ => role.reads && role.closes
  | _ => role.reads

/-- It has asked for the close. -/
def asked {ν ε : Type} (role : Role) : Stage ν ε → Bool
  | .created | .dropped => false
  | .taking _ | .closing _ => true
  | .done _ => role.closes
  | _ => !role.reads

@[simp] theorem fits_wake {ν ε : Type} (role : Role) (stage : Stage ν ε) : role.fits stage.wake = role.fits stage := by
  cases stage <;> rfl
@[simp] theorem asked_wake {ν ε : Type} (role : Role) (stage : Stage ν ε) :
    role.asked stage.wake = role.asked stage := by
  cases stage <;> rfl

end Role

namespace Mark

def isRequest : Mark ν ε → Bool
  | .requested => true
  | _ => false

def isRead : Mark ν ε → Bool
  | .read _ _ => true
  | _ => false

def isTaken : Mark ν ε → Bool
  | .taken _ => true
  | _ => false

/-- The close of the stream has come to an end. -/
def isGone : Mark ν ε → Bool
  | .closed _ | .abandoned _ => true
  | _ => false

def isCancelled : Mark ν ε → Bool
  | .cancelled _ => true
  | _ => false

def item? : Mark ν ε → Option (Option (Except ε ν))
  | .read _ item => some item
  | _ => none

end Mark

/-- The items read, in order. -/
def itemsRead (trace : List (Mark ν ε)) : List (Option (Except ε ν)) := trace.filterMap Mark.item?

/-- The items read after the flag was stored. -/
def lateReads (trace : List (Mark ν ε)) : Nat := Lib.later Mark.isRequest Mark.isRead trace

/-- When a mark may come: nothing is read once the stream was taken out, it is taken out and closed
once, and an item given back is the one just read. -/
def Allowed (before : List (Mark ν ε)) : Mark ν ε → Prop
  | .read _ _ => ∀ m ∈ before, m.isTaken = false
  | .taken _ => ∀ m ∈ before, m.isTaken = false
  | .closed i | .abandoned i => .taken i ∈ before ∧ ∀ m ∈ before, m.isGone = false
  | .returned i (.item notification) => before.getLast? = some (.read i (some (.ok notification)))
  | _ => True

variable {poll : σ → Poll (Option (Except ε ν)) × σ}

/-- What `__anext__` gives back for an answer of the stream. -/
def outcomeOf : Option (Except ε ν) → Outcome ν ε
  | some (.ok notification) => .item notification
  | some (.error err) => .error err
  | none => .ended

/-- The flag, an empty slot or the wake-up ends the reading. -/
def Quits (w : AsyncNotificationIterator σ ν ε) : Stage ν ε → Prop
  | .created => w.closed = true
  | .registered _ => w.closed = true ∨ w.inner = none
  | .selecting woken => woken = true
  | _ => False

/-- All that one awaitable can do in a step, a close and a drop among it. -/
inductive Turn (poll : σ → Poll (Option (Except ε ν)) × σ) (i : Nat) (w : AsyncNotificationIterator σ ν ε) :
    Role → Stage ν ε → Effect σ ν ε → Prop where
  | arrives (hrole : role.reads = true) : Turn poll i w role .created (.goto w.inner .entering)
  | asks (hrole : role.reads = false) : Turn poll i w role .created
      { stage := .notifying, inner := w.inner, requests := true, marks := [.requested] }
  | notifies : Turn poll i w role .notifying { stage := .entering, inner := w.inner, wakes := true }
  | enters : Turn poll i w role .entering { stage := .queued, inner := w.inner, lock := .join }
  | holds (hrole : role.reads = true) (hfirst : w.queue.head? = some i) :
      Turn poll i w role .queued (.goto w.inner .holding)
  | locks (hrole : role.reads = false) (hfirst : w.queue.head? = some i) :
      Turn poll i w role .queued (.goto w.inner (.taking .ended))
  | registers : Turn poll i w role .holding (.goto w.inner (.registered false))
  | opens (hclosed : w.closed = false) (hinner : w.inner = some s) :
      Turn poll i w role (.registered woken) (.goto w.inner (.selecting woken))
  | listens : Turn poll i w role (.selecting false) (.goto w.inner (.receiving false))
  | parks (hinner : w.inner = some s) (hpoll : poll s = (.pending, s')) :
      Turn poll i w role (.receiving woken) (.goto (some s') (.parked woken))
  | rises : Turn poll i w role (.parked woken) (.goto w.inner (.selecting woken))
  | returns (hquits : Quits w stage) : Turn poll i w .anext stage (.finish w.inner i .ended [])
  | quits (hrole : role ≠ .anext) (hquits : Quits w stage) (hstage : stage ≠ .created) : Turn poll i w role stage
      { stage := .leaving .ended, inner := w.inner }
  | receives (item : Option (Except ε ν)) (hinner : w.inner = some s)
      (hpoll : poll s = (.ready item, s')) : Turn poll i w .anext (.receiving woken) (.finish (some s') i (outcomeOf item) [.read i item])
  | readsOn (item : Option (Except ε ν)) (hrole : role ≠ .anext) (hinner : w.inner = some s)
      (hpoll : poll s = (.ready item, s')) : Turn poll i w role (.receiving woken) { stage := .holding, inner := some s', marks := [.read i item] }
  | stops (item : Option (Except ε ν)) (hrole : role ≠ .anext)
      (hitem : ∀ notification, item ≠ some (.ok notification)) (hinner : w.inner = some s) (hpoll : poll s = (.ready item, s')) : Turn poll i w role (.receiving woken)
        { stage := .leaving (outcomeOf item), inner := some s', marks := [.read i item] }
  | leaves (outcome : Outcome ν ε) : Turn poll i w role (.leaving outcome)
      { stage := .taking outcome, inner := w.inner, requests := true, marks := [.requested] }
  | takes (outcome : Outcome ν ε) (hinner : w.inner = some s) : Turn poll i w role (.taking outcome)
      { stage := .closing outcome, inner := none, marks := [.taken i] }
  | finds (outcome : Outcome ν ε) (hinner : w.inner = none) : Turn poll i w role (.taking outcome) (.finish none i outcome [])
  | closed (outcome : Outcome ν ε) : Turn poll i w role (.closing outcome) (.finish w.inner i outcome [.closed i])
  | goes (hrole : role ≠ .background) : Turn poll i w role .created { stage := .dropped, inner := w.inner }
  | drops (hrole : role ≠ .background) (hstage : stage = .queued ∨ ∃ woken, stage = .parked woken) :
      Turn poll i w role stage { stage := .dropped, inner := w.inner, lock := .leave }
  | abandons (hrole : role ≠ .background) : Turn poll i w role (.closing outcome)
      { stage := .dropped, inner := w.inner, lock := .leave, marks := [.abandoned i] }

variable {w w' : AsyncNotificationIterator σ ν ε} {i : Nat} {role : Role} {stage : Stage ν ε} {e : Effect σ ν ε}

theorem leave_turn (hquits : Quits w stage) (hstage : stage ≠ .created) :
    Turn poll i w role stage (.leave w.inner role i .ended []) := by
  cases role with
  | anext => exact .returns hquits
  | run | aclose | background => exact .quits (by simp) hquits hstage

theorem receive_turn (hinner : w.inner = some s) (hpoll : poll s = (.ready item, s')) :
    Turn poll i w role (.receiving woken) (receive (some s') role i item) := by
  rcases item with _ | (err | notification) <;> cases role
  case none.anext => exact .receives none hinner hpoll
  case some.error.anext => exact .receives (some (.error err)) hinner hpoll
  case some.ok.anext => exact .receives (some (.ok notification)) hinner hpoll
  case some.ok.run | some.ok.aclose | some.ok.background => exact .readsOn _ (by simp) hinner hpoll
  all_goals exact .stops _ (by simp) (by simp) hinner hpoll

theorem turn_spec (h : turn poll i w.closed w.inner (w.queue.head? = some i) role stage = some e) :
    Turn poll i w role stage e := by
  cases stage with
  | created =>
    cases role with
    | anext =>
      cases Option.some.inj h
      cases hclosed : w.closed with
      | true => exact .returns hclosed
      | false => exact .arrives rfl
    | run =>
      cases h
      exact .arrives rfl
    | aclose | background =>
      cases h
      exact .asks rfl
  | notifying => cases h; exact .notifies
  | entering => cases h; exact .enters
  | queued =>
    simp only [turn] at h
    split at h
    · rename_i hfirst
      have hhead := of_decide_eq_true hfirst
      cases role <;> cases h
      · exact .holds rfl hhead
      · exact .holds rfl hhead
      · exact .locks rfl hhead
      · exact .locks rfl hhead
    · cases h
  | holding => cases h; exact .registers
  | registered woken =>
    simp only [turn] at h
    split at h
    · cases h
      exact leave_turn (.inl ‹_›) (by simp)
    · rename_i hclosed
      cases hinner : w.inner with
      | none =>
        simp only [hinner, Option.some.injEq] at h
        subst h
        exact hinner ▸ leave_turn (.inr hinner) (by simp)
      | some s =>
        simp only [hinner, Option.some.injEq] at h
        subst h
        exact hinner ▸ .opens (Bool.eq_false_iff.mpr hclosed) hinner
  | selecting woken =>
    cases woken <;> cases h
    · exact .listens
    · exact leave_turn rfl (by simp)
  | receiving woken =>
    cases hinner : w.inner with
    | none => simp [turn, hinner] at h
    | some s =>
      simp only [turn, hinner] at h
      split at h
      · cases h
        exact .parks hinner ‹_›
      · cases h
        exact receive_turn hinner ‹_›
  | parked woken => cases h; exact .rises
  | leaving outcome => cases h; exact .leaves outcome
  | taking outcome =>
    cases hinner : w.inner with
    | none =>
      simp only [turn, hinner, Option.some.injEq] at h
      subst h
      exact .finds outcome hinner
    | some s =>
      simp only [turn, hinner, Option.some.injEq] at h
      subst h
      exact .takes outcome hinner
  | closing outcome => cases h
  | done outcome => cases h
  | dropped => cases h

namespace AsyncNotificationIterator

/-- A new awaitable, with what it leaves in the trace. -/
def spawn (w : AsyncNotificationIterator σ ν ε) (role : Role) (marks : List (Mark ν ε)) :
    AsyncNotificationIterator σ ν ε :=
  { w with ops := w.ops ++ [⟨role, .created⟩], trace := w.trace ++ marks }

end AsyncNotificationIterator

open AsyncNotificationIterator

/-- An awaitable of the iterator takes a turn. -/
def Turned (poll : σ → Poll (Option (Except ε ν)) × σ) (w w' : AsyncNotificationIterator σ ν ε) : Prop :=
  ∃ i op e, w.ops[i]? = some op ∧ Turn poll i w op.role op.stage e ∧ w' = w.apply i e

/-- The step is one of an awaitable, or the close it waits for. -/
def StreamEvent.isTurn : StreamEvent → Bool
  | .advance _ | .closed _ => true
  | _ => false

/-- All a step can do: a turn of an awaitable, a call, and a turn that leaves a close behind. -/
theorem step_cases (h : step poll w event = some w') :
    Turned poll w w' ∨ event.isTurn = false ∧
      ((∃ role, w' = w.spawn role []) ∨ ∃ i mid, Turned poll w mid ∧ w' = mid.spawn .background [.cancelled i]) := by
  have habandon {i : Nat} {op : Op ν ε} {marks : List (Mark ν ε)} (hop : w.ops[i]? = some op)
      (hturn : Turn poll i w op.role op.stage
        { stage := .dropped, inner := w.inner, lock := .leave, marks := marks }) :
      Turned poll w (w.abandon i op.role marks) ∨ (StreamEvent.drop i).isTurn = false ∧
        ((∃ role, w.abandon i op.role marks = w.spawn role []) ∨
          ∃ j mid, Turned poll w mid ∧ w.abandon i op.role marks = mid.spawn .background [.cancelled j]) := by
    have hturned : Turned poll w (w.apply i _) := ⟨i, op, _, hop, hturn, rfl⟩
    cases hrole : op.role with
    | run => exact .inr ⟨rfl, .inr ⟨i, _, hturned, rfl⟩⟩
    | anext | aclose | background => exact .inl hturned
  cases event with
  | call role =>
    simp only [step] at h
    split at h
    · cases h
    · cases h
      exact .inr ⟨rfl, .inl ⟨role, by simp [spawn]⟩⟩
  | advance i =>
    obtain ⟨op, hop, h⟩ := Option.bind_eq_some_iff.mp h
    obtain ⟨e, he, rfl⟩ := Option.map_eq_some_iff.mp h
    exact .inl ⟨i, op, e, hop, turn_spec he, rfl⟩
  | closed i =>
    obtain ⟨op, hop, h⟩ := Option.bind_eq_some_iff.mp h
    cases hstage : op.stage with
    | closing outcome =>
      simp only [hstage, Option.some.injEq] at h
      exact .inl ⟨i, op, _, hop, hstage ▸ .closed outcome, h.symm⟩
    | _ => simp [hstage] at h
  | drop i =>
    obtain ⟨op, hop, h⟩ := Option.bind_eq_some_iff.mp h
    split at h
    · cases h
    · rename_i hrole
      cases hstage : op.stage with
      | created =>
        simp only [hstage, Option.some.injEq] at h
        exact .inl ⟨i, op, _, hop, hstage ▸ .goes hrole, h.symm⟩
      | queued =>
        simp only [hstage, Option.some.injEq] at h
        subst h
        exact habandon hop (.drops hrole (.inl hstage))
      | parked woken =>
        simp only [hstage, Option.some.injEq] at h
        subst h
        exact habandon hop (.drops hrole (.inr ⟨woken, hstage⟩))
      | closing outcome =>
        simp only [hstage, Option.some.injEq] at h
        subst h
        exact habandon hop (hstage ▸ .abandons hrole)
      | _ => simp [hstage] at h

section Turns

theorem Turn.lock (h : Turn poll i w role stage e) :
    e.lock = .keep ∧ e.stage.hold = stage.hold ∨
      e.lock = .keep ∧ stage.hold = .waits ∧ e.stage.hold = .holds ∧ w.queue.head? = some i ∨
      e.lock = .join ∧ stage.hold = .out ∧ e.stage.hold = .waits ∨ e.lock = .leave ∧ e.stage.hold = .out := by
  cases h with
  | returns | receives | finds | closed | drops | abandons => exact .inr (.inr (.inr ⟨rfl, rfl⟩))
  | holds _ hfirst | locks _ hfirst => exact .inr (.inl ⟨rfl, rfl, rfl, hfirst⟩)
  | enters => exact .inr (.inr (.inl ⟨rfl, rfl, rfl⟩))
  | quits hrole hquits hstage =>
    cases stage with
    | created => exact absurd rfl hstage
    | registered woken | selecting woken => exact .inl ⟨rfl, rfl⟩
    | _ => cases hquits
  | _ => exact .inl ⟨rfl, rfl⟩

/-- Only `run` both reads and closes. -/
theorem run_of_reads {role : Role} (hreads : role.reads = true) (hrole : role ≠ .anext) : role = .run := by
  cases role with
  | run => rfl
  | anext => exact absurd rfl hrole
  | aclose | background => cases hreads

theorem Quits.reads (h : Quits w stage) (hstage : stage ≠ .created) (hfits : role.fits stage = true) :
    role.reads = true := by
  cases stage with
  | created => exact absurd rfl hstage
  | registered woken | selecting woken => exact hfits
  | _ => cases h

theorem closes_of_not_reads {role : Role} (h : role.reads = false) : role.closes = true := by
  cases role <;> first | rfl | cases h

theorem Turn.fits (h : Turn poll i w role stage e) (hfits : role.fits stage = true) : role.fits e.stage = true := by
  cases h with
  | asks hrole => simp [Role.fits, hrole]
  | holds hrole => exact hrole
  | locks hrole => exact closes_of_not_reads hrole
  | quits hrole hquits hstage => rw [run_of_reads (hquits.reads hstage hfits) hrole]; rfl
  | readsOn => exact hfits
  | stops item hrole => rw [run_of_reads hfits hrole]; rfl
  | leaves => exact (Bool.and_eq_true_iff.mp hfits).2
  | takes => exact hfits
  | registers | opens | listens | parks | rises => exact hfits
  | goes hrole | drops hrole | abandons hrole => simp [Role.fits, hrole]
  | _ => rfl

theorem Turn.asked (h : Turn poll i w role stage e) (hfits : role.fits stage = true)
    (hasked : role.asked stage = true → w.closed = true) (hnext : role.asked e.stage = true) :
    w.closed = true ∨ e.requests = true := by
  cases h with
  | asks | leaves => exact .inr rfl
  | arrives hrole | holds hrole => simp [Effect.goto, Role.asked, hrole] at hnext
  | locks hrole => exact .inl (hasked (by simp [Role.asked, hrole]))
  | quits hrole hquits hstage =>
    rw [run_of_reads (hquits.reads hstage hfits) hrole] at hnext
    cases hnext
  | stops item hrole =>
    rw [run_of_reads hfits hrole] at hnext
    cases hnext
  | returns | receives | goes | drops | abandons => cases hnext
  | notifies | enters | registers | opens | listens | parks | rises | readsOn => exact .inl (hasked hnext)
  | takes | finds | closed => exact .inl (hasked rfl)

/-- A stream is read on only where it is open, and while the flag was not seen. -/
theorem Turn.reading (h : Turn poll i w role stage e) (hinner : stage.reading = true → w.inner ≠ none)
    (hnext : e.stage.reading = true) : e.inner ≠ none ∧ (stage.reading = true ∨ w.closed = false) := by
  cases h with
  | opens hclosed hopen => exact ⟨by simp [Effect.goto, hopen], .inr hclosed⟩
  | listens | rises => exact ⟨hinner rfl, .inl rfl⟩
  | parks => exact ⟨by simp [Effect.goto], .inl rfl⟩
  | _ => cases hnext

/-- A stream that was taken out does not come back. -/
theorem Turn.inner_none (h : Turn poll i w role stage e) (hinner : w.inner = none) : e.inner = none := by
  cases h with
  | parks hopen | receives item hopen | readsOn item hrole hopen | stops item hrole hitem hopen => simp [hinner] at hopen
  | takes | finds => rfl
  | _ => exact hinner

/-- The step that takes the stream out is marked, and no other step takes it. -/
theorem Turn.taken (h : Turn poll i w role stage e) :
    (∃ m ∈ e.marks, m.isTaken = true) ↔ w.inner ≠ none ∧ e.inner = none := by
  cases h with
  | takes outcome hinner => simp [Mark.isTaken, hinner]
  | _ => simp_all [Effect.goto, Effect.finish, Mark.isTaken]

theorem Turn.takes_holds (h : Turn poll i w role stage e) (hopen : w.inner ≠ none) (hnone : e.inner = none) :
    stage.hold = .holds := by
  cases h with
  | takes | finds => rfl
  | parks | receives | readsOn | stops => cases hnone
  | _ => exact absurd hnone hopen

theorem Turn.requests (h : Turn poll i w role stage e) :
    (∃ m ∈ e.marks, m.isRequest = true) ↔ e.requests = true := by
  cases h <;> simp [Effect.goto, Effect.finish, Mark.isRequest]

theorem Turn.cancelled (h : Turn poll i w role stage e) : ∀ m ∈ e.marks, m.isCancelled = false := by
  cases h <;> simp [Effect.goto, Effect.finish, Mark.isCancelled]

/-- The close of the stream comes to an end in a turn of the one that took it out. -/
theorem Turn.gone (h : Turn poll i w role stage e) :
    (∀ m ∈ e.marks, m.isGone = false) ∨ stage.isClosing = true ∧ e.stage.isClosing = false := by
  cases h with
  | closed | abandons => exact .inr ⟨rfl, rfl⟩
  | _ => exact .inl (by simp [Effect.goto, Effect.finish, Mark.isGone])

theorem Turn.closing (h : Turn poll i w role stage e) (hnext : e.stage.isClosing = true) :
    e.marks = [.taken i] ∧ w.inner ≠ none ∧ e.inner = none := by
  cases h with
  | takes outcome hinner => exact ⟨rfl, by simp [hinner], rfl⟩
  | _ => cases hnext

/-- The one that takes the stream out is to close it. -/
theorem Turn.takes_closing (h : Turn poll i w role stage e) (htaken : ∃ m ∈ e.marks, m.isTaken = true) :
    e.stage.isClosing = true := by
  cases h with
  | takes => rfl
  | _ => simp [Effect.goto, Effect.finish, Mark.isTaken] at htaken

/-- A close that is under way comes to an end in the next turn of the one that closes. -/
theorem Turn.ends_closing (h : Turn poll i w role stage e) (hclosing : stage.isClosing = true) :
    ∃ m ∈ e.marks, m.isGone = true := by
  cases stage with
  | closing outcome =>
    cases h with
    | closed | abandons => exact ⟨_, List.mem_cons_self, rfl⟩
    | returns hquits | quits hrole hquits => cases hquits
    | drops hrole hstage => rcases hstage with h | ⟨woken, h⟩ <;> cases h
  | _ => cases hclosing

theorem Turn.done (h : Turn poll i w role stage e) (hclosing : stage.isClosing = true → w.inner = none)
    (hrole : role.closes = true) (hnext : e.stage.isDone = true) : e.inner = none := by
  cases h with
  | finds => rfl
  | closed => exact hclosing rfl
  | returns | receives => cases hrole
  | _ => cases hnext

theorem Turn.deaf (h : Turn poll i w role stage e) (hclosed : w.closed = true) (hnext : e.stage.deaf = true) :
    stage.deaf = true := by
  cases h with
  | opens hopen => rw [hclosed] at hopen; cases hopen
  | listens | parks | rises => exact hnext
  | _ => cases hnext

/-- The flag is stored by one that notifies next, or that holds the lock. -/
theorem Turn.stores (h : Turn poll i w role stage e) (hrequests : e.requests = true) :
    e.stage = .notifying ∨ stage.hold = .holds ∧ e.stage.deaf = false := by
  cases h with
  | asks => exact .inl rfl
  | leaves => exact .inr ⟨rfl, rfl⟩
  | _ => cases hrequests

theorem Turn.wakes (h : Turn poll i w role stage e) (hstage : stage = .notifying) :
    e.wakes = true ∧ e.stage.deaf = false := by
  subst hstage
  cases h with
  | notifies => exact ⟨rfl, rfl⟩
  | quits hrole hquits => cases hquits
  | returns hquits => cases hquits
  | drops hrole hstage => rcases hstage with h | ⟨woken, h⟩ <;> cases h

theorem Turn.read (h : Turn poll i w role stage e) :
    e.marks.countP Mark.isRead = 0 ∨
      e.marks.countP Mark.isRead = 1 ∧ stage.reading = true ∧ e.stage.reading = false := by
  cases h with
  | receives | readsOn | stops => exact .inr ⟨rfl, rfl, rfl⟩
  | _ => exact .inl rfl

theorem Turn.marks_late (h : Turn poll i w role stage e) : lateReads e.marks = 0 := by
  cases h <;> rfl

/-- What a turn reads is what the stream answers next. -/
theorem Turn.items (h : Turn poll i w role stage e) {items : List (Option (Except ε ν))} {s : σ}
    (hreads : Reads poll first items s) (hinner : ∀ s', w.inner = some s' → s' = s) :
    ∃ s', Reads poll first (items ++ itemsRead e.marks) s' ∧ ∀ s'', e.inner = some s'' → s'' = s' := by
  have hsame {inner : Option σ} (hsub : ∀ s', inner = some s' → w.inner = some s') :
      ∃ s', Reads poll first (items ++ []) s' ∧ ∀ s'', inner = some s'' → s'' = s' :=
    ⟨s, by rwa [List.append_nil], fun s'' h => hinner s'' (hsub s'' h)⟩
  cases h with
  | parks hopen hpoll =>
    obtain rfl := hinner _ hopen
    exact ⟨_, by rw [show itemsRead _ = [] from rfl, List.append_nil]; exact hreads.pending hpoll,
      fun _ h => (Option.some.inj h).symm⟩
  | receives item hopen hpoll | readsOn item hrole hopen hpoll | stops item hrole hitem hopen hpoll =>
    obtain rfl := hinner _ hopen
    exact ⟨_, hreads.ready hpoll, fun _ h => (Option.some.inj h).symm⟩
  | takes | finds => exact hsame fun _ h => by cases h
  | _ => exact hsame fun _ h => h

theorem Turn.laden (h : Turn poll i w role stage e) (hladen : stage.laden = false) : e.stage.laden = false := by
  cases h with
  | stops item hrole hitem =>
    rcases item with _ | (err | notification)
    · rfl
    · rfl
    · exact absurd rfl (hitem notification)
  | leaves outcome | takes outcome => cases outcome <;> first | rfl | cases hladen
  | _ => rfl

theorem Turn.allowed (h : Turn poll i w role stage e) (hall : Lib.Always Allowed w.trace)
    (htaken : w.inner ≠ none → ∀ m ∈ w.trace, m.isTaken = false) (hladen : stage.laden = false)
    (hclosing : stage.isClosing = true → .taken i ∈ w.trace ∧ ∀ m ∈ w.trace, m.isGone = false) :
    Lib.Always Allowed (w.trace ++ e.marks) := by
  have hopen {s : σ} (hinner : w.inner = some s) : ∀ m ∈ w.trace, m.isTaken = false := htaken (by simp [hinner])
  have hreturned {before : List (Mark ν ε)} {outcome : Outcome ν ε} (hplain : ∀ n, outcome ≠ .item n) :
      Allowed before (.returned i outcome) := by
    cases outcome with
    | item notification => exact absurd rfl (hplain notification)
    | ended | error err => trivial
  cases h with
  | asks | leaves | returns => exact hall.snoc trivial
  | receives item hinner =>
    have hread : Lib.Always Allowed (w.trace ++ [.read i item]) := hall.snoc (hopen hinner)
    have hlast : Allowed (w.trace ++ [.read i item]) (.returned i (outcomeOf item)) := by
      rcases item with _ | (err | notification)
      · trivial
      · trivial
      · exact List.getLast?_concat
    have hboth := hread.snoc hlast
    rwa [List.append_assoc] at hboth
  | readsOn item hrole hinner | stops item hrole hitem hinner =>
    have hmark : Allowed w.trace (.read i item) := hopen hinner
    exact hall.snoc hmark
  | takes outcome hinner =>
    have hmark : Allowed w.trace (.taken i) := hopen hinner
    exact hall.snoc hmark
  | finds outcome =>
    refine hall.snoc (hreturned ?_)
    rintro n rfl
    cases hladen
  | closed outcome =>
    have hclosed : Lib.Always Allowed (w.trace ++ [.closed i]) := hall.snoc (hclosing rfl)
    have hlast : Allowed (w.trace ++ [.closed i]) (.returned i outcome) := by
      apply hreturned
      rintro n rfl
      cases hladen
    have hboth := hclosed.snoc hlast
    rwa [List.append_assoc] at hboth
  | abandons =>
    have hmark : Allowed w.trace (.abandoned i) := hclosing rfl
    exact hall.snoc hmark
  | _ => exact (List.append_nil w.trace).symm ▸ hall

end Turns

section Invariants

/-- What holds of each awaitable. -/
structure Placed (w : AsyncNotificationIterator σ ν ε) (i : Nat) (op : Op ν ε) : Prop where
  fits : op.role.fits op.stage = true
  queued : i ∈ w.queue ↔ op.stage.hold ≠ .out
  first : op.stage.hold = .holds → w.queue.head? = some i
  asked : op.role.asked op.stage = true → w.closed = true
  reading : op.stage.reading = true → w.inner ≠ none
  laden : op.stage.laden = false
  closing : op.stage.isClosing = true → .taken i ∈ w.trace ∧ ∀ m ∈ w.trace, m.isGone = false
  done : op.role.closes = true → op.stage.isDone = true → w.inner = none

/-- What holds of an iterator after every run. -/
structure Sound (poll : σ → Poll (Option (Except ε ν)) × σ) (first : σ) (w : AsyncNotificationIterator σ ν ε) :
    Prop where
  placed : ∀ (i : Nat) (op : Op ν ε), w.ops[i]? = some op → Placed w i op
  nodup : w.queue.Nodup
  known : ∀ i ∈ w.queue, i < w.ops.length
  requested : w.closed = true ↔ ∃ m ∈ w.trace, m.isRequest = true
  heard : w.closed = true →
    (∀ (i : Nat) (op : Op ν ε), w.ops[i]? = some op → op.stage.deaf = false) ∨
      ∃ (i : Nat) (op : Op ν ε), w.ops[i]? = some op ∧ op.stage = .notifying
  late : lateReads w.trace = 0 ∨
    lateReads w.trace = 1 ∧ ∀ (i : Nat) (op : Op ν ε), w.ops[i]? = some op → op.stage.reading = false
  inOrder : ∃ s, Reads poll first (itemsRead w.trace) s ∧ ∀ s', w.inner = some s' → s' = s
  taken : w.inner = none ↔ ∃ m ∈ w.trace, m.isTaken = true
  ends : (∃ m ∈ w.trace, m.isTaken = true) →
    (∃ (i : Nat) (op : Op ν ε), w.ops[i]? = some op ∧ op.stage.isClosing = true) ∨ ∃ m ∈ w.trace, m.isGone = true
  allowed : Lib.Always Allowed w.trace
  background : (∃ m ∈ w.trace, m.isCancelled = true) → ∃ op ∈ w.ops, op.role = .background

variable {first : σ} {op op' : Op ν ε} {j : Nat}

theorem Sound.new (poll : σ → Poll (Option (Except ε ν)) × σ) (first : σ) :
    Sound poll first (AsyncNotificationIterator.new first) where
  placed := fun i op h => by cases h
  nodup := List.nodup_nil
  known := fun i h => by cases h
  requested := by simp [AsyncNotificationIterator.new]
  heard := fun h => by cases h
  late := .inl rfl
  inOrder := ⟨first, .start, fun s' h => (Option.some.inj h).symm⟩
  taken := by simp [AsyncNotificationIterator.new]
  ends := by simp [AsyncNotificationIterator.new]
  allowed := .nil
  background := by simp [AsyncNotificationIterator.new]

theorem apply_self (hop : w.ops[i]? = some op) : (w.apply i e).ops[i]? = some ⟨op.role, e.stage⟩ := by
  rw [apply, setStage, List.getElem?_modify]
  cases e.wakes <;> simp [hop, Op.wake]

/-- The other awaitables stay where they are; those that read may be woken. -/
theorem apply_other (hne : j ≠ i) (h : (w.apply i e).ops[j]? = some op') :
    ∃ op, w.ops[j]? = some op ∧ op'.role = op.role ∧
      (op'.stage = op.stage ∧ e.wakes = false ∨ op'.stage = op.stage.wake ∧ e.wakes = true) := by
  rw [apply, setStage, List.getElem?_modify_ne _ _ hne.symm] at h
  cases hwakes : e.wakes with
  | false =>
    simp only [hwakes, Bool.false_eq_true, if_false] at h
    exact ⟨op', h, rfl, .inl ⟨rfl, rfl⟩⟩
  | true =>
    simp only [hwakes, if_true, List.getElem?_map] at h
    obtain ⟨op, hop, rfl⟩ := Option.map_eq_some_iff.mp h
    exact ⟨op, hop, rfl, .inr ⟨rfl, rfl⟩⟩

theorem apply_length (w : AsyncNotificationIterator σ ν ε) (i : Nat) (e : Effect σ ν ε) :
    (w.apply i e).ops.length = w.ops.length := by
  rw [apply, setStage, List.length_modify]
  split
  · exact List.length_map _
  · rfl

/-- One awaitable at a time holds the lock. -/
theorem Sound.exclusive (hs : Sound poll first w) (hop : w.ops[i]? = some op) (hop' : w.ops[j]? = some op')
    (hi : op.stage.hold = .holds) (hj : op'.stage.hold = .holds) : j = i := by
  have hfirst := (hs.placed i op hop).first hi
  rw [(hs.placed j op' hop').first hj] at hfirst
  exact Option.some.inj hfirst

theorem mem_lockAfter (queue : List Nat) (use : LockUse) (h : j ≠ i) : j ∈ lockAfter queue i use ↔ j ∈ queue := by
  cases use with
  | keep => rfl
  | join => simp [lockAfter, h]
  | leave => exact List.mem_erase_of_ne h

theorem head_lockAfter {queue : List Nat} (use : LockUse) (h : j ≠ i) (hfirst : queue.head? = some j) :
    (lockAfter queue i use).head? = some j := by
  cases queue with
  | nil => cases hfirst
  | cons head queue =>
    cases hfirst
    cases use with
    | keep | join => rfl
    | leave => simp [lockAfter, h]

/-- A close that came to an end was of a stream taken out. -/
theorem taken_of_gone {trace : List (Mark ν ε)} (hall : Lib.Always Allowed trace) (hm : m ∈ trace)
    (hgone : m.isGone = true) : ∃ m ∈ trace, m.isTaken = true := by
  obtain ⟨before, after, rfl⟩ := List.append_of_mem hm
  have hallowed := hall before m after rfl
  cases m with
  | closed i | abandoned i => exact ⟨.taken i, List.mem_append_left _ hallowed.1, rfl⟩
  | _ => cases hgone

theorem Placed.self (hs : Sound poll first w) (hop : w.ops[i]? = some op) (h : Turn poll i w op.role op.stage e) :
    Placed (w.apply i e) i ⟨op.role, e.stage⟩ := by
  have hp := hs.placed i op hop
  have hin := hp.queued
  have hlock := h.lock
  refine
    { fits := h.fits hp.fits
      queued := ?_
      first := ?_
      asked := ?_
      reading := fun hreading => (h.reading hp.reading hreading).1
      laden := h.laden hp.laden
      closing := ?_
      done := ?_ }
  · show i ∈ lockAfter w.queue i e.lock ↔ e.stage.hold ≠ .out
    rcases hlock with ⟨huse, hsame⟩ | ⟨huse, hwaits, hholds, -⟩ | ⟨huse, hout, hwaits⟩ | ⟨huse, hout⟩
    · rw [huse, hsame]
      exact hin
    · rw [huse, hholds]
      exact iff_of_true (hin.mpr (by simp [hwaits])) (by simp)
    · rw [huse, hwaits]
      simp [lockAfter]
    · rw [huse, hout, lockAfter, hs.nodup.mem_erase_iff]
      simp
  · intro hholds
    show (lockAfter w.queue i e.lock).head? = some i
    rcases hlock with ⟨huse, hsame⟩ | ⟨huse, -, -, hfirst⟩ | ⟨huse, hout, hwaits⟩ | ⟨huse, hout⟩
    · rw [huse]
      exact hp.first (hsame ▸ hholds)
    · rw [huse]
      exact hfirst
    · rw [hwaits] at hholds
      cases hholds
    · rw [hout] at hholds
      cases hholds
  · intro hasked
    show (w.closed || e.requests) = true
    rcases h.asked hp.fits hp.asked hasked with hclosed | hrequests
    · simp [hclosed]
    · simp [hrequests]
  · intro hclosing
    obtain ⟨hmarks, hopen, -⟩ := h.closing hclosing
    show .taken i ∈ w.trace ++ e.marks ∧ ∀ m ∈ w.trace ++ e.marks, m.isGone = false
    rw [hmarks]
    refine ⟨by simp, ?_⟩
    intro m hm
    rcases List.mem_append.mp hm with hbefore | hlast
    · cases hgone : m.isGone with
      | false => rfl
      | true => exact absurd (hs.taken.mpr (taken_of_gone hs.allowed hbefore hgone)) hopen
    · rw [List.mem_singleton.mp hlast]
      rfl
  · intro hrole hdone
    refine h.done ?_ hrole hdone
    intro hclosing
    exact hs.taken.mpr ⟨_, (hp.closing hclosing).1, rfl⟩

/-- A turn of one awaitable leaves what holds of the others. -/
theorem Placed.other (hs : Sound poll first w) (hop : w.ops[i]? = some op) (h : Turn poll i w op.role op.stage e)
    (hne : j ≠ i) (hop' : (w.apply i e).ops[j]? = some op') : Placed (w.apply i e) j op' := by
  obtain ⟨old, hold, hrole, hstage⟩ := apply_other hne hop'
  have hp := hs.placed j old hold
  have hsame : op'.stage = old.stage ∨ op'.stage = old.stage.wake := hstage.imp And.left And.left
  have hhold : op'.stage.hold = old.stage.hold := by rcases hsame with heq | heq <;> simp [heq]
  have hreading : op'.stage.reading = old.stage.reading := by rcases hsame with heq | heq <;> simp [heq]
  have hclosing : op'.stage.isClosing = old.stage.isClosing := by rcases hsame with heq | heq <;> simp [heq]
  have halone (hold' : old.stage.hold = .holds) : op.stage.hold ≠ .holds :=
    fun hi => hne (hs.exclusive hop hold hi hold')
  exact {
    fits := by
      rw [hrole]
      rcases hsame with heq | heq <;> simp [heq, hp.fits]
    queued := by
      show j ∈ lockAfter w.queue i e.lock ↔ _
      rw [mem_lockAfter w.queue e.lock hne, hhold]
      exact hp.queued
    first := fun hholds => head_lockAfter e.lock hne (hp.first (hhold ▸ hholds))
    asked := by
      intro hasked
      have hclosed : w.closed = true := hp.asked (by rcases hsame with heq | heq <;> simpa [heq, hrole] using hasked)
      show (w.closed || e.requests) = true
      simp [hclosed]
    reading := by
      intro hread
      rw [hreading] at hread
      intro hnone
      exact halone (Stage.holds_of_reading hread) (h.takes_holds (hp.reading hread) hnone)
    laden := by rcases hsame with heq | heq <;> simp [heq, hp.laden]
    closing := by
      intro hclose
      rw [hclosing] at hclose
      obtain ⟨htaken, hgone⟩ := hp.closing hclose
      refine ⟨List.mem_append_left _ htaken, ?_⟩
      intro m hm
      rcases List.mem_append.mp hm with hbefore | hlast
      · exact hgone m hbefore
      · rcases h.gone with hnone | ⟨hi, -⟩
        · exact hnone m hlast
        · exact absurd (Stage.holds_of_closing hi) (halone (Stage.holds_of_closing hclose))
    done := by
      intro hcloses hdone
      refine h.inner_none (hp.done (hrole ▸ hcloses) ?_)
      rcases hsame with heq | heq <;> simpa [heq] using hdone }

theorem itemsRead_append (trace marks : List (Mark ν ε)) :
    itemsRead (trace ++ marks) = itemsRead trace ++ itemsRead marks := List.filterMap_append

/-- Every awaitable keeps its place and its role. -/
theorem apply_role (hop : w.ops[i]? = some op) (hold : w.ops[j]? = some op') :
    ∃ later, (w.apply i e).ops[j]? = some later ∧ later.role = op'.role := by
  by_cases hne : j = i
  · subst hne
    cases hop.symm.trans hold
    exact ⟨_, apply_self hop, rfl⟩
  · have hj : j < (w.apply i e).ops.length := by
      rw [apply_length]
      exact (List.getElem?_eq_some_iff.mp hold).1
    have hlater := List.getElem?_eq_getElem hj
    obtain ⟨old, hold', hrole, -⟩ := apply_other hne hlater
    cases hold.symm.trans hold'
    exact ⟨_, hlater, hrole⟩

/-- What a turn leaves in the state of an awaitable, its own or another. -/
theorem apply_stage (hop : w.ops[i]? = some op) (h : (w.apply i e).ops[j]? = some op') :
    j = i ∧ op'.stage = e.stage ∨ j ≠ i ∧ ∃ old, w.ops[j]? = some old ∧
      (op'.stage = old.stage ∧ e.wakes = false ∨ op'.stage = old.stage.wake ∧ e.wakes = true) := by
  by_cases hne : j = i
  · subst hne
    cases (apply_self hop).symm.trans h
    exact .inl ⟨rfl, rfl⟩
  · obtain ⟨old, hold, -, hstage⟩ := apply_other hne h
    exact .inr ⟨hne, old, hold, hstage⟩

theorem Sound.heard_turn (hs : Sound poll first w) (hop : w.ops[i]? = some op)
    (h : Turn poll i w op.role op.stage e) (hclosed : (w.apply i e).closed = true) :
    (∀ (j : Nat) (op : Op ν ε), (w.apply i e).ops[j]? = some op → op.stage.deaf = false) ∨
      ∃ (j : Nat) (op : Op ν ε), (w.apply i e).ops[j]? = some op ∧ op.stage = .notifying := by
  cases hbefore : w.closed with
  | false =>
    have hrequests : e.requests = true := by simpa [apply, hbefore] using hclosed
    rcases h.stores hrequests with hnotifying | ⟨hholds, hdeaf⟩
    · exact .inr ⟨i, _, apply_self hop, hnotifying⟩
    · refine .inl fun j op' hop' => ?_
      rcases apply_stage hop hop' with ⟨-, hstage⟩ | ⟨hne, old, hold, hstage⟩
      · rw [hstage]
        exact hdeaf
      · rw [Bool.eq_false_iff]
        intro hdeaf'
        have hhold : op'.stage.hold = old.stage.hold := by rcases hstage with ⟨heq, -⟩ | ⟨heq, -⟩ <;> simp [heq]
        have hj : op'.stage.hold = .holds := Stage.holds_of_reading (Stage.reading_of_deaf hdeaf')
        exact hne (hs.exclusive hop hold hholds (hhold ▸ hj))
  | true =>
    rcases hs.heard hbefore with hnone | ⟨k, notifier, hk, hnotifying⟩
    · refine .inl fun j op' hop' => ?_
      rcases apply_stage hop hop' with ⟨-, hstage⟩ | ⟨hne, old, hold, hstage⟩
      · rw [hstage, Bool.eq_false_iff]
        intro hdeaf
        have hbefore' := h.deaf hbefore hdeaf
        rw [hnone i op hop] at hbefore'
        cases hbefore'
      · rcases hstage with ⟨heq, -⟩ | ⟨heq, -⟩ <;> rw [heq]
        · exact hnone j old hold
        · exact Stage.deaf_wake old.stage
    · by_cases hki : k = i
      · subst hki
        cases hop.symm.trans hk
        obtain ⟨hwakes, hdeaf⟩ := h.wakes hnotifying
        refine .inl fun j op' hop' => ?_
        rcases apply_stage hop hop' with ⟨-, hstage⟩ | ⟨hne, old, hold, hstage⟩
        · rw [hstage]
          exact hdeaf
        · rcases hstage with ⟨-, hquiet⟩ | ⟨heq, -⟩
          · rw [hwakes] at hquiet
            cases hquiet
          · rw [heq]
            exact Stage.deaf_wake old.stage
      · refine .inr ?_
        obtain ⟨later, hlater, -⟩ := apply_role (e := e) hop hk
        refine ⟨k, later, hlater, ?_⟩
        rcases apply_stage hop hlater with ⟨heq, -⟩ | ⟨-, old, hold, hstage⟩
        · exact absurd heq hki
        · cases hk.symm.trans hold
          rcases hstage with ⟨heq, -⟩ | ⟨heq, -⟩ <;> rw [heq, hnotifying]
          rfl

theorem Sound.late_turn (hs : Sound poll first w) (hop : w.ops[i]? = some op)
    (h : Turn poll i w op.role op.stage e) :
    lateReads (w.trace ++ e.marks) = 0 ∨ lateReads (w.trace ++ e.marks) = 1 ∧
      ∀ (j : Nat) (op : Op ν ε), (w.apply i e).ops[j]? = some op → op.stage.reading = false := by
  by_cases hbefore : ∃ m ∈ w.trace, m.isRequest = true
  · obtain ⟨m, hm, hrequest⟩ := hbefore
    have hclosed : w.closed = true := hs.requested.mpr ⟨m, hm, hrequest⟩
    rw [lateReads, Lib.later_append_of_mem hm hrequest, ← lateReads]
    -- A read leaves its reader without the lock's right to read, and no other has it.
    have hquiet (hread : op.stage.reading = true) (hnext : e.stage.reading = false) (j : Nat) (op' : Op ν ε)
        (hop' : (w.apply i e).ops[j]? = some op') : op'.stage.reading = false := by
      rcases apply_stage hop hop' with ⟨-, hstage⟩ | ⟨hne, old, hold, hstage⟩
      · rw [hstage]
        exact hnext
      · rw [Bool.eq_false_iff]
        intro hreading
        have hold' : old.stage.reading = true := by rcases hstage with ⟨heq, -⟩ | ⟨heq, -⟩ <;> simpa [heq] using hreading
        exact hne (hs.exclusive hop hold (Stage.holds_of_reading hread) (Stage.holds_of_reading hold'))
    rcases hs.late with hzero | ⟨hone, hnone⟩ <;> rcases h.read with hread | ⟨hread, hreading, hnext⟩
    · exact .inl (by rw [hzero, hread])
    · exact .inr ⟨by rw [hzero, hread], hquiet hreading hnext⟩
    · refine .inr ⟨by rw [hone, hread], fun j op' hop' => ?_⟩
      rcases apply_stage hop hop' with ⟨-, hstage⟩ | ⟨hne, old, hold, hstage⟩
      · rw [hstage, Bool.eq_false_iff]
        intro hreading
        rcases (h.reading (hs.placed i op hop).reading hreading).2 with hsame | hopen
        · rw [hnone i op hop] at hsame
          cases hsame
        · rw [hclosed] at hopen
          cases hopen
      · rcases hstage with ⟨heq, -⟩ | ⟨heq, -⟩ <;> simp [heq, hnone j old hold]
    · rw [hnone i op hop] at hreading
      cases hreading
  · have hnone : ∀ m ∈ w.trace, m.isRequest = false := fun m hm => by simpa using fun h => hbefore ⟨m, hm, h⟩
    refine .inl ?_
    rw [lateReads, Lib.later_append_of_none hnone]
    exact h.marks_late

theorem Sound.turn (hs : Sound poll first w) (hop : w.ops[i]? = some op) (h : Turn poll i w op.role op.stage e) :
    Sound poll first (w.apply i e) where
  placed := by
    intro j op' hop'
    by_cases hne : j = i
    · subst hne
      cases (apply_self hop).symm.trans hop'
      exact .self hs hop h
    · exact .other hs hop h hne hop'
  nodup := by
    show (lockAfter w.queue i e.lock).Nodup
    have hqueued := (hs.placed i op hop).queued
    rcases h.lock with ⟨huse, -⟩ | ⟨huse, -⟩ | ⟨huse, hout, -⟩ | ⟨huse, -⟩ <;> rw [huse]
    · exact hs.nodup
    · exact hs.nodup
    · have hnew : i ∉ w.queue := fun hmem => hqueued.mp hmem hout
      rw [lockAfter, List.nodup_append]
      refine ⟨hs.nodup, by simp, ?_⟩
      intro k hk l hl heq
      rw [List.mem_singleton.mp hl] at heq
      exact hnew (heq ▸ hk)
    · exact hs.nodup.erase i
  known := by
    intro j hj
    rw [apply_length]
    by_cases hne : j = i
    · exact hne ▸ (List.getElem?_eq_some_iff.mp hop).1
    · exact hs.known j ((mem_lockAfter w.queue e.lock hne).mp hj)
  requested := by
    show (w.closed || e.requests) = true ↔ ∃ m ∈ w.trace ++ e.marks, m.isRequest = true
    simp only [Bool.or_eq_true, hs.requested, ← h.requests, List.mem_append, or_and_right, exists_or]
  heard := hs.heard_turn hop h
  late := hs.late_turn hop h
  inOrder := by
    obtain ⟨s, hreads, hinner⟩ := hs.inOrder
    show ∃ s, Reads poll first (itemsRead (w.trace ++ e.marks)) s ∧ ∀ s', e.inner = some s' → s' = s
    rw [itemsRead_append]
    exact h.items hreads hinner
  taken := by
    show e.inner = none ↔ ∃ m ∈ w.trace ++ e.marks, m.isTaken = true
    simp only [List.mem_append, or_and_right, exists_or, ← hs.taken, h.taken]
    constructor
    · intro hnone
      by_cases hopen : w.inner = none
      · exact .inl hopen
      · exact .inr ⟨hopen, hnone⟩
    · rintro (hnone | ⟨-, hnone⟩)
      · exact h.inner_none hnone
      · exact hnone
  ends := by
    rintro ⟨m, hm, htaken⟩
    have hgone (hgone : ∃ m ∈ e.marks, m.isGone = true) : ∃ m ∈ w.trace ++ e.marks, m.isGone = true := by
      obtain ⟨m, hm, hgone⟩ := hgone
      exact ⟨m, List.mem_append_right _ hm, hgone⟩
    rcases List.mem_append.mp hm with hbefore | hlast
    · rcases hs.ends ⟨m, hbefore, htaken⟩ with ⟨k, closer, hk, hclosing⟩ | ⟨m, hm, hover⟩
      · by_cases hne : k = i
        · subst hne
          cases hop.symm.trans hk
          exact .inr (hgone (h.ends_closing hclosing))
        · obtain ⟨later, hlater, -⟩ := apply_role (e := e) hop hk
          refine .inl ⟨k, later, hlater, ?_⟩
          obtain ⟨old, hold, -, hstage⟩ := apply_other hne hlater
          cases hk.symm.trans hold
          rcases hstage with ⟨heq, -⟩ | ⟨heq, -⟩ <;> simpa [heq] using hclosing
      · exact .inr ⟨m, List.mem_append_left _ hm, hover⟩
    · exact .inl ⟨i, _, apply_self hop, h.takes_closing ⟨m, hlast, htaken⟩⟩
  allowed := by
    have hp := hs.placed i op hop
    refine h.allowed hs.allowed ?_ hp.laden hp.closing
    intro hopen m hm
    rw [Bool.eq_false_iff]
    intro htaken
    exact hopen (hs.taken.mpr ⟨m, hm, htaken⟩)
  background := by
    rintro ⟨m, hm, hcancelled⟩
    rcases List.mem_append.mp hm with hbefore | hlast
    · obtain ⟨closer, hmem, hrole⟩ := hs.background ⟨m, hbefore, hcancelled⟩
      obtain ⟨k, hk⟩ := List.mem_iff_getElem?.mp hmem
      obtain ⟨later, hlater, hsame⟩ := apply_role (e := e) hop hk
      exact ⟨later, List.mem_of_getElem? hlater, hsame.trans hrole⟩
    · rw [h.cancelled m hlast] at hcancelled
      cases hcancelled

theorem spawn_stage (role : Role) (marks : List (Mark ν ε)) (hop : (w.spawn role marks).ops[j]? = some op) :
    w.ops[j]? = some op ∨ w.ops.length ≤ j ∧ op = ⟨role, .created⟩ := by
  have hop : (w.ops ++ [⟨role, .created⟩])[j]? = some op := hop
  rcases Nat.lt_or_ge j w.ops.length with hj | hj
  · rw [List.getElem?_append_left hj] at hop
    exact .inl hop
  · rw [List.getElem?_append_right hj] at hop
    exact .inr ⟨hj, List.mem_singleton.mp (List.mem_of_getElem? hop)⟩

/-- A new awaitable, when what it leaves in the trace is nothing or a cancelled `run`. -/
theorem Sound.spawn (hs : Sound poll first w) (role : Role) {marks : List (Mark ν ε)}
    (hmarks : marks = [] ∨ role = .background ∧ ∃ i, marks = [.cancelled i]) :
    Sound poll first (w.spawn role marks) := by
  have hplain : ∀ m ∈ marks, m.isRequest = false ∧ m.isTaken = false ∧ m.isGone = false := by
    rcases hmarks with rfl | ⟨-, i, rfl⟩ <;> simp [Mark.isRequest, Mark.isTaken, Mark.isGone]
  have hreads : marks.countP Mark.isRead = 0 := by rcases hmarks with rfl | ⟨-, i, rfl⟩ <;> rfl
  have hlater : lateReads marks = 0 := by rcases hmarks with rfl | ⟨-, i, rfl⟩ <;> rfl
  have hitems : itemsRead marks = [] := by rcases hmarks with rfl | ⟨-, i, rfl⟩ <;> rfl
  have hrequested : (∃ m ∈ w.trace ++ marks, m.isRequest = true) ↔ ∃ m ∈ w.trace, m.isRequest = true := by
    simp only [List.mem_append, or_and_right, exists_or, or_iff_left_iff_imp]
    rintro ⟨m, hm, h⟩
    rw [(hplain m hm).1] at h
    cases h
  have htaken : (∃ m ∈ w.trace ++ marks, m.isTaken = true) ↔ ∃ m ∈ w.trace, m.isTaken = true := by
    simp only [List.mem_append, or_and_right, exists_or, or_iff_left_iff_imp]
    rintro ⟨m, hm, h⟩
    rw [(hplain m hm).2.1] at h
    cases h
  refine
    { placed := ?_
      nodup := hs.nodup
      known := ?_
      requested := hs.requested.trans hrequested.symm
      heard := ?_
      late := ?_
      inOrder := ?_
      taken := hs.taken.trans htaken.symm
      ends := ?_
      allowed := ?_
      background := ?_ }
  · intro j op hop
    rcases spawn_stage role marks hop with hold | ⟨hj, rfl⟩
    · have hp := hs.placed j op hold
      refine { hp with closing := ?_ }
      intro hclosing
      obtain ⟨hmem, hgone⟩ := hp.closing hclosing
      refine ⟨List.mem_append_left _ hmem, ?_⟩
      intro m hm
      rcases List.mem_append.mp hm with hbefore | hlast
      · exact hgone m hbefore
      · exact (hplain m hlast).2.2
    · have hqueued : j ∉ w.queue := fun hmem => absurd (hs.known j hmem) (Nat.not_lt.mpr hj)
      exact {
        fits := rfl
        queued := iff_of_false hqueued fun h => h rfl
        first := fun h => by cases h
        asked := fun h => by cases h
        reading := fun h => by cases h
        laden := rfl
        closing := fun h => by cases h
        done := fun _ h => by cases h }
  · intro j hj
    have hlength : (w.spawn role marks).ops.length = w.ops.length + 1 := List.length_append
    rw [hlength]
    exact Nat.lt_succ_of_lt (hs.known j hj)
  · intro hclosed
    rcases hs.heard hclosed with hnone | ⟨k, notifier, hk, hnotifying⟩
    · refine .inl fun j op hop => ?_
      rcases spawn_stage role marks hop with hold | ⟨-, rfl⟩
      · exact hnone j op hold
      · rfl
    · refine .inr ⟨k, notifier, ?_, hnotifying⟩
      exact (List.getElem?_append_left (List.getElem?_eq_some_iff.mp hk).1).trans hk
  · have hsame : lateReads (w.trace ++ marks) = lateReads w.trace := by
      by_cases hbefore : ∃ m ∈ w.trace, m.isRequest = true
      · obtain ⟨m, hm, hrequest⟩ := hbefore
        rw [lateReads, Lib.later_append_of_mem hm hrequest, hreads, lateReads, Nat.add_zero]
      · have hnone : ∀ m ∈ w.trace, m.isRequest = false := fun m hm => by simpa using fun h => hbefore ⟨m, hm, h⟩
        have hzero := Lib.later_append_of_none (q := Mark.isRead) (t := []) hnone
        rw [List.append_nil] at hzero
        rw [lateReads, Lib.later_append_of_none hnone, ← lateReads, hlater, lateReads, hzero]
        rfl
    rcases hs.late with hzero | ⟨hone, hnone⟩
    · exact .inl (hsame.trans hzero)
    · refine .inr ⟨hsame.trans hone, fun j op hop => ?_⟩
      rcases spawn_stage role marks hop with hold | ⟨-, rfl⟩
      · exact hnone j op hold
      · rfl
  · obtain ⟨s, hread, hinner⟩ := hs.inOrder
    refine ⟨s, ?_, hinner⟩
    show Reads poll first (itemsRead (w.trace ++ marks)) s
    rwa [itemsRead_append, hitems, List.append_nil]
  · intro htaken'
    rcases hs.ends (htaken.mp htaken') with ⟨k, closer, hk, hclosing⟩ | ⟨m, hm, hover⟩
    · exact .inl ⟨k, closer, (List.getElem?_append_left (List.getElem?_eq_some_iff.mp hk).1).trans hk, hclosing⟩
    · exact .inr ⟨m, List.mem_append_left _ hm, hover⟩
  · rcases hmarks with rfl | ⟨-, i, rfl⟩
    · show Lib.Always Allowed (w.trace ++ [])
      rw [List.append_nil]
      exact hs.allowed
    · exact hs.allowed.snoc trivial
  · rintro ⟨m, hm, hcancelled⟩
    rcases hmarks with rfl | ⟨rfl, i, rfl⟩
    · obtain ⟨closer, hmem, hrole⟩ := hs.background ⟨m, by simpa [AsyncNotificationIterator.spawn] using hm, hcancelled⟩
      exact ⟨closer, List.mem_append_left _ hmem, hrole⟩
    · exact ⟨⟨.background, .created⟩, by simp [AsyncNotificationIterator.spawn], rfl⟩

theorem Sound.step (hs : Sound poll first w) (h : AsyncNotificationIterator.step poll w event = some w') :
    Sound poll first w' := by
  have hturned {mid : AsyncNotificationIterator σ ν ε} (hmid : Turned poll w mid) : Sound poll first mid := by
    obtain ⟨i, op, e, hop, hturn, rfl⟩ := hmid
    exact hs.turn hop hturn
  rcases step_cases h with hmid | ⟨-, ⟨role, rfl⟩ | ⟨i, mid, hmid, rfl⟩⟩
  · exact hturned hmid
  · exact hs.spawn role (.inl rfl)
  · exact (hturned hmid).spawn .background (.inr ⟨rfl, i, rfl⟩)

theorem sound_of_run {events : List StreamEvent}
    (h : Lib.Machine.run (AsyncNotificationIterator.step poll) (.new first) events = some w) : Sound poll first w :=
  Lib.Machine.run_invariant (fun _ _ _ hs he => hs.step he) h (Sound.new poll first)

end Invariants

/-- What Python may rely on: the items of the stream are read in order, once each and by one awaitable
at a time; the stream is taken out and closed at most once and nothing is read after; at most one item
is read after a close was asked for; and who closes leaves no stream behind, a cancelled `run` too. -/
structure Orderly (poll : σ → Poll (Option (Except ε ν)) × σ) (first : σ) (w : AsyncNotificationIterator σ ν ε) :
    Prop where
  inOrder : ∃ s, Reads poll first (itemsRead w.trace) s ∧ ∀ s', w.inner = some s' → s' = s
  allowed : Lib.Always Allowed w.trace
  late : lateReads w.trace ≤ 1
  exclusive : ∀ (i j : Nat) (op op' : Op ν ε), w.ops[i]? = some op → w.ops[j]? = some op' →
    op.stage.hold = .holds → op'.stage.hold = .holds → j = i
  closed : ∀ op ∈ w.ops, op.role.closes = true → op.stage.isDone = true → w.inner = none
  settled : (∃ m ∈ w.trace, m.isCancelled = true) → (∀ op ∈ w.ops, op.stage.ended = true) → w.inner = none

/-- An async iterator is orderly, whatever is called, cancelled and interleaved. -/
theorem iterator_law (poll : σ → Poll (Option (Except ε ν)) × σ) (first : σ) (events : List StreamEvent)
    (h : Lib.Machine.run (AsyncNotificationIterator.step poll) (.new first) events = some w) :
    Orderly poll first w := by
  have hs := sound_of_run h
  have hdone : ∀ op ∈ w.ops, op.role.closes = true → op.stage.isDone = true → w.inner = none := by
    intro op hop
    obtain ⟨i, hi⟩ := List.mem_iff_getElem?.mp hop
    exact (hs.placed i op hi).done
  refine
    { inOrder := hs.inOrder
      allowed := hs.allowed
      late := by rcases hs.late with hzero | ⟨hone, -⟩ <;> omega
      exclusive := fun i j op op' hop hop' => hs.exclusive hop hop'
      closed := hdone
      settled := ?_ }
  intro hcancelled hover
  obtain ⟨op, hmem, hrole⟩ := hs.background hcancelled
  obtain ⟨i, hi⟩ := List.mem_iff_getElem?.mp hmem
  have hfits := (hs.placed i op hi).fits
  have hend := hover op hmem
  refine hdone op hmem (by rw [hrole]; rfl) ?_
  cases hstage : op.stage with
  | done outcome => rfl
  | dropped =>
    rw [hrole, hstage] at hfits
    cases hfits
  | _ =>
    rw [hstage] at hend
    cases hend

/-- A stream that counts up. -/
def countPoll (n : Nat) : Poll (Option (Except Unit Nat)) × Nat := (.ready (some (.ok n)), n + 1)

/-- A `run` that reads, sees the flag of an `aclose`, and is cancelled in the middle of its close. -/
def countEvents : List StreamEvent :=
  [.call .run, .advance 0, .advance 0, .advance 0, .advance 0, .advance 0, .advance 0, .call .anext, .advance 1,
    .advance 1, .call .aclose, .advance 2, .advance 0, .advance 0, .advance 0, .advance 0, .advance 0, .drop 0]

theorem iterator_law_sample :
    ∃ w, Lib.Machine.run (AsyncNotificationIterator.step countPoll) (.new 0) countEvents = some w ∧
      Orderly countPoll 0 w :=
  ⟨_, rfl, iterator_law countPoll 0 countEvents rfl⟩

section Closing

/-- The flag is stored and every reader was woken. -/
def Heard (w : AsyncNotificationIterator σ ν ε) : Prop :=
  w.closed = true ∧ ∀ (i : Nat) (op : Op ν ε), w.ops[i]? = some op → op.stage.deaf = false

/-- The steps the awaitables still take at most. -/
def load (ops : List (Op ν ε)) : Nat := (ops.map fun op => op.stage.rank).sum

/-- An iterator that is about to be closed: its awaitables take boundedly many steps in all, and until
each of them has ended some step can be taken that waits for no item; once each has, the stream was
taken out and its close is over, unless all that were to close it were cancelled. -/
structure Closing (poll : σ → Poll (Option (Except ε ν)) × σ) (w : AsyncNotificationIterator σ ν ε) : Prop where
  bounded : ∀ events w', Lib.Machine.run (AsyncNotificationIterator.step poll) w events = some w' →
    events.countP StreamEvent.isTurn ≤ 9 * (w.ops.length + events.countP fun event => !event.isTurn)
  unblocked : ∀ events w', Lib.Machine.run (AsyncNotificationIterator.step poll) w events = some w' →
    (∃ op ∈ w'.ops, op.stage.ended = false) →
    ∃ event, event.isTurn = true ∧ (AsyncNotificationIterator.step poll w' event).isSome = true
  closes : ∀ events w', Lib.Machine.run (AsyncNotificationIterator.step poll) w events = some w' →
    (∀ op ∈ w'.ops, op.stage.ended = true) → (∃ op ∈ w'.ops, op.role.closes = true ∧ op.stage ≠ .dropped) →
    w'.inner = none ∧ ∃ m ∈ w'.trace, m.isGone = true

theorem Turn.rank (h : Turn poll i w role stage e) (hclosed : w.closed = true) (hdeaf : stage.deaf = false) :
    e.stage.rank < stage.rank := by
  cases h with
  | opens hopen =>
    rw [hclosed] at hopen
    cases hopen
  | listens => cases hdeaf
  | returns hquits => cases stage <;> first | exact absurd hquits id | simp [Effect.finish, Stage.rank]
  | quits hrole hquits hstage =>
    cases stage with
    | created => exact absurd rfl hstage
    | registered woken | selecting woken => simp [Stage.rank]
    | _ => cases hquits
  | drops hrole hstage => rcases hstage with rfl | ⟨woken, rfl⟩ <;> simp [Stage.rank]
  | _ => simp [Effect.goto, Effect.finish, Stage.rank]

theorem load_apply (hop : w.ops[i]? = some op) :
    load (w.apply i e).ops + op.stage.rank = load w.ops + e.stage.rank := by
  have hwake : load (w.ops.map Op.wake) = load w.ops := by
    simp [load, List.map_map, Function.comp_def, Op.wake]
  cases hwakes : e.wakes with
  | false => simpa [apply, setStage, hwakes, load] using Lib.sum_modify (fun op : Op ν ε => op.stage.rank) hop _
  | true =>
    have hwoken : (w.ops.map Op.wake)[i]? = some op.wake := by simp [hop]
    have hsum := Lib.sum_modify (fun op : Op ν ε => op.stage.rank) hwoken fun op => { op with stage := e.stage }
    rw [← hwake]
    simpa [apply, setStage, hwakes, load, Op.wake] using hsum

theorem Heard.turn (hheard : Heard w) (hturned : Turned poll w w') : Heard w' ∧ load w'.ops < load w.ops := by
  obtain ⟨hclosed, hnone⟩ := hheard
  obtain ⟨i, op, e, hop, h, rfl⟩ := hturned
  refine ⟨⟨by simp [apply, hclosed], ?_⟩, ?_⟩
  · intro j op' hop'
    rcases apply_stage hop hop' with ⟨-, hstage⟩ | ⟨-, old, hold, hstage⟩
    · rw [hstage, Bool.eq_false_iff]
      intro hdeaf
      have hbefore := h.deaf hclosed hdeaf
      rw [hnone i op hop] at hbefore
      cases hbefore
    · rcases hstage with ⟨heq, -⟩ | ⟨heq, -⟩ <;> rw [heq]
      · exact hnone j old hold
      · exact Stage.deaf_wake old.stage
  · have hrank := h.rank hclosed (hnone i op hop)
    have hload := load_apply (e := e) hop
    omega

theorem Heard.spawn (hheard : Heard w) (role : Role) (marks : List (Mark ν ε)) :
    Heard (w.spawn role marks) ∧ load (w.spawn role marks).ops = load w.ops + 9 := by
  refine ⟨⟨hheard.1, ?_⟩, ?_⟩
  · intro j op hop
    rcases spawn_stage role marks hop with hold | ⟨-, rfl⟩
    · exact hheard.2 j op hold
    · rfl
  · simp [AsyncNotificationIterator.spawn, load, Stage.rank]

theorem Heard.step (hheard : Heard w) (h : AsyncNotificationIterator.step poll w event = some w') :
    Heard w' ∧ load w'.ops + (if event.isTurn then 1 else 0) ≤ load w.ops + if event.isTurn then 0 else 9 := by
  rcases step_cases h with hturned | ⟨hturn, ⟨role, rfl⟩ | ⟨i, mid, hturned, rfl⟩⟩
  · obtain ⟨hnext, hload⟩ := hheard.turn hturned
    exact ⟨hnext, by split <;> omega⟩
  · obtain ⟨hnext, hload⟩ := hheard.spawn role []
    rw [hturn]
    exact ⟨hnext, hload.le⟩
  · obtain ⟨hmid, hless⟩ := hheard.turn hturned
    obtain ⟨hnext, hload⟩ := hmid.spawn .background [.cancelled i]
    rw [hturn, hload]
    exact ⟨hnext, Nat.add_le_add_right hless.le 9⟩

theorem Heard.run {events : List StreamEvent} (hheard : Heard w)
    (h : Lib.Machine.run (AsyncNotificationIterator.step poll) w events = some w') :
    events.countP StreamEvent.isTurn + load w'.ops ≤ load w.ops + 9 * events.countP fun event => !event.isTurn := by
  induction events generalizing w with
  | nil =>
    cases h
    simp
  | cons event events ih =>
    obtain ⟨mid, hmid, hrest⟩ := Lib.Machine.run_cons h
    obtain ⟨hnext, hload⟩ := hheard.step hmid
    have hlater := ih hnext hrest
    rw [List.countP_cons, List.countP_cons]
    cases hturn : event.isTurn <;> simp only [hturn, Bool.false_eq_true, if_true, if_false, Bool.not_true,
      Bool.not_false] at hload ⊢ <;> omega

theorem turn_isSome {closed ahead : Bool} {inner : Option σ} (poll : σ → Poll (Option (Except ε ν)) × σ) (i : Nat)
    (role : Role) (hover : stage.ended = false) (hclosing : stage.isClosing = false)
    (hqueued : stage = .queued → ahead = true) (hreading : stage.reading = true → inner ≠ none) :
    (turn poll i closed inner ahead role stage).isSome = true := by
  cases stage with
  | created => cases role <;> rfl
  | queued => cases role <;> simp [turn, hqueued rfl]
  | registered woken => cases closed <;> cases inner <;> rfl
  | receiving woken =>
    cases inner with
    | none => exact absurd rfl (hreading rfl)
    | some s =>
      simp only [turn]
      split <;> rfl
  | taking outcome => cases inner <;> rfl
  | closing outcome => cases hclosing
  | done outcome | dropped => cases hover
  | _ => rfl

/-- An awaitable that does not wait for the lock can go on. -/
theorem Placed.goes_on (hp : Placed w i op) (hop : w.ops[i]? = some op) (hover : op.stage.ended = false)
    (hfirst : op.stage = .queued → w.queue.head? = some i) :
    ∃ event : StreamEvent, event.isTurn = true ∧ (AsyncNotificationIterator.step poll w event).isSome = true := by
  cases hclosing : op.stage.isClosing with
  | true =>
    cases hstage : op.stage with
    | closing outcome => exact ⟨.closed i, rfl, by simp [AsyncNotificationIterator.step, hop, hstage]⟩
    | _ => simp [hstage, Stage.isClosing] at hclosing
  | false =>
    refine ⟨.advance i, rfl, ?_⟩
    have hturn : (Py.turn poll i w.closed w.inner (w.queue.head? = some i) op.role op.stage).isSome = true :=
      turn_isSome poll i op.role hover hclosing (fun h => decide_eq_true (hfirst h)) hp.reading
    simpa [AsyncNotificationIterator.step, AsyncNotificationIterator.advance, hop] using hturn

/-- While an awaitable has not ended, one of them can go on: it, or the one it waits for. -/
theorem Sound.goes_on (hs : Sound poll first w) (hleft : ∃ op ∈ w.ops, op.stage.ended = false) :
    ∃ event : StreamEvent, event.isTurn = true ∧ (AsyncNotificationIterator.step poll w event).isSome = true := by
  obtain ⟨op, hmem, hover⟩ := hleft
  obtain ⟨i, hop⟩ := List.mem_iff_getElem?.mp hmem
  by_cases hqueued : op.stage = .queued
  · have hin : i ∈ w.queue := (hs.placed i op hop).queued.mpr (by simp [hqueued, Stage.hold])
    cases hqueue : w.queue with
    | nil => simp [hqueue] at hin
    | cons head queue =>
      have hhead : head ∈ w.queue := by simp [hqueue]
      have hknown := hs.known head hhead
      have hlater := List.getElem?_eq_getElem hknown
      have hp := hs.placed head _ hlater
      refine hp.goes_on hlater ?_ fun _ => by rw [hqueue]; rfl
      have hhold := hp.queued.mp hhead
      cases hstage : w.ops[head].stage with
      | done outcome | dropped => simp [hstage, Stage.hold] at hhold
      | _ => rfl
  · exact (hs.placed i op hop).goes_on hop hover fun h => absurd h hqueued

/-- When every awaitable has ended, and one that closes was not cancelled, the close is over. -/
theorem Sound.closed (hs : Sound poll first w) (hended : ∀ op ∈ w.ops, op.stage.ended = true)
    (hcloser : ∃ op ∈ w.ops, op.role.closes = true ∧ op.stage ≠ .dropped) :
    w.inner = none ∧ ∃ m ∈ w.trace, m.isGone = true := by
  obtain ⟨op, hmem, hrole, hstage⟩ := hcloser
  obtain ⟨i, hop⟩ := List.mem_iff_getElem?.mp hmem
  have hdone : op.stage.isDone = true := by
    have hover := hended op hmem
    cases h : op.stage with
    | done outcome => rfl
    | dropped => exact absurd h hstage
    | _ =>
      rw [h] at hover
      cases hover
  have hnone := (hs.placed i op hop).done hrole hdone
  refine ⟨hnone, ?_⟩
  rcases hs.ends (hs.taken.mp hnone) with ⟨k, closer, hk, hclosing⟩ | hgone
  · have hover := hended closer (List.mem_of_getElem? hk)
    cases h : closer.stage with
    | closing outcome =>
      rw [h] at hover
      cases hover
    | _ =>
      rw [h] at hclosing
      cases hclosing
  · exact hgone

end Closing

end Aviso.Py
