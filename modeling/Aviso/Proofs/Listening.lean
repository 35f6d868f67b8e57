import Aviso.Py.ListenMany
import Mathlib.Data.List.Perm.Subperm

namespace Aviso.Py

variable {ν ε : Type} {cfg : ListenConfig}

/-- The calls of function triggers with one notification, and what they come to: each function in its
turn, again while it raises and has attempts left; an optional one that fails is passed over, a
required one is the end of the notification. -/
inductive Served (onLoop : Bool) (listener : Text) :
    List FunctionTrigger → List (FunctionTrigger × Answer ε) → Fate ε → Prop where
  | all : Served onLoop listener [] [] .yielded
  | returned (f : FunctionTrigger) (todo : List FunctionTrigger) (errors : List ε)
      (calls : List (FunctionTrigger × Answer ε)) (fate : Fate ε) :
      errors.length ≤ f.retries → Served onLoop listener todo calls fate →
      Served onLoop listener (f :: todo) (errors.map (fun e => (f, .raised e)) ++ (f, .returned) :: calls) fate
  | passed (f : FunctionTrigger) (todo : List FunctionTrigger) (errors : List ε)
      (calls : List (FunctionTrigger × Answer ε)) (fate : Fate ε) :
      errors.length = f.retries + 1 → f.required = false → Served onLoop listener todo calls fate →
      Served onLoop listener (f :: todo) (errors.map (fun e => (f, .raised e)) ++ calls) fate
  | failed (f : FunctionTrigger) (todo : List FunctionTrigger) (errors : List ε) (e : ε) :
      errors.length = f.retries → f.required = true →
      Served onLoop listener (f :: todo) (errors.map (fun e => (f, .raised e)) ++ [(f, .raised e)])
        (.failed (.trigger listener f.name (f.retries + 1) e))
  | cut (f : FunctionTrigger) (todo : List FunctionTrigger) (errors : List ε) (answer : Answer ε) (error : PyError ε) :
      errors.length ≤ f.retries → answer.raises onLoop = some error → (∀ e, answer ≠ .raised e) →
      Served onLoop listener (f :: todo) (errors.map (fun e => (f, .raised e)) ++ [(f, answer)]) (.cut error)

/-- An item that was read and dealt with: a failure is recorded under its listener's name, and a
notification is what its listener's functions made of it. -/
def Entry.Settled (cfg : ListenConfig) (entry : Entry ν ε) : Prop :=
  match entry.item with
  | .error e => entry.calls = [] ∧ entry.fate = .failed (.listener entry.listener e)
  | .ok _ => Served cfg.onLoop entry.listener (cfg.functions entry.listener) entry.calls entry.fate

/-- The pair an item is yielded as. -/
def Entry.delivered (entry : Entry ν ε) : Option (Text × ν) :=
  match entry.item, entry.fate with
  | .ok n, .yielded => some (entry.listener, n)
  | _, _ => none

/-- The failure an item is recorded as. -/
def Entry.failure (entry : Entry ν ε) : Option (ListenFailure ε) :=
  match entry.item, entry.fate with
  | .error _, .failed error => some (entry.listener, .listener, error)
  | .ok _, .failed error => some (entry.listener, .trigger, error)
  | _, _ => none

def Entry.exception (entry : Entry ν ε) : Option (PyError ε) :=
  match entry.fate with
  | .cut error => some error
  | _ => none

/-- An error, and what broke into the closing for it. -/
@[simp] def PyError.chain : PyError ε → List (PyError ε)
  | .during error context => context.chain ++ [error]
  | error => [error]

def exceptions (returned : List (Except (PyError ε) (Text × ν))) : List (PyError ε) :=
  returned.flatMap fun
    | .error error => error.chain
    | .ok _ => []

/-- An exception of the code around the iterator, not one that it makes itself. -/
def PyError.foreign : PyError ε → Bool
  | .user _ | .cancelled | .escaped _ | .awaitable => true
  | _ => false

namespace ReadPhase

/-- The item that was read and is not dealt with yet. -/
@[simp] def inHand : ReadPhase ν ε → List (Text × Except ε ν)
  | .calling listener n _ _ _ => [(listener, .ok n)]
  | _ => []

/-- The calls made with it. -/
@[simp] def made : ReadPhase ν ε → List (FunctionTrigger × Answer ε)
  | .calling _ _ calls _ _ => calls
  | _ => []

/-- The failure that `on_error` has before it. -/
def question : ReadPhase ν ε → List (ListenFailure ε)
  | .asking failure => [failure]
  | _ => []

/-- The error that leaves once the listeners are closed. -/
@[simp] def pending : ReadPhase ν ε → List (PyError ε)
  | .closing error => error.chain
  | _ => []

/-- What a cancelled read raises. -/
def interrupted : ReadPhase ν ε → PyError ε
  | .closing error => .during .cancelled error
  | _ => .cancelled

end ReadPhase

namespace ListenEvent

@[simp] def item : ListenEvent ν ε → Option (Text × Except ε ν)
  | .raw (.notification name n) => some (name, .ok n)
  | .raw (.failure name e) => some (name, .error e)
  | _ => none

@[simp] def answered : ListenEvent ν ε → Option (Answer ε)
  | .answer reply => some reply
  | _ => none

@[simp] def judged : ListenEvent ν ε → Option (Answer ε)
  | .verdict reply => some reply
  | _ => none

/-- The exception that the code around the iterator raises through it; that of a function trigger is
tried again or becomes a failure. -/
@[simp] def exception (onLoop : Bool) : ListenEvent ν ε → Option (PyError ε)
  | .answer (.raised _) => none
  | .answer reply | .verdict reply | .released reply | .raw (.broke reply) => reply.raises onLoop
  | _ => none

end ListenEvent

namespace Listener

variable {s s' : Listener ν ε}

/-- The calls made so far with the notification in hand; whatever comes of the functions left comes
of them all. -/
def Serving (cfg : ListenConfig) : ReadPhase ν ε → Prop
  | .calling listener _ calls todo attempt => ∃ (before : List (FunctionTrigger × Answer ε)) (errors : List ε),
      (∀ f ∈ todo.head?, attempt ≤ f.retries ∧ calls = before ++ errors.map fun e => (f, .raised e)) ∧
      errors.length = attempt ∧ todo ≠ [] ∧
      ∀ later fate, Served cfg.onLoop listener todo later fate →
        Served cfg.onLoop listener (cfg.functions listener) (before ++ later) fate
  | _ => True

/-- The items read so far, in order. -/
def read (s : Listener ν ε) : List (Text × Except ε ν) :=
  s.history.map (fun entry => (entry.listener, entry.item)) ++ s.phase.inHand

/-- The calls of function triggers made so far, in order. -/
def made (s : Listener ν ε) : List (FunctionTrigger × Answer ε) := s.history.flatMap Entry.calls ++ s.phase.made

/-- The exceptions that left the reads, and the one that is about to. -/
def raised (s : Listener ν ε) : List (PyError ε) := exceptions s.returned ++ s.phase.pending

/-- The failures that are put before `on_error`. -/
def put (cfg : ListenConfig) (s : Listener ν ε) : List (ListenFailure ε) :=
  if cfg.onError = .ask then s.failures else []

/-- Nothing is read any more. -/
def Over : ReadPhase ν ε → Prop
  | .idle | .closing _ => True
  | _ => False

/-- The books of an iterator: what it read, yielded, recorded and raised. -/
structure Booked (cfg : ListenConfig) (s : Listener ν ε) : Prop where
  settled : ∀ entry ∈ s.history, entry.Settled cfg
  delivered : s.returned.filterMap Except.toOption = s.history.filterMap Entry.delivered
  recorded : s.failures = s.history.filterMap Entry.failure
  asked : s.asked.map Prod.fst ++ s.phase.question = s.put cfg
  raised : (s.history.filterMap Entry.exception).Sublist s.raised
  serving : Serving cfg s.phase
  closes : s.closes = if s.closed then 1 else 0
  ending : s.phase = .ending → s.closed = true
  closing : ∀ error, s.phase = .closing error → s.stopped = true
  stopped : s.stopped = true → s.closed = true ∧ Over s.phase
  first : cfg.onError = .raise → s.failures.length ≤ 1 ∧ ∀ failure ∈ s.failures, s.stopped = true ∧ failure.2.2 ∈ s.raised
  all : ∀ failures, .allFailed failures ∈ s.raised → failures = s.failures ∧ s.stopped = true ∧ cfg.onError ≠ .raise ∧
    cfg.count ≠ 0 ∧ s.failedListeners.length = cfg.count

/-- The books while a read runs, up to the item in hand; `question` is what `on_error` has before it,
and `errors` are what the read is about to raise. -/
structure Open (cfg : ListenConfig) (s : Listener ν ε) (question : List (ListenFailure ε)) (errors : List (PyError ε)) :
    Prop where
  settled : ∀ entry ∈ s.history, entry.Settled cfg
  delivered : s.returned.filterMap Except.toOption = s.history.filterMap Entry.delivered
  recorded : s.failures = s.history.filterMap Entry.failure
  asked : s.asked.map Prod.fst ++ question = s.put cfg
  raised : (s.history.filterMap Entry.exception).Sublist (exceptions s.returned ++ errors)
  closes : s.closes = if s.closed then 1 else 0
  running : s.stopped = false
  first : cfg.onError = .raise → s.failures.length ≤ 1 ∧ ∀ failure ∈ s.failures, failure.2.2 ∈ errors
  fresh : ∀ failures, .allFailed failures ∉ exceptions s.returned

theorem Booked.running (h : Booked cfg s) (hphase : ¬ Over s.phase) : s.stopped = false := by
  cases hstopped : s.stopped with
  | true => exact absurd (h.stopped hstopped).2 hphase
  | false => rfl

theorem Booked.open (h : Booked cfg s) (hrunning : s.stopped = false) : Open cfg s s.phase.question [] := by
  have hpending : s.phase.pending = [] := by
    cases hphase : s.phase with
    | closing error => cases (h.closing error hphase).symm.trans hrunning
    | _ => rfl
  have hraised : s.raised = exceptions s.returned := by rw [Listener.raised, hpending, List.append_nil]
  refine ⟨h.settled, h.delivered, h.recorded, h.asked, ?_, h.closes, hrunning, ?_, ?_⟩
  · rw [List.append_nil, ← hraised]
    exact h.raised
  · intro hraise
    refine ⟨(h.first hraise).1, ?_⟩
    intro failure hmem
    cases ((h.first hraise).2 failure hmem).1.symm.trans hrunning
  · intro failures hmem
    rw [← hraised] at hmem
    cases (h.all failures hmem).2.1.symm.trans hrunning

/-- The books are about what was read, not about where a read is. -/
theorem Open.move {question : List (ListenFailure ε)} {errors : List (PyError ε)} (h : Open cfg s question errors)
    (phase : ReadPhase ν ε) : Open cfg { s with phase := phase } question errors :=
  ⟨h.settled, h.delivered, h.recorded, h.asked, h.raised, h.closes, h.running, h.first, h.fresh⟩

/-- The books of a read that closes nothing. -/
theorem Open.booked (h : Open cfg s s.phase.question []) (hserving : Serving cfg s.phase)
    (hclosing : ∀ error, s.phase ≠ .closing error) (hending : s.phase = .ending → s.closed = true) : Booked cfg s := by
  have hraised : s.raised = exceptions s.returned ++ [] := by
    cases hphase : s.phase with
    | closing error => exact absurd hphase (hclosing error)
    | _ => rw [Listener.raised, hphase]; rfl
  refine ⟨h.settled, h.delivered, h.recorded, h.asked, ?_, hserving, h.closes, hending, ?_, ?_, ?_, ?_⟩
  · rw [hraised]
    exact h.raised
  · intro error hphase
    exact absurd hphase (hclosing error)
  · intro hstopped
    cases h.running.symm.trans hstopped
  · intro hraise
    refine ⟨(h.first hraise).1, ?_⟩
    intro failure hmem
    cases (h.first hraise).2 failure hmem
  · intro failures hmem
    rw [hraised, List.append_nil] at hmem
    exact absurd hmem (h.fresh failures)

/-- Where a read closes nothing. -/
def LeavesOpen : ReadPhase ν ε → Prop
  | .ending | .closing _ => False
  | _ => True

theorem Open.resume (phase : ReadPhase ν ε) (h : Open cfg s phase.question []) (hserving : Serving cfg phase)
    (hopen : LeavesOpen phase) : Booked cfg { s with phase := phase } := by
  refine (h.move phase).booked hserving ?_ ?_
  · intro error hphase
    dsimp only at hphase
    subst hphase
    cases hopen
  · intro hphase
    dsimp only at hphase
    subst hphase
    cases hopen

theorem Open.empty {question : List (ListenFailure ε)} (h : Open cfg s question []) (hraise : cfg.onError = .raise) :
    s.failures = [] := by
  refine List.eq_nil_iff_forall_not_mem.mpr ?_
  intro failure hmem
  cases (h.first hraise).2 failure hmem

@[simp] theorem exceptions_append (returned later : List (Except (PyError ε) (Text × ν))) :
    exceptions (returned ++ later) = exceptions returned ++ exceptions later := List.flatMap_append

@[simp] theorem exceptions_error (error : PyError ε) :
    exceptions [(.error error : Except (PyError ε) (Text × ν))] = error.chain := List.append_nil _

theorem give_raised (s : Listener ν ε) (error : PyError ε) :
    (s.give (.error error)).raised = exceptions s.returned ++ error.chain := by
  rw [Listener.raised, give, exceptions_append, exceptions_error]
  exact List.append_nil _

theorem foreign_chain {error : PyError ε} (h : error.foreign = true) : error.chain = [error] := by
  cases error <;> simp_all [PyError.foreign, PyError.chain]

/-- What the caller's code raises is not that every listener failed. -/
theorem foreign_own {error : PyError ε} (h : error.foreign = true) (failures : List (ListenFailure ε)) :
    .allFailed failures ∉ error.chain := by
  rw [foreign_chain h, List.mem_singleton]
  intro heq
  subst heq
  cases h

theorem raises_foreign {answer : Answer ε} {onLoop : Bool} {error : PyError ε} (h : answer.raises onLoop = some error) :
    error.foreign = true := by
  unfold Answer.raises at h
  split at h
  · cases h
  · split at h <;> cases h
    rfl
  all_goals
    cases h
    rfl

theorem close_closes (hcloses : s.closes = if s.closed then 1 else 0) : s.close.closed = true ∧ s.close.closes = 1 := by
  unfold close
  split
  · rename_i hclosed
    rw [hclosed] at hcloses
    exact ⟨hclosed, hcloses⟩
  · rename_i hopen
    simp only [Bool.not_eq_true] at hopen
    rw [hopen] at hcloses
    simp only [Bool.false_eq_true, if_false] at hcloses
    exact ⟨rfl, by rw [hcloses]⟩

/-- Closing leaves everything else. -/
theorem close_keeps (s : Listener ν ε) :
    s.close = { s with closed := s.close.closed, closes := s.close.closes } := by
  unfold close
  split <;> rfl

theorem toOption_append (returned : List (Except (PyError ε) (Text × ν))) (error : PyError ε) :
    (returned ++ [Except.error error]).filterMap Except.toOption = returned.filterMap Except.toOption := by
  rw [List.filterMap_append]
  exact List.append_nil _

/-- Where an exception that leaves a read takes the iterator: it is out, or waits for the listeners to
be closed. -/
theorem leave_cases (cfg : ListenConfig) (s : Listener ν ε) (error : PyError ε) :
    (cfg.onLoop = true ∧ error = .cancelled ∧ s.leave cfg error = s.give (.error .cancelled)) ∨
    (s.closed = true ∧ s.leave cfg error = { s with stopped := true }.give (.error error)) ∨
    (s.closed = false ∧ s.leave cfg error = { s.close with stopped := true, phase := .closing error }) := by
  unfold leave
  split
  · rename_i hloop
    exact .inl ⟨hloop, rfl, rfl⟩
  · split
    · rename_i hclosed
      exact .inr (.inl ⟨hclosed, rfl⟩)
    · rename_i hopen
      exact .inr (.inr ⟨Bool.eq_false_iff.mpr hopen, rfl⟩)

/-- An exception that leaves a read closes the books on it. -/
theorem Open.leave {error : PyError ε} (h : Open cfg s [] error.chain)
    (hcancelled : error = .cancelled → cfg.onError = .raise → s.failures = [])
    (hall : ∀ failures, .allFailed failures ∈ error.chain → failures = s.failures ∧ cfg.onError ≠ .raise ∧
      cfg.count ≠ 0 ∧ s.failedListeners.length = cfg.count) :
    Booked cfg (s.leave cfg error) := by
  have hfailed (failures : List (ListenFailure ε)) (hmem : .allFailed failures ∈ exceptions s.returned ++ error.chain) :
      .allFailed failures ∈ error.chain := by
    rcases List.mem_append.mp hmem with hold | hnew
    · exact absurd hold (h.fresh failures)
    · exact hnew
  rcases leave_cases cfg s error with ⟨-, heq, hleave⟩ | ⟨hclosed, hleave⟩ | ⟨hopen, hleave⟩
  · subst heq
    have hdelivered := (toOption_append s.returned .cancelled).trans h.delivered
    rw [hleave]
    refine ⟨h.settled, hdelivered, h.recorded, h.asked, ?_, trivial, h.closes, ?_, ?_, ?_, ?_, ?_⟩
    · rw [give_raised]
      exact h.raised
    · intro hphase
      cases hphase
    · intro error hphase
      cases hphase
    · intro hstopped
      cases h.running.symm.trans hstopped
    · intro hraise
      simp only [give]
      rw [hcancelled rfl hraise]
      exact ⟨Nat.zero_le _, by simp⟩
    · intro failures hmem
      rw [give_raised] at hmem
      cases List.mem_singleton.mp (hfailed failures hmem)
  · have hdelivered := (toOption_append s.returned error).trans h.delivered
    rw [hleave]
    refine ⟨h.settled, hdelivered, h.recorded, h.asked, ?_, trivial, h.closes, ?_, ?_,
      fun _ => ⟨hclosed, trivial⟩, ?_, ?_⟩
    · rw [give_raised]
      exact h.raised
    · intro hphase
      cases hphase
    · intro error hphase
      cases hphase
    · intro hraise
      refine ⟨(h.first hraise).1, ?_⟩
      intro failure hfailure
      refine ⟨rfl, ?_⟩
      rw [give_raised]
      exact List.mem_append_right _ ((h.first hraise).2 failure hfailure)
    · intro failures hmem
      rw [give_raised] at hmem
      obtain ⟨hsame, hcond⟩ := hall failures (hfailed failures hmem)
      exact ⟨hsame, rfl, hcond⟩
  · obtain ⟨hclosed, hcloses⟩ := close_closes h.closes
    rw [hleave, close_keeps]
    refine ⟨h.settled, h.delivered, h.recorded, h.asked, h.raised, trivial, ?_, ?_, ?_,
      fun _ => ⟨hclosed, trivial⟩, ?_, ?_⟩
    · simp only
      rw [hclosed, hcloses]
      rfl
    · intro hphase
      cases hphase
    · intro _ _
      rfl
    · intro hraise
      refine ⟨(h.first hraise).1, ?_⟩
      intro failure hfailure
      exact ⟨rfl, List.mem_append_right _ ((h.first hraise).2 failure hfailure)⟩
    · intro failures hmem
      obtain ⟨hsame, hcond⟩ := hall failures (hfailed failures hmem)
      exact ⟨hsame, rfl, hcond⟩

theorem settled_snoc {entry : Entry ν ε} (h : ∀ other ∈ s.history, other.Settled cfg) (hentry : entry.Settled cfg) :
    ∀ other ∈ (s.settle entry).history, other.Settled cfg := by
  intro other hmem
  rcases List.mem_append.mp hmem with hold | hnew
  · exact h other hold
  · rwa [List.mem_singleton.mp hnew]

/-- What an item adds to a book. -/
theorem filterMap_settle {α : Type} (f : Entry ν ε → Option α) (entry : Entry ν ε) :
    (s.settle entry).history.filterMap f = s.history.filterMap f ++ (f entry).toList := by
  rw [settle, List.filterMap_append]
  cases hf : f entry <;> simp [hf]

/-- An item whose functions were cut short goes down with the exception. -/
theorem Open.cut {entry : Entry ν ε} {error : PyError ε} (h : Open cfg s [] []) (hentry : entry.Settled cfg)
    (hcut : entry.fate = .cut error) (hforeign : error.foreign = true) :
    Booked cfg ((s.settle entry).leave cfg error) := by
  have hdelivered : entry.delivered = none := by
    unfold Entry.delivered
    rw [hcut]
    cases entry.item <;> rfl
  have hfailure : entry.failure = none := by
    unfold Entry.failure
    rw [hcut]
    cases entry.item <;> rfl
  have hexception : entry.exception = some error := by rw [Entry.exception, hcut]
  refine Open.leave ?_ (fun _ => h.empty) (fun failures hmem => absurd hmem (foreign_own hforeign failures))
  rw [foreign_chain hforeign]
  refine ⟨settled_snoc h.settled hentry, ?_, ?_, h.asked, ?_, h.closes, h.running, ?_, h.fresh⟩
  · rw [filterMap_settle, hdelivered]
    exact h.delivered.trans (List.append_nil _).symm
  · rw [filterMap_settle, hfailure]
    exact h.recorded.trans (List.append_nil _).symm
  · have hraised := h.raised
    rw [List.append_nil] at hraised
    rw [filterMap_settle, hexception]
    exact hraised.append (.refl _)
  · intro hraise
    rw [settle, h.empty hraise]
    exact ⟨Nat.zero_le _, by simp⟩

/-- An item that is yielded is the next the consumer gets. -/
theorem Open.yield {listener : Text} {n : ν} {calls : List (FunctionTrigger × Answer ε)} (h : Open cfg s [] [])
    (hserved : Served cfg.onLoop listener (cfg.functions listener) calls .yielded) :
    Booked cfg ((s.settle ⟨listener, .ok n, calls, .yielded⟩).give (.ok (listener, n))) := by
  refine Open.booked ?_ trivial (fun error hphase => nomatch hphase) fun hphase => nomatch hphase
  refine ⟨settled_snoc h.settled hserved, ?_, ?_, h.asked, ?_, h.closes, h.running, h.first, ?_⟩
  · simp only [give, List.filterMap_append, settle]
    rw [h.delivered]
    rfl
  · have hrecorded := filterMap_settle (s := s) Entry.failure ⟨listener, .ok n, calls, .yielded⟩
    exact (h.recorded.trans (List.append_nil _).symm).trans hrecorded.symm
  · have hraised := filterMap_settle (s := s) Entry.exception ⟨listener, .ok n, calls, .yielded⟩
    simp only [give, exceptions_append]
    rw [hraised]
    exact h.raised.append (.refl _)
  · intro failures hmem
    rw [give, exceptions_append] at hmem
    rcases List.mem_append.mp hmem with hold | hnew
    · exact h.fresh failures hold
    · cases hnew

/-- A failure is recorded, and then raised, reported or asked about. -/
theorem Open.fail {entry : Entry ν ε} {failure : ListenFailure ε} (h : Open cfg s [] []) (hentry : entry.Settled cfg)
    (hfailure : entry.failure = some failure) (hchain : failure.2.2.chain = [failure.2.2])
    (hcancelled : failure.2.2 ≠ .cancelled) (hfailed : ∀ failures, failure.2.2 ≠ .allFailed failures) :
    Booked cfg ((s.settle entry).fail cfg failure) := by
  obtain ⟨error, hfate⟩ : ∃ error, entry.fate = .failed error := by
    unfold Entry.failure at hfailure
    split at hfailure
    · rename_i hfate
      exact ⟨_, hfate⟩
    · rename_i hfate
      exact ⟨_, hfate⟩
    · cases hfailure
  have hdelivered : entry.delivered = none := by
    unfold Entry.delivered
    rw [hfate]
    cases entry.item <;> rfl
  have hexception : entry.exception = none := by rw [Entry.exception, hfate]
  have hopen (question : List (ListenFailure ε)) (errors : List (PyError ε))
      (hasked : question = if cfg.onError = .ask then [failure] else [])
      (hreported : cfg.onError = .raise → errors = [failure.2.2]) :
      Open cfg { s.settle entry with failures := s.failures ++ [failure] } question errors := by
    refine ⟨settled_snoc h.settled hentry, ?_, ?_, ?_, ?_, h.closes, h.running, ?_, h.fresh⟩
    · rw [filterMap_settle, hdelivered]
      exact h.delivered.trans (List.append_nil _).symm
    · rw [filterMap_settle, hfailure]
      exact congrArg (· ++ [failure]) h.recorded
    · have hold := h.asked
      rw [List.append_nil] at hold
      dsimp only [settle, put] at hold ⊢
      rw [hold, hasked]
      split <;> rfl
    · rw [filterMap_settle, hexception]
      have hraised := h.raised
      rw [List.append_nil] at hraised
      rw [Option.toList_none, List.append_nil]
      exact hraised.trans (List.sublist_append_left _ _)
    · intro hraise
      rw [h.empty hraise, hreported hraise]
      exact ⟨le_refl _, by simp⟩
  unfold Listener.fail
  cases hpolicy : cfg.onError with
  | raise =>
    refine (hopen [] _ (by rw [hpolicy]; rfl) fun _ => hchain).leave
      (fun heq => absurd heq hcancelled) ?_
    intro failures hmem
    rw [hchain] at hmem
    exact absurd (List.mem_singleton.mp hmem).symm (hfailed failures)
  | proceed =>
    have hnext := hopen [] [] (by rw [hpolicy]; rfl) fun hraise => by rw [hpolicy] at hraise; cases hraise
    exact Open.resume .reading hnext trivial trivial
  | ask =>
    have hnext := hopen [failure] [] (by rw [hpolicy]; rfl) fun hraise => by rw [hpolicy] at hraise; cases hraise
    exact Open.resume (.asking failure) hnext trivial trivial

/-- The functions left are called in turn, or the notification is yielded. -/
theorem Open.serve {listener : Text} {n : ν} {calls : List (FunctionTrigger × Answer ε)} {todo : List FunctionTrigger}
    (h : Open cfg s [] []) (hserved : ∀ later fate, Served cfg.onLoop listener todo later fate →
      Served cfg.onLoop listener (cfg.functions listener) (calls ++ later) fate) :
    Booked cfg (s.serve listener n calls todo) := by
  cases todo with
  | nil =>
    have hall := hserved [] .yielded .all
    rw [List.append_nil] at hall
    exact h.yield hall
  | cons f todo =>
    refine Open.resume (.calling listener n calls (f :: todo) 0) h ?_ trivial
    exact ⟨calls, [], by simp, rfl, List.cons_ne_nil _ _, hserved⟩

theorem Open.answered {listener : Text} {n : ν} {calls : List (FunctionTrigger × Answer ε)} {f : FunctionTrigger}
    {todo : List FunctionTrigger} {attempt : Nat} {answer : Answer ε} (h : Open cfg s [] [])
    (hserving : Serving cfg (.calling listener n calls (f :: todo) attempt : ReadPhase ν ε))
    (hs : s.answered cfg listener n calls f todo attempt answer = some s') : Booked cfg s' := by
  obtain ⟨before, errors, hcalls, hattempt, -, hserved⟩ := hserving
  obtain ⟨hfew, rfl⟩ := hcalls f rfl
  unfold Listener.answered at hs
  have hcut (error : PyError ε) (hraises : answer.raises cfg.onLoop = some error) (hother : ∀ e, answer ≠ .raised e) :
      Booked cfg ((s.settle ⟨listener, .ok n, before ++ errors.map (fun e => (f, .raised e)) ++ [(f, answer)],
        .cut error⟩).leave cfg error) := by
    refine h.cut ?_ rfl (raises_foreign hraises)
    have hthese := hserved _ _ (.cut f todo errors answer error (hattempt ▸ hfew) hraises hother)
    rwa [← List.append_assoc] at hthese
  cases answer with
  | returned =>
    cases hs
    refine h.serve ?_
    intro later fate hlater
    have hthese := hserved _ _ (.returned f todo errors later fate (hattempt ▸ hfew) hlater)
    simpa using hthese
  | raised e =>
    simp only at hs
    split at hs
    · rename_i hmore
      cases hs
      refine Open.resume (.calling listener n _ (f :: todo) (attempt + 1)) h ?_ trivial
      refine ⟨before, errors ++ [e], ?_, by simp [hattempt], List.cons_ne_nil _ _, hserved⟩
      intro f' hf'
      cases hf'
      exact ⟨hmore, by simp⟩
    · rename_i hspent
      have hlast : errors.length = f.retries := hattempt.trans (Nat.le_antisymm hfew (Nat.le_of_not_lt hspent))
      split at hs
      · rename_i hrequired
        cases hs
        refine h.fail ?_ rfl rfl (by simp) (by simp)
        have hthese := hserved _ _ (.failed f todo errors e hlast hrequired)
        rwa [← List.append_assoc] at hthese
      · rename_i hoptional
        cases hs
        refine h.serve ?_
        intro later fate hlater
        have hthese := hserved _ _
          (.passed f todo (errors ++ [e]) later fate (by simp [hlast]) (Bool.eq_false_iff.mpr hoptional) hlater)
        simpa using hthese
  | awaitable =>
    obtain ⟨error, hraises, rfl⟩ := Option.map_eq_some_iff.mp hs
    exact hcut error hraises (by simp)
  | cancelled =>
    obtain ⟨error, hraises, rfl⟩ := Option.map_eq_some_iff.mp hs
    exact hcut error hraises (by simp)
  | escaped e =>
    obtain ⟨error, hraises, rfl⟩ := Option.map_eq_some_iff.mp hs
    exact hcut error hraises (by simp)

theorem Open.raising {question : List (ListenFailure ε)} (h : Open cfg s question []) (errors : List (PyError ε)) :
    Open cfg s question errors where
  settled := h.settled
  delivered := h.delivered
  recorded := h.recorded
  asked := h.asked
  raised := by
    have hraised := h.raised
    rw [List.append_nil] at hraised
    exact hraised.trans (List.sublist_append_left _ _)
  closes := h.closes
  running := h.running
  first := by
    intro hraise
    rw [h.empty hraise]
    exact ⟨Nat.zero_le _, by simp⟩
  fresh := h.fresh

theorem Open.close {question : List (ListenFailure ε)} (h : Open cfg s question []) : Open cfg s.close question [] := by
  obtain ⟨hclosed, hcloses⟩ := close_closes h.closes
  rw [close_keeps]
  refine ⟨h.settled, h.delivered, h.recorded, h.asked, h.raised, ?_, h.running, h.first, h.fresh⟩
  dsimp only
  rw [hclosed, hcloses]
  rfl

theorem Booked.close (h : Booked cfg s) : Booked cfg s.close := by
  obtain ⟨hclosed, hcloses⟩ := close_closes h.closes
  rw [close_keeps]
  refine ⟨h.settled, h.delivered, h.recorded, h.asked, h.raised, h.serving, ?_, fun _ => hclosed, h.closing,
    fun hstopped => ⟨hclosed, (h.stopped hstopped).2⟩, h.first, h.all⟩
  dsimp only
  rw [hclosed, hcloses]
  rfl

/-- A stopped iterator gives what it has left, or says again that it has stopped. -/
theorem Booked.last {error : PyError ε} (h : Booked cfg s) (hstopped : s.stopped = true)
    (hpending : s.phase.pending.Sublist error.chain) (hquestion : s.phase.question = [])
    (hfailed : ∀ failures, .allFailed failures ∈ error.chain → .allFailed failures ∈ s.raised) :
    Booked cfg (s.give (.error error)) := by
  have hraised := give_raised s error
  have hmore : s.raised.Sublist (exceptions s.returned ++ error.chain) := (List.Sublist.refl _).append hpending
  refine ⟨h.settled, (toOption_append s.returned error).trans h.delivered, h.recorded, ?_, ?_, trivial, h.closes,
    (fun hphase => nomatch hphase), (fun error hphase => nomatch hphase), fun _ => ⟨(h.stopped hstopped).1, trivial⟩,
    ?_, ?_⟩
  · have hasked := h.asked
    rwa [hquestion] at hasked
  · rw [hraised]
    exact h.raised.trans hmore
  · intro hraise
    refine ⟨(h.first hraise).1, ?_⟩
    intro failure hmem
    refine ⟨hstopped, ?_⟩
    rw [hraised]
    exact hmore.subset ((h.first hraise).2 failure hmem).2
  · intro failures hmem
    rw [hraised] at hmem
    refine h.all failures ?_
    rcases List.mem_append.mp hmem with hold | hnew
    · exact List.mem_append_left _ hold
    · exact hfailed failures hnew

/-- The error that waited for the listeners leaves, or is the context of what broke into their closing. -/
theorem Booked.left {error last : PyError ε} (h : Booked cfg s) (hclosing : s.phase = .closing error)
    (hlast : last = error ∨ ∃ later : PyError ε, later.foreign = true ∧ last = .during later error) :
    Booked cfg (s.give (.error last)) := by
  have hpending : s.phase.pending = error.chain := by rw [hclosing]; rfl
  have hraised {failures : List (ListenFailure ε)} (hmem : .allFailed failures ∈ error.chain) :
      .allFailed failures ∈ s.raised :=
    List.mem_append_right _ (hpending ▸ hmem)
  have hquestion : s.phase.question = [] := by rw [hclosing]; rfl
  rcases hlast with heq | ⟨later, hforeign, heq⟩
  · subst heq
    exact h.last (h.closing _ hclosing) (hpending ▸ .refl _) hquestion fun failures hmem => hraised hmem
  · subst heq
    refine h.last (h.closing _ hclosing) (hpending ▸ List.sublist_append_left _ _) hquestion ?_
    intro failures hmem
    rcases List.mem_append.mp hmem with hold | hnew
    · exact hraised hold
    · rw [← List.mem_singleton.mp hnew] at hforeign
      cases hforeign

/-- The answer of `on_error` to a failure goes into the books. -/
theorem Open.heed {failure : ListenFailure ε} (h : Open cfg s [failure] []) (answer : Answer ε) :
    Open cfg (s.heed failure answer) [] [] := by
  refine ⟨h.settled, h.delivered, h.recorded, ?_, h.raised, h.closes, h.running, h.first, h.fresh⟩
  refine Eq.trans ?_ h.asked
  rw [Listener.heed, List.map_append]
  exact List.append_nil _

/-- The end of the native iterator leaves the read as the end of the loop. -/
theorem Open.end (h : Open cfg s [] []) : Booked cfg (s.leave cfg (s.allFailed cfg)) := by
  refine (h.raising _).leave (fun _ => h.empty) ?_
  intro failures hmem
  unfold Listener.allFailed at hmem
  split at hmem
  · rename_i hall
    cases List.mem_singleton.mp hmem
    exact ⟨rfl, hall⟩
  · cases List.mem_singleton.mp hmem

theorem Booked.step (h : Booked cfg s) (hs : step cfg s event = some s') : Booked cfg s' := by
  have hleave {t : Listener ν ε} {answer : Answer ε} {error : PyError ε} (ht : Open cfg t [] [])
      (hraises : answer.raises cfg.onLoop = some error) : Booked cfg (t.leave cfg error) := by
    refine (ht.raising _).leave (fun _ => ht.empty) ?_
    intro failures hmem
    exact absurd hmem (foreign_own (raises_foreign hraises) failures)
  have hrunning {phase : ReadPhase ν ε} (hphase : s.phase = phase) (hover : ¬ Over phase) :
      Open cfg s phase.question [] := by
    subst hphase
    exact h.open (h.running hover)
  have hheed {failure : ListenFailure ε} (answer : Answer ε) (hasking : s.phase = .asking failure) :
      Open cfg (s.heed failure answer) [] [] :=
    Open.heed (hrunning hasking id) answer
  unfold Listener.step at hs
  split at hs
  · cases hs
    exact h.close
  · rename_i hidle
    cases hs
    split
    · rename_i hstopped
      refine h.last hstopped ?_ ?_ ?_
      · rw [hidle]
        exact List.nil_sublist _
      · rw [hidle]
        rfl
      · intro failures hmem
        cases List.mem_singleton.mp hmem
    · rename_i hrunning
      have hopen := h.open (Bool.eq_false_iff.mpr hrunning)
      rw [hidle] at hopen
      exact Open.resume .reading hopen trivial trivial
  · rename_i name n hreading
    cases hs
    exact Open.serve (hrunning hreading id) fun later fate hlater => hlater
  · rename_i name e hreading
    cases hs
    exact Open.fail (hrunning hreading id) ⟨rfl, rfl⟩ rfl rfl (by simp) (by simp)
  · rename_i hreading
    cases hs
    have hopen : Open cfg s [] [] := hrunning hreading id
    split
    · exact hopen.end
    · exact (hopen.close.move .ending).booked trivial (fun error hphase => nomatch hphase)
        fun _ => (close_closes hopen.closes).1
  · rename_i answer hreading
    obtain ⟨error, hraises, heq⟩ := Option.map_eq_some_iff.mp hs
    subst heq
    exact hleave (hrunning hreading id) hraises
  · rename_i hcalling
    have hserving := h.serving
    rw [hcalling] at hserving
    exact Open.answered (hrunning hcalling id) hserving hs
  · rename_i hasking
    cases hs
    exact Open.resume .reading (hheed .returned hasking) trivial trivial
  · rename_i hasking
    obtain ⟨error, hraises, heq⟩ := Option.map_eq_some_iff.mp hs
    subst heq
    exact hleave (hheed _ hasking) hraises
  · cases hs
  · rename_i hending
    cases hs
    exact Open.end (hrunning hending id)
  · rename_i hending
    obtain ⟨error, hraises, heq⟩ := Option.map_eq_some_iff.mp hs
    subst heq
    exact hleave (hrunning hending id) hraises
  · rename_i error hclosing
    cases hs
    exact h.left hclosing (.inl rfl)
  · rename_i error answer _ _ hclosing
    obtain ⟨later, hraises, heq⟩ := Option.map_eq_some_iff.mp hs
    subst heq
    exact h.left hclosing (.inr ⟨later, raises_foreign hraises, rfl⟩)
  · cases hs

theorem booked_init : Booked cfg (init : Listener ν ε) where
  settled := by simp [init]
  delivered := rfl
  recorded := rfl
  asked := by
    unfold put
    split <;> rfl
  raised := .refl _
  serving := trivial
  closes := rfl
  ending := by simp [init]
  closing := by simp [init]
  stopped := by simp [init]
  first := by simp [init]
  all := by simp [init, Listener.raised, exceptions, ReadPhase.pending]


variable (cfg) in
/-- What a step adds to what was read, called, asked and raised is what its event shows. -/
structure Extends (s : Listener ν ε) (event : ListenEvent ν ε) (s' : Listener ν ε) : Prop where
  read : s'.read = s.read ++ event.item.toList
  made : s'.made.map Prod.snd = s.made.map Prod.snd ++ event.answered.toList
  asked : s'.asked.map Prod.snd = s.asked.map Prod.snd ++ event.judged.toList
  raised : s'.raised.filter PyError.foreign = s.raised.filter PyError.foreign ++ (event.exception cfg.onLoop).toList

/-- Nothing is in hand once an exception leaves a read. -/
theorem Extends.leave {t : Listener ν ε} {error : PyError ε}
    (h : Extends cfg s event ({ t with phase := .idle }.give (.error error))) :
    Extends cfg s event (t.leave cfg error) := by
  obtain ⟨hread, hmade, hasked, hraised⟩ := h
  rw [give_raised] at hraised
  rcases leave_cases cfg t error with ⟨-, heq, hleave⟩ | ⟨-, hleave⟩ | ⟨-, hleave⟩
  · subst heq
    rw [hleave]
    exact ⟨hread, hmade, hasked, by rw [give_raised]; exact hraised⟩
  · rw [hleave]
    exact ⟨hread, hmade, hasked, by rw [give_raised]; exact hraised⟩
  · rw [hleave, close_keeps]
    exact ⟨hread, hmade, hasked, hraised⟩

theorem Extends.fail {t : Listener ν ε} {failure : ListenFailure ε} (hown : failure.2.2.chain.filter PyError.foreign = [])
    (h : Extends cfg s event { t with phase := .reading }) : Extends cfg s event (t.fail cfg failure) := by
  have hraised := h.raised
  rw [Listener.raised, ReadPhase.pending, List.append_nil] at hraised
  · unfold Listener.fail
    split
    · refine Extends.leave ⟨h.read, h.made, h.asked, ?_⟩
      rw [give_raised, List.filter_append, hown, List.append_nil]
      exact hraised
    · exact ⟨h.read, h.made, h.asked, h.raised⟩
    · exact ⟨h.read, h.made, h.asked, h.raised⟩
  · intro error hphase
    cases hphase

theorem Extends.serve {t : Listener ν ε} {listener : Text} {n : ν} {calls : List (FunctionTrigger × Answer ε)}
    (todo : List FunctionTrigger) (h : Extends cfg s event { t with phase := .calling listener n calls [] 0 }) :
    Extends cfg s event (t.serve listener n calls todo) := by
  cases todo with
  | nil =>
    refine ⟨?_, ?_, h.asked, ?_⟩
    · rw [← h.read]
      simp [Listener.serve, Listener.read, settle, give]
    · rw [← h.made]
      simp [Listener.serve, Listener.made, settle, give]
    · rw [← h.raised]
      simp [Listener.serve, Listener.raised, settle, give, exceptions]
  | cons f todo => exact ⟨h.read, h.made, h.asked, h.raised⟩

/-- The answer of a function goes with the notification in hand, until that is done with. -/
theorem Extends.answered {listener : Text} {n : ν} {calls : List (FunctionTrigger × Answer ε)} {f : FunctionTrigger}
    {todo : List FunctionTrigger} {attempt : Nat} {answer : Answer ε}
    (hphase : s.phase = .calling listener n calls (f :: todo) attempt)
    (hs : s.answered cfg listener n calls f todo attempt answer = some s') : Extends cfg s (.answer answer) s' := by
  have hcall (hquiet : (ListenEvent.answer answer : ListenEvent ν ε).exception cfg.onLoop = none) :
      Extends cfg s (.answer answer)
        { s with phase := .calling listener n (calls ++ [(f, answer)]) [] 0 } := by
    refine ⟨?_, ?_, ?_, ?_⟩
    · simp [Listener.read, hphase]
    · simp [Listener.made, hphase]
    · simp
    · rw [hquiet]
      simp [Listener.raised, hphase]
  have hcut (error : PyError ε) (hraises : answer.raises cfg.onLoop = some error) (hother : ∀ e, answer ≠ .raised e) :
      Extends cfg s (.answer answer)
        ((s.settle ⟨listener, .ok n, calls ++ [(f, answer)], .cut error⟩).leave cfg error) := by
    have hforeign := raises_foreign hraises
    refine Extends.leave ⟨?_, ?_, ?_, ?_⟩
    · simp [Listener.read, hphase, settle, give]
    · simp [Listener.made, hphase, settle, give]
    · simp [settle, give]
    · rw [give_raised, foreign_chain hforeign]
      cases answer with
      | raised e => exact absurd rfl (hother e)
      | _ => simp [Listener.raised, hphase, settle, hraises, hforeign]
  unfold Listener.answered at hs
  cases answer with
  | returned =>
    cases hs
    exact Extends.serve todo (hcall rfl)
  | raised e =>
    simp only at hs
    split at hs
    · cases hs
      have hagain := hcall rfl
      exact ⟨hagain.read, hagain.made, hagain.asked, hagain.raised⟩
    · split at hs
      · cases hs
        refine Extends.fail (by simp [PyError.foreign]) ⟨?_, ?_, ?_, ?_⟩
        · simp [Listener.read, hphase, settle]
        · simp [Listener.made, hphase, settle]
        · simp [settle]
        · simp [Listener.raised, hphase, settle]
      · cases hs
        exact Extends.serve todo (hcall rfl)
  | awaitable =>
    obtain ⟨error, hraises, heq⟩ := Option.map_eq_some_iff.mp hs
    subst heq
    exact hcut error hraises (by simp)
  | cancelled =>
    obtain ⟨error, hraises, heq⟩ := Option.map_eq_some_iff.mp hs
    subst heq
    exact hcut error hraises (by simp)
  | escaped e =>
    obtain ⟨error, hraises, heq⟩ := Option.map_eq_some_iff.mp hs
    subst heq
    exact hcut error hraises (by simp)

/-- Between items, what leaves a read is what its event brought. -/
theorem Extends.give {t : Listener ν ε} {error : PyError ε} (hitem : event.item = none) (hanswered : event.answered = none)
    (hhand : s.phase.inHand = []) (hcalls : s.phase.made = [])
    (hasked : t.asked.map Prod.snd = s.asked.map Prod.snd ++ event.judged.toList)
    (hraised : error.chain.filter PyError.foreign =
      s.phase.pending.filter PyError.foreign ++ (event.exception cfg.onLoop).toList)
    (hhistory : t.history = s.history) (hreturned : t.returned = s.returned) :
    Extends cfg s event (t.give (.error error)) := by
  refine ⟨?_, ?_, hasked, ?_⟩
  · have hread : s.read = t.history.map (fun entry => (entry.listener, entry.item)) ++ [] := by
      rw [Listener.read, hhand, hhistory]
    rw [hread, hitem]
    exact (List.append_nil _).symm
  · have hmade : s.made = t.history.flatMap Entry.calls ++ [] := by rw [Listener.made, hcalls, hhistory]
    rw [hmade, hanswered]
    exact (List.append_nil _).symm
  · rw [give_raised, List.filter_append, hraised, hreturned, Listener.raised, List.filter_append, List.append_assoc]

theorem allFailed_own (cfg : ListenConfig) (s : Listener ν ε) :
    (s.allFailed cfg).chain.filter PyError.foreign = [] := by
  unfold Listener.allFailed
  split <;> rfl

theorem step_extends (hs : step cfg s event = some s') : Extends cfg s event s' := by
  unfold Listener.step at hs
  split at hs
  · cases hs
    rw [close_keeps]
    exact ⟨(List.append_nil _).symm, (List.append_nil _).symm, (List.append_nil _).symm, (List.append_nil _).symm⟩
  · rename_i hidle
    cases hs
    split
    · exact Extends.give rfl rfl (by simp [hidle]) (by simp [hidle]) (by simp) (by simp [hidle, PyError.foreign]) rfl rfl
    · refine ⟨?_, ?_, ?_, ?_⟩ <;> simp [Listener.read, Listener.made, Listener.raised, hidle]
  · rename_i name n hreading
    cases hs
    refine Extends.serve _ ⟨?_, ?_, ?_, ?_⟩ <;>
      simp [Listener.read, Listener.made, Listener.raised, hreading]
  · rename_i name e hreading
    cases hs
    refine Extends.fail (by simp [PyError.foreign]) ⟨?_, ?_, ?_, ?_⟩ <;>
      simp [Listener.read, Listener.made, Listener.raised, hreading, settle]
  · rename_i hreading
    cases hs
    split
    · refine Extends.leave (Extends.give rfl rfl (by simp [hreading]) (by simp [hreading]) (by simp) ?_ rfl rfl)
      simp [hreading, allFailed_own]
    · rw [close_keeps]
      refine ⟨?_, ?_, ?_, ?_⟩ <;> simp [Listener.read, Listener.made, Listener.raised, hreading]
  · rename_i answer hreading
    obtain ⟨error, hraises, heq⟩ := Option.map_eq_some_iff.mp hs
    subst heq
    have hforeign := raises_foreign hraises
    refine Extends.leave (Extends.give rfl rfl (by simp [hreading]) (by simp [hreading]) (by simp) ?_ rfl rfl)
    simp [foreign_chain hforeign, hforeign, hreading, hraises]
  · rename_i hcalling
    exact Extends.answered hcalling hs
  · rename_i hasking
    cases hs
    refine ⟨?_, ?_, ?_, ?_⟩ <;> simp [Listener.read, Listener.made, Listener.raised, hasking, heed, Answer.raises]
  · rename_i hasking
    obtain ⟨error, hraises, heq⟩ := Option.map_eq_some_iff.mp hs
    subst heq
    have hforeign := raises_foreign hraises
    refine Extends.leave (Extends.give rfl rfl (by simp [hasking]) (by simp [hasking]) (by simp [heed]) ?_ rfl rfl)
    simp [foreign_chain hforeign, hforeign, hasking, hraises]
  · cases hs
  · rename_i hending
    cases hs
    refine Extends.leave (Extends.give rfl rfl (by simp [hending]) (by simp [hending]) (by simp) ?_ rfl rfl)
    simp [hending, allFailed_own, Answer.raises]
  · rename_i hending
    obtain ⟨error, hraises, heq⟩ := Option.map_eq_some_iff.mp hs
    subst heq
    have hforeign := raises_foreign hraises
    refine Extends.leave (Extends.give rfl rfl (by simp [hending]) (by simp [hending]) (by simp) ?_ rfl rfl)
    simp [foreign_chain hforeign, hforeign, hending, hraises]
  · rename_i error hclosing
    cases hs
    exact Extends.give rfl rfl (by simp [hclosing]) (by simp [hclosing]) (by simp) (by simp [hclosing, Answer.raises]) rfl rfl
  · rename_i error answer _ _ hclosing
    obtain ⟨later, hraises, heq⟩ := Option.map_eq_some_iff.mp hs
    subst heq
    have hforeign := raises_foreign hraises
    refine Extends.give rfl rfl (by simp [hclosing]) (by simp [hclosing]) (by simp) ?_ rfl rfl
    simp [hclosing, hforeign, hraises]
  · cases hs

/-- The set of failed listeners is as large as the list of listeners exactly when it has them all. -/
theorem failedListeners_all {names : List Text} (hnames : names.Nodup) (hfrom : ∀ failure ∈ s.failures, failure.1 ∈ names) :
    s.failedListeners.length = names.length ↔ ∀ name ∈ names, ∃ error, (name, .listener, error) ∈ s.failures := by
  have hmem (name : Text) : name ∈ s.failedListeners ↔ ∃ error, (name, .listener, error) ∈ s.failures := by
    simp only [failedListeners, List.mem_dedup, List.mem_map, List.mem_filter, decide_eq_true_eq, Prod.exists,
      exists_and_right, exists_eq_right]
  have hsub : s.failedListeners.Subperm names := by
    refine List.subperm_of_subset (List.nodup_dedup _) ?_
    intro name hname
    obtain ⟨error, hfailed⟩ := (hmem name).mp hname
    exact hfrom _ hfailed
  constructor
  · intro hlength name hname
    have hperm := hsub.perm_of_length_le (Nat.le_of_eq hlength.symm)
    exact (hmem name).mp (hperm.symm.subset hname)
  · intro hall
    refine Nat.le_antisymm hsub.length_le ?_
    exact (List.subperm_of_subset hnames fun name hname => (hmem name).mpr (hall name hname)).length_le

variable (cfg) in
/-- Every listener of the list has failed, and the policy goes on after a failure. -/
def EachFailed (names : List Text) (s : Listener ν ε) : Prop :=
  cfg.onError ≠ .raise ∧ names ≠ [] ∧ ∀ name ∈ names, ∃ error, (name, .listener, error) ∈ s.failures

theorem eachFailed_iff {names : List Text} (hnames : names.Nodup) (hcount : names.length = cfg.count)
    (hfrom : ∀ failure ∈ s.failures, failure.1 ∈ names) :
    (cfg.onError ≠ .raise ∧ cfg.count ≠ 0 ∧ s.failedListeners.length = cfg.count) ↔ EachFailed cfg names s := by
  rw [EachFailed, ← hcount, failedListeners_all hnames hfrom, ← List.length_pos_iff_ne_nil, Nat.pos_iff_ne_zero]

/-- What the reads of a stopped iterator still give: what it stopped with, if that waits for the
listeners, and then that it has stopped. -/
inductive Silent : ReadPhase ν ε → List (Except (PyError ε) (Text × ν)) → ReadPhase ν ε → Prop where
  | idle (k : Nat) : Silent .idle (List.replicate k (.error .stopIteration)) .idle
  | waiting (error : PyError ε) : Silent (.closing error) [] (.closing error)
  | left (error last : PyError ε) (k : Nat) : last = error ∨ (∃ later, last = .during later error) →
      Silent (.closing error) (.error last :: List.replicate k (.error .stopIteration)) .idle

/-- The step at which the loop ends: the native iterator has ended, and the listeners are closed. -/
def Ends (s : Listener ν ε) (event : ListenEvent ν ε) : Prop :=
  (s.phase = .reading ∧ s.closed = true ∧ event = .raw .ended) ∨ (s.phase = .ending ∧ event = .released .returned)

variable (cfg) in
/-- What the iterators of `listen_many` promise in any state they reach. -/
structure Listened (events : List (ListenEvent ν ε)) (s : Listener ν ε) : Prop where
  read : s.read = events.filterMap ListenEvent.item
  settled : ∀ entry ∈ s.history, entry.Settled cfg
  made : s.made.map Prod.snd = events.filterMap ListenEvent.answered
  delivered : s.returned.filterMap Except.toOption = s.history.filterMap Entry.delivered
  recorded : s.failures = s.history.filterMap Entry.failure
  asked : s.asked.map Prod.fst ++ s.phase.question = s.put cfg ∧
    s.asked.map Prod.snd = events.filterMap ListenEvent.judged
  raised : (s.history.filterMap Entry.exception).Sublist s.raised ∧
    s.raised.filter PyError.foreign = events.filterMap (ListenEvent.exception cfg.onLoop)
  closed : s.closes ≤ 1 ∧ (s.stopped = true → s.closes = 1)
  first : cfg.onError = .raise → s.failures.length ≤ 1 ∧ ∀ failure ∈ s.failures, s.stopped = true ∧ failure.2.2 ∈ s.raised
  all : ∀ names : List Text, names.Nodup → names.length = cfg.count → (∀ failure ∈ s.failures, failure.1 ∈ names) →
    (∀ failures, .allFailed failures ∈ s.raised → failures = s.failures ∧ s.stopped = true ∧ EachFailed cfg names s) ∧
    ∀ event s', Ends s event → step cfg s event = some s' → s'.stopped = true ∧
      (s'.returned = s.returned ++ [.error (.allFailed s.failures)] ∨ s'.returned = s.returned ++ [.error .stopIteration]) ∧
      (s'.returned = s.returned ++ [.error (.allFailed s.failures)] ↔ EachFailed cfg names s)
  final : s.stopped = true → ∀ events s', Lib.Machine.run (step cfg) s events = some s' →
    s'.history = s.history ∧ s'.failures = s.failures ∧ s'.closes = s.closes ∧
      ∃ later, Silent s.phase later s'.phase ∧ s'.returned = s.returned ++ later
  cancelled : cfg.onLoop = true → ∀ event s', event.exception true = some .cancelled → step cfg s event = some s' →
    s'.phase = .idle ∧ s'.stopped = s.stopped ∧ s'.closed = s.closed ∧ s'.failures = s.failures ∧
      s'.returned = s.returned ++ [.error s.phase.interrupted]

theorem ended (h : Booked cfg s) (hends : Ends s event) (hs : step cfg s event = some s') :
    s' = { s with stopped := true }.give (.error (s.allFailed cfg)) := by
  have hleave (hclosed : s.closed = true) :
      s.leave cfg (s.allFailed cfg) = { s with stopped := true }.give (.error (s.allFailed cfg)) := by
    have hown : s.allFailed cfg ≠ .cancelled := by
      unfold Listener.allFailed
      split <;> simp
    unfold Listener.leave
    split
    · rename_i hcancelled
      exact absurd hcancelled hown
    · rw [if_pos hclosed]
  rcases hends with ⟨hphase, hclosed, heq⟩ | ⟨hphase, heq⟩
  · subst heq
    simp only [Listener.step, hphase, if_pos hclosed, Option.some.injEq] at hs
    rw [← hs, hleave hclosed]
  · subst heq
    simp only [Listener.step, hphase, Option.some.injEq] at hs
    rw [← hs, hleave (h.ending hphase)]

theorem Booked.all_failed {names : List Text} (h : Booked cfg s) (hnames : names.Nodup) (hcount : names.length = cfg.count)
    (hfrom : ∀ failure ∈ s.failures, failure.1 ∈ names) (hends : Ends s event) (hs : Listener.step cfg s event = some s') :
    s'.stopped = true ∧
      (s'.returned = s.returned ++ [.error (.allFailed s.failures)] ∨ s'.returned = s.returned ++ [.error .stopIteration]) ∧
      (s'.returned = s.returned ++ [.error (.allFailed s.failures)] ↔ EachFailed cfg names s) := by
  rw [ended h hends hs, ← eachFailed_iff hnames hcount hfrom]
  unfold Listener.allFailed
  split
  · rename_i hall
    exact ⟨rfl, .inl rfl, fun _ => hall, fun _ => rfl⟩
  · rename_i hsome
    refine ⟨rfl, .inr rfl, ?_, fun hall => absurd hall hsome⟩
    intro heq
    cases List.append_cancel_left heq

theorem step_idle (hphase : s.phase = .idle) (hstopped : s.stopped = true) (hclosed : s.closed = true)
    (hs : step cfg s event = some s') : s' = s ∨ s' = s.give (.error .stopIteration) := by
  unfold Listener.step at hs
  rw [hphase] at hs
  split at hs
  · cases hs
    exact .inl (if_pos hclosed)
  · rw [if_pos hstopped] at hs
    cases hs
    exact .inr rfl
  all_goals simp_all

theorem step_closing {error : PyError ε} (hphase : s.phase = .closing error) (hclosed : s.closed = true)
    (hs : step cfg s event = some s') :
    s' = s ∨ ∃ last, (last = error ∨ ∃ later, last = .during later error) ∧ s' = s.give (.error last) := by
  cases event with
  | close =>
    simp only [Listener.step, Option.some.injEq] at hs
    rw [Listener.close, if_pos hclosed] at hs
    exact .inl hs.symm
  | released answer =>
    cases answer with
    | returned =>
      simp only [Listener.step, hphase, Option.some.injEq] at hs
      exact .inr ⟨error, .inl rfl, hs.symm⟩
    | awaitable => simp [Listener.step] at hs
    | raised e =>
      simp only [Listener.step, hphase, Answer.raises, Option.map_some, Option.some.injEq] at hs
      exact .inr ⟨_, .inr ⟨_, rfl⟩, hs.symm⟩
    | cancelled =>
      simp only [Listener.step, hphase, Answer.raises, Option.map_some, Option.some.injEq] at hs
      exact .inr ⟨_, .inr ⟨_, rfl⟩, hs.symm⟩
    | escaped e =>
      simp only [Listener.step, hphase, Answer.raises, Option.map_some, Option.some.injEq] at hs
      exact .inr ⟨_, .inr ⟨_, rfl⟩, hs.symm⟩
  | _ => simp [Listener.step, hphase] at hs

theorem Silent.step {phase : ReadPhase ν ε} {later : List (Except (PyError ε) (Text × ν))}
    (h : Silent phase later s.phase) (hstopped : s.stopped = true) (hclosed : s.closed = true)
    (hs : Listener.step cfg s event = some s') :
    s' = s ∨ ∃ last, Silent phase (later ++ [.error last]) .idle ∧ s' = s.give (.error last) := by
  generalize hphase : s.phase = now at h
  cases h with
  | idle k =>
    rcases step_idle hphase hstopped hclosed hs with heq | heq
    · exact .inl heq
    · refine .inr ⟨_, ?_, heq⟩
      rw [← List.replicate_succ']
      exact .idle (k + 1)
  | waiting error =>
    rcases step_closing hphase hclosed hs with heq | ⟨last, hlast, heq⟩
    · exact .inl heq
    · exact .inr ⟨last, .left error last 0 hlast, heq⟩
  | left error last k hlast =>
    rcases step_idle hphase hstopped hclosed hs with heq | heq
    · exact .inl heq
    · refine .inr ⟨_, ?_, heq⟩
      rw [List.cons_append, ← List.replicate_succ']
      exact .left error last (k + 1) hlast

/-- A stopped iterator reads nothing, and says that it has stopped. -/
theorem Booked.final (h : Booked cfg s) (hstopped : s.stopped = true)
    (hrun : Lib.Machine.run (Listener.step cfg) s events = some s') :
    s'.history = s.history ∧ s'.failures = s.failures ∧ s'.closes = s.closes ∧
      ∃ later, Silent s.phase later s'.phase ∧ s'.returned = s.returned ++ later := by
  obtain ⟨hclosed, hover⟩ := h.stopped hstopped
  have hstart : Silent (ν := ν) s.phase [] s.phase := by
    cases hphase : s.phase with
    | idle => exact .idle 0
    | closing error => exact .waiting error
    | _ =>
      rw [hphase] at hover
      cases hover
  have hkept := Lib.Machine.run_invariant
    (P := fun t : Listener ν ε => (t.stopped = true ∧ t.closed = true) ∧
      t.history = s.history ∧ t.failures = s.failures ∧ t.closes = s.closes ∧
      ∃ later, Silent s.phase later t.phase ∧ t.returned = s.returned ++ later) ?_ hrun
    ⟨⟨hstopped, hclosed⟩, rfl, rfl, rfl, [], hstart, (List.append_nil _).symm⟩
  · exact hkept.2
  · rintro t event t' ⟨hended, hhistory, hfailures, hcloses, later, hsilent, hreturned⟩ hs
    rcases hsilent.step hended.1 hended.2 hs with heq | ⟨last, hlast, heq⟩
    · subst heq
      exact ⟨hended, hhistory, hfailures, hcloses, later, hsilent, hreturned⟩
    · subst heq
      refine ⟨hended, hhistory, hfailures, hcloses, later ++ [.error last], hlast, ?_⟩
      rw [give, hreturned, List.append_assoc]

theorem step_cancelled (hloop : cfg.onLoop = true) (hevent : event.exception true = some .cancelled)
    (hs : step cfg s event = some s') : s'.phase = .idle ∧ s'.stopped = s.stopped ∧ s'.closed = s.closed ∧
      s'.failures = s.failures ∧ s'.returned = s.returned ++ [.error s.phase.interrupted] := by
  have hraises : (Answer.cancelled : Answer ε).raises cfg.onLoop = some .cancelled := rfl
  have hleave (t : Listener ν ε) : t.leave cfg .cancelled = t.give (.error .cancelled) := by simp [leave, hloop]
  have hreply (reply : Answer ε) (hreply : reply.raises true = some .cancelled) : reply = .cancelled := by
    cases reply <;> simp [Answer.raises] at hreply
    rfl
  unfold ListenEvent.exception at hevent
  split at hevent
  · cases hevent
  all_goals try have heq := hreply _ hevent; subst heq
  · cases hphase : s.phase with
    | calling listener n calls todo attempt =>
      cases todo with
      | nil => simp [step, hphase] at hs
      | cons f todo =>
        simp only [step, hphase, answered, hraises, Option.map_some, hleave, Option.some.injEq] at hs
        subst hs
        exact ⟨rfl, rfl, rfl, rfl, rfl⟩
    | _ => simp [step, hphase] at hs
  · cases hphase : s.phase with
    | asking failure =>
      simp only [step, hphase, hraises, Option.map_some, hleave, Option.some.injEq] at hs
      subst hs
      exact ⟨rfl, rfl, rfl, rfl, rfl⟩
    | _ => simp [step, hphase] at hs
  · cases hphase : s.phase with
    | ending =>
      simp only [step, hphase, hraises, Option.map_some, hleave, Option.some.injEq] at hs
      subst hs
      exact ⟨rfl, rfl, rfl, rfl, rfl⟩
    | closing error =>
      simp only [step, hphase, hraises, Option.map_some, Option.some.injEq] at hs
      subst hs
      exact ⟨rfl, rfl, rfl, rfl, rfl⟩
    | _ => simp [step, hphase] at hs
  · cases hphase : s.phase with
    | reading =>
      simp only [step, hphase, hraises, Option.map_some, hleave, Option.some.injEq] at hs
      subst hs
      exact ⟨rfl, rfl, rfl, rfl, rfl⟩
    | _ => simp [step, hphase] at hs
  · cases hevent

/-- For every native iterator, every answer of the caller's code and every moment of a `close`. -/
theorem listening_law (cfg : ListenConfig) (events : List (ListenEvent ν ε)) (s : Listener ν ε)
    (hrun : Lib.Machine.run (step cfg) init events = some s) : Listened cfg events s := by
  have h : Booked cfg s := Lib.Machine.run_invariant (fun _ _ _ h hs => h.step hs) hrun booked_init
  refine ⟨?_, h.settled, ?_, h.delivered, h.recorded, ⟨h.asked, ?_⟩, ⟨h.raised, ?_⟩, ⟨?_, ?_⟩, h.first, ?_, ?_, ?_⟩
  · exact Lib.Machine.run_collects (fun _ _ _ hs => (step_extends hs).read) hrun
  · exact Lib.Machine.run_collects (f := fun s => s.made.map Prod.snd) (fun _ _ _ hs => (step_extends hs).made) hrun
  · exact Lib.Machine.run_collects (f := fun s => s.asked.map Prod.snd) (fun _ _ _ hs => (step_extends hs).asked) hrun
  · exact Lib.Machine.run_collects (f := fun s => s.raised.filter PyError.foreign)
      (fun _ _ _ hs => (step_extends hs).raised) hrun
  · rw [h.closes]
    split <;> simp
  · intro hstopped
    rw [h.closes, (h.stopped hstopped).1]
    rfl
  · intro names hnames hcount hfrom
    refine ⟨?_, fun event s' hends hs => h.all_failed hnames hcount hfrom hends hs⟩
    intro failures hmem
    obtain ⟨hsame, hstopped, hcond⟩ := h.all failures hmem
    exact ⟨hsame, hstopped, (eachFailed_iff hnames hcount hfrom).mp hcond⟩
  · intro hstopped events s' hrest
    exact h.final hstopped hrest
  · intro hloop event s' hevent hs
    exact step_cancelled hloop hevent hs

/-- Two listeners, of which the first has a required function with one retry. -/
def askingConfig : ListenConfig where
  functions := fun name => if name = "a".toList then [⟨"f".toList, 1, true⟩] else []
  onError := .ask
  count := 2
  onLoop := true

/-- A notification served on the second attempt, a failed listener, a notification whose function
fails, and an end whose closing is cancelled. -/
def askingEvents : List (ListenEvent Nat Unit) :=
  [.next, .raw (.notification "a".toList 1), .answer (.raised ()), .answer .returned, .next,
    .raw (.failure "b".toList ()), .verdict .returned, .raw (.notification "a".toList 2), .answer (.raised ()),
    .answer (.raised ()), .verdict .returned, .raw .ended, .released .cancelled, .next, .raw .ended, .next]

theorem listening_law_sample : ∃ s, Lib.Machine.run (step askingConfig) init askingEvents = some s ∧
    s.returned.filterMap Except.toOption = [("a".toList, 1)] ∧ s.failures.length = 2 ∧
    Listened askingConfig askingEvents s :=
  ⟨_, rfl, rfl, rfl, listening_law askingConfig askingEvents _ rfl⟩

end Listener

end Aviso.Py
