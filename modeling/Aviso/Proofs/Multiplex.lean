import Aviso.Watch.Multi
import Aviso.Lib.Rotation
import Aviso.Lib.Cells

namespace Aviso.Watch.MultiNotificationStream

open Lib (ahead)

variable {ν ε : Type} {answers : Nat → Nat → Poll (Option (Except ε ν))}

section Spec

/-- What an answer gives the consumer. -/
def itemOf : Poll (Option (Except ε ν)) → Option (Except ε ν)
  | .ready item => item
  | .pending => none

/-- The items of one watch in its first `k` answers: its own, in its own order. -/
def taken (answers : Nat → Nat → Poll (Option (Except ε ν))) (watch k : Nat) : List (Except ε ν) :=
  (List.range k).filterMap fun j => itemOf (answers watch j)

def yieldOf : Poll (Option (Yield ν ε)) → Option (Yield ν ε)
  | .ready y => y
  | .pending => none

/-- The items of a sequence of polls. -/
def yields (outs : List (Poll (Option (Yield ν ε)))) : List (Yield ν ε) := outs.filterMap yieldOf

/-- The items yielded for one watch. -/
def itemsOf (watch : Nat) (seen : List (Yield ν ε)) : List (Except ε ν) :=
  seen.filterMap fun y => if y.index = watch then some y.item else none

/-- Every stream the consumer holds. -/
def streams (s : MultiNotificationStream) : List NotificationStream :=
  s.entries.filterMap (·.stream) ++ s.stopped

/-- The stream of an entry that still runs. -/
def streamAt (s : MultiNotificationStream) (i : Nat) : Option NotificationStream :=
  s.entries[i]?.bind (·.stream)

/-- What was yielded by the polls `outs` that led to `s`, and what later polls yield. -/
structure Merged (answers : Nat → Nat → Poll (Option (Except ε ν))) (names : List String) (policy : ErrorPolicy)
    (outs : List (Poll (Option (Yield ν ε)))) (s : MultiNotificationStream) : Prop where
  conserved : ∀ stream ∈ s.streams, itemsOf stream.watch (yields outs) = taken answers stream.watch stream.polled
  named : ∀ y ∈ yields outs, names[y.index]? = some y.name
  kept : (s.streams.map (·.watch)).Perm (List.range names.length)
  housed : ∀ i stream, s.streamAt i = some stream → stream.watch = i
  busy : ∀ i stream, s.streamAt i = some stream → itemOf (answers i stream.polled) ≠ none →
    ∃ y, (pollNext answers s).1 = .ready (some y)
  fair : ∀ i stream, s.streamAt i = some stream → (∀ k ≥ stream.polled, itemOf (answers i k) ≠ none) →
    ∀ m, names.length ≤ (yields (polls answers m s).1).length →
      ∃ y ∈ (yields (polls answers m s).1).take names.length, y.index = i
  ended : (pollNext answers s).1 = .ready none ↔
    yieldOf (pollNext answers s).1 = none ∧ (pollNext answers s).2.running = []
  finished : s.running = [] → pollNext answers s = (.ready none, s)
  stops : policy = .stop → ∀ before y e after, outs = before ++ .ready (some y) :: after → y.item = .error e →
    s.running = [] ∧ ∀ out ∈ after, out = .ready none
  closes : (s.close.map (·.watch)).Perm (List.range names.length) ∧
    ∀ stream ∈ s.close, stream ∈ s.stopped ∨ stream.cancelled = true

end Spec

section Visits

/-- What a visit of an entry does. -/
inductive Visit (answers : Nat → Nat → Poll (Option (Except ε ν))) (s : MultiNotificationStream) (index : Nat) :
    Option (Yield ν ε) → MultiNotificationStream → Prop
  | skip (h : s.streamAt index = none) : Visit answers s index none s
  | pending {entry stream} (hentry : s.entries[index]? = some entry) (hstream : entry.stream = some stream)
      (ha : answers stream.watch stream.polled = .pending) :
    Visit answers s index none (s.setStream index (some stream.poll))
  | item {entry stream} (notification : ν) (hentry : s.entries[index]? = some entry)
      (hstream : entry.stream = some stream)
      (ha : answers stream.watch stream.polled = .ready (some (.ok notification))) :
    Visit answers s index (some ⟨index, entry.name, .ok notification⟩)
      ((s.setStream index (some stream.poll)).advance index)
  | failed {entry stream} (error : ε) (hentry : s.entries[index]? = some entry)
      (hstream : entry.stream = some stream)
      (ha : answers stream.watch stream.polled = .ready (some (.error error))) (hpolicy : s.policy ≠ .stop) :
    Visit answers s index (some ⟨index, entry.name, .error error⟩) ((s.retire index stream.poll).advance index)
  | stopped {entry stream} (error : ε) (hentry : s.entries[index]? = some entry)
      (hstream : entry.stream = some stream)
      (ha : answers stream.watch stream.polled = .ready (some (.error error))) (hpolicy : s.policy = .stop) :
    Visit answers s index (some ⟨index, entry.name, .error error⟩)
      ((s.retire index stream.poll).advance index).cancelAll
  | ended {entry stream} (hentry : s.entries[index]? = some entry) (hstream : entry.stream = some stream)
      (ha : answers stream.watch stream.polled = .ready none) :
    Visit answers s index none (s.retire index stream.poll)

theorem visit_spec (answers : Nat → Nat → Poll (Option (Except ε ν))) (s : MultiNotificationStream) (index : Nat) :
    Visit answers s index (visit answers s index).1 (visit answers s index).2 := by
  cases hentry : s.entries[index]? with
  | none =>
    simp only [visit, hentry]
    exact .skip (by simp [streamAt, hentry])
  | some entry =>
    cases hstream : entry.stream with
    | none =>
      simp only [visit, hentry, hstream]
      exact .skip (by simp [streamAt, hentry, hstream])
    | some stream =>
      cases ha : answers stream.watch stream.polled with
      | pending =>
        simp only [visit, hentry, hstream, ha]
        exact .pending hentry hstream ha
      | ready item =>
        rcases item with _ | error | notification
        · simp only [visit, hentry, hstream, ha]
          exact .ended hentry hstream ha
        · simp only [visit, hentry, hstream, ha]
          split
          · rename_i hpolicy
            exact .stopped error hentry hstream ha hpolicy
          · rename_i hpolicy
            exact .failed error hentry hstream ha hpolicy
        · simp only [visit, hentry, hstream, ha]
          exact .item notification hentry hstream ha

variable {s s' : MultiNotificationStream} {index : Nat} {y : Option (Yield ν ε)}

@[simp] theorem setStream_next (s : MultiNotificationStream) (index : Nat) (stream : Option NotificationStream) :
    (s.setStream index stream).next = s.next := rfl
@[simp] theorem retire_next (s : MultiNotificationStream) (index : Nat) (stream : NotificationStream) :
    (s.retire index stream).next = s.next := rfl
@[simp] theorem cancelAll_next (s : MultiNotificationStream) : s.cancelAll.next = s.next := rfl

/-- The names of the entries, and the policy, never change. -/
def constants (s : MultiNotificationStream) : List String × ErrorPolicy := (s.entries.map (·.name), s.policy)

theorem constants_setStream (s : MultiNotificationStream) (index : Nat) (stream : Option NotificationStream) :
    (s.setStream index stream).constants = s.constants := by
  have hnames : (s.setStream index stream).entries.map (·.name) = s.entries.map (·.name) := by
    apply List.ext_getElem?
    intro i
    rw [setStream, List.getElem?_map, List.getElem?_map, List.getElem?_modify]
    cases s.entries[i]? with
    | none => rfl
    | some e => simp only [Option.map_some]; split <;> rfl
  rw [constants, constants, hnames]
  rfl

theorem constants_cancelAll (s : MultiNotificationStream) : s.cancelAll.constants = s.constants := by
  simp [constants, cancelAll]

theorem streamAt_setStream (s : MultiNotificationStream) (stream : Option NotificationStream) (h : i ≠ index) :
    (s.setStream index stream).streamAt i = s.streamAt i := by
  rw [streamAt, streamAt, setStream, List.getElem?_modify_ne _ _ h.symm]

theorem streamAt_setStream_self (stream : Option NotificationStream) (h : s.entries[index]? = some entry) :
    (s.setStream index stream).streamAt index = stream := by
  simp [streamAt, setStream, h]

theorem streamAt_cancelAll (s : MultiNotificationStream) (i : Nat) : s.cancelAll.streamAt i = none := by
  simp [streamAt, cancelAll]

theorem streamAt_of (hentry : s.entries[index]? = some entry) (hstream : entry.stream = some stream) :
    s.streamAt index = some stream := by
  rw [streamAt, hentry, Option.bind_some, hstream]

theorem streamAt_lt (hat : s.streamAt i = some stream) : i < s.entries.length := by
  by_contra hge
  rw [streamAt, List.getElem?_eq_none (by omega)] at hat
  cases hat

theorem visit_constants (h : Visit answers s index y s') : s'.constants = s.constants := by
  cases h with
  | skip => rfl
  | stopped => exact (constants_cancelAll _).trans (constants_setStream s index none)
  | _ => exact constants_setStream s index _

theorem visit_length (h : Visit answers s index y s') : s'.entries.length = s.entries.length := by
  have hnames : s'.entries.map (·.name) = s.entries.map (·.name) := congrArg Prod.fst (visit_constants h)
  simpa using congrArg List.length hnames

/-- A visit that yields nothing leaves the turn where it is; one that yields passes it on. -/
theorem visit_next (h : Visit answers s index y s') :
    s'.next = y.elim s.next fun y => (y.index + 1) % s.entries.length := by
  have hlength (stream : Option NotificationStream) : (s.setStream index stream).entries.length = s.entries.length := by
    simp [setStream]
  cases h with
  | item | failed | stopped => exact congrArg (fun n => (index + 1) % n) (hlength _)
  | _ => rfl

theorem visit_index {y : Yield ν ε} (h : Visit answers s index (some y) s') : y.index = index := by
  cases h <;> rfl

/-- A visit leaves the other entries alone, unless it ends them all. -/
theorem visit_others (h : Visit answers s index y s') (hi : i ≠ index) :
    s'.streamAt i = s.streamAt i ∨ y.isSome = true ∧ ∀ j, s'.streamAt j = none := by
  cases h with
  | skip => exact .inl rfl
  | stopped => exact .inr ⟨rfl, streamAt_cancelAll _⟩
  | _ => exact .inl (streamAt_setStream s _ hi)

/-- A stream is where it was, polled once more, or gone. -/
theorem visit_streamAt (h : Visit answers s index y s') (i : Nat) :
    s'.streamAt i = s.streamAt i ∨ s'.streamAt i = none ∨
      ∃ stream, s.streamAt i = some stream ∧ s'.streamAt i = some stream.poll := by
  by_cases hi : i = index
  · subst hi
    cases h with
    | skip => exact .inl rfl
    | pending hentry hstream | item _ hentry hstream =>
      exact .inr (.inr ⟨_, streamAt_of hentry hstream, streamAt_setStream_self _ hentry⟩)
    | failed _ hentry | ended hentry => exact .inr (.inl (streamAt_setStream_self none hentry))
    | stopped => exact .inr (.inl (streamAt_cancelAll _ _))
  · rcases visit_others h hi with hsame | ⟨_, hnone⟩
    · exact .inl hsame
    · exact .inr (.inl (hnone i))

/-- A watch that has an item yields it when it is visited. -/
theorem visit_ready (h : Visit answers s index y s') (hat : s.streamAt index = some stream)
    (hready : itemOf (answers stream.watch stream.polled) ≠ none) : y.isSome = true := by
  cases h with
  | skip hnone =>
    rw [hnone] at hat
    cases hat
  | pending hentry hstream ha | ended hentry hstream ha =>
    cases (streamAt_of hentry hstream).symm.trans hat
    rw [ha] at hready
    exact absurd rfl hready
  | item | failed | stopped => rfl

end Visits

section Positions

variable {s s' : MultiNotificationStream} {index : Nat} {y : Option (Yield ν ε)}

/-- Which watches the consumer holds, and how often each was polled. -/
def positions (s : MultiNotificationStream) : List (Nat × Nat) := s.streams.map fun st => (st.watch, st.polled)

/-- A stream polled once more moves forward by one; one moved to the stopped ones stays held. -/
theorem positions_setStream (hentry : s.entries[index]? = some entry) (hstream : entry.stream = some stream) :
    ∃ rest, s.positions.Perm ((stream.watch, stream.polled) :: rest) ∧
      (s.setStream index (some stream.poll)).positions.Perm ((stream.watch, stream.polled + 1) :: rest) ∧
      (s.retire index stream.poll).positions.Perm ((stream.watch, stream.polled + 1) :: rest) := by
  obtain ⟨running, hbefore, hafter⟩ := Lib.perm_modify Entry.stream hentry
  rw [hstream] at hbefore
  refine ⟨(running ++ s.stopped).map fun st => (st.watch, st.polled), ?_, ?_, ?_⟩
  · exact (hbefore.append_right s.stopped).map fun st => (st.watch, st.polled)
  · exact ((hafter fun e => { e with stream := some stream.poll }).append_right s.stopped).map
      fun st => (st.watch, st.polled)
  · have hretired : (s.retire index stream.poll).streams.Perm (running ++ (s.stopped ++ [stream.poll])) :=
      (hafter fun e => { e with stream := none }).append_right (s.stopped ++ [stream.poll])
    rw [← List.append_assoc] at hretired
    exact (hretired.trans (List.perm_append_singleton _ _)).map fun st => (st.watch, st.polled)

theorem positions_cancelAll (s : MultiNotificationStream) : s.cancelAll.positions.Perm s.positions := by
  have hempty : s.cancelAll.entries.filterMap (·.stream) = [] := by
    simp [cancelAll, List.filterMap_map]
  rw [positions, positions, streams, streams, hempty, List.nil_append, cancelAll, List.map_append, List.map_append,
    List.map_map]
  exact List.perm_append_comm

/-- A visit polls at most the watch of its entry, and yields what that one answers. -/
theorem visit_positions (h : Visit answers s index y s')
    (hhoused : ∀ i stream, s.streamAt i = some stream → stream.watch = i) :
    y = none ∧ s'.positions = s.positions ∨
      ∃ entry k rest, s.entries[index]? = some entry ∧ s.positions.Perm ((index, k) :: rest) ∧
        s'.positions.Perm ((index, k + 1) :: rest) ∧
        y = (itemOf (answers index k)).map fun item => ⟨index, entry.name, item⟩ := by
  cases h with
  | skip => exact .inl ⟨rfl, rfl⟩
  | pending hentry hstream ha =>
    obtain ⟨rest, hbefore, hset, -⟩ := positions_setStream hentry hstream
    cases hhoused index _ (streamAt_of hentry hstream)
    exact .inr ⟨_, _, rest, hentry, hbefore, hset, by rw [ha]; rfl⟩
  | item notification hentry hstream ha =>
    obtain ⟨rest, hbefore, hset, -⟩ := positions_setStream hentry hstream
    cases hhoused index _ (streamAt_of hentry hstream)
    exact .inr ⟨_, _, rest, hentry, hbefore, hset, by rw [ha]; rfl⟩
  | failed error hentry hstream ha =>
    obtain ⟨rest, hbefore, -, hretired⟩ := positions_setStream hentry hstream
    cases hhoused index _ (streamAt_of hentry hstream)
    exact .inr ⟨_, _, rest, hentry, hbefore, hretired, by rw [ha]; rfl⟩
  | stopped error hentry hstream ha =>
    obtain ⟨rest, hbefore, -, hretired⟩ := positions_setStream hentry hstream
    cases hhoused index _ (streamAt_of hentry hstream)
    exact .inr ⟨_, _, rest, hentry, hbefore, (positions_cancelAll _).trans hretired, by rw [ha]; rfl⟩
  | ended hentry hstream ha =>
    obtain ⟨rest, hbefore, -, hretired⟩ := positions_setStream hentry hstream
    cases hhoused index _ (streamAt_of hentry hstream)
    exact .inr ⟨_, _, rest, hentry, hbefore, hretired, by rw [ha]; rfl⟩

end Positions

section Accounts

variable {s s' : MultiNotificationStream} {index : Nat} {y : Option (Yield ν ε)} {names : List String}
  {policy : ErrorPolicy} {seen : List (Yield ν ε)}

/-- What the consumer holds accounts for what was yielded. -/
structure Accounted (answers : Nat → Nat → Poll (Option (Except ε ν))) (names : List String) (policy : ErrorPolicy)
    (seen : List (Yield ν ε)) (s : MultiNotificationStream) : Prop where
  constants : s.constants = (names, policy)
  housed : ∀ i stream, s.streamAt i = some stream → stream.watch = i
  kept : (s.positions.map Prod.fst).Perm (List.range names.length)
  conserved : ∀ p ∈ s.positions, itemsOf p.1 seen = taken answers p.1 p.2
  named : ∀ y ∈ seen, names[y.index]? = some y.name
  turn : 0 < names.length → s.next < names.length

theorem taken_succ (answers : Nat → Nat → Poll (Option (Except ε ν))) (watch k : Nat) :
    taken answers watch (k + 1) = taken answers watch k ++ (itemOf (answers watch k)).toList := by
  rw [taken, List.range_succ, List.filterMap_append]
  cases h : itemOf (answers watch k) <;> simp [taken, h]

theorem itemsOf_append (watch : Nat) (seen later : List (Yield ν ε)) :
    itemsOf watch (seen ++ later) = itemsOf watch seen ++ itemsOf watch later :=
  List.filterMap_append

/-- What a visited watch answers is its next item, and no other watch's. -/
theorem itemsOf_visit (watch index : Nat) (name : String) (item : Option (Except ε ν)) :
    itemsOf watch (item.map fun item => (⟨index, name, item⟩ : Yield ν ε)).toList =
      if index = watch then item.toList else [] := by
  cases item with
  | none => simp [itemsOf]
  | some item => by_cases h : index = watch <;> simp [itemsOf, h]

theorem Accounted.length (h : Accounted answers names policy seen s) : s.entries.length = names.length := by
  have hnames : s.entries.map (·.name) = names := congrArg Prod.fst h.constants
  simpa using congrArg List.length hnames

theorem Accounted.visit (h : Accounted answers names policy seen s) (hv : Visit answers s index y s') :
    Accounted answers names policy (seen ++ y.toList) s' := by
  have hconstants : s'.constants = (names, policy) := (visit_constants hv).trans h.constants
  have hhoused : ∀ i stream, s'.streamAt i = some stream → stream.watch = i := by
    intro i stream hat
    rcases visit_streamAt hv i with hsame | hnone | ⟨stream', hbefore, hpolled⟩
    · exact h.housed i stream (hsame ▸ hat)
    · rw [hnone] at hat
      cases hat
    · cases hpolled.symm.trans hat
      exact h.housed i stream' hbefore
  have hturn : 0 < names.length → s'.next < names.length := by
    intro hpos
    rw [visit_next hv]
    cases y with
    | none => exact h.turn hpos
    | some y =>
      rw [Option.elim_some, h.length]
      exact Nat.mod_lt _ hpos
  rcases visit_positions hv h.housed with ⟨rfl, hsame⟩ | ⟨entry, k, rest, hentry, hbefore, hafter, rfl⟩
  · rw [Option.toList_none, List.append_nil]
    exact ⟨hconstants, hhoused, hsame ▸ h.kept, hsame ▸ h.conserved, h.named, hturn⟩
  · have hkept : (index :: rest.map Prod.fst).Perm (List.range names.length) :=
      (hbefore.map Prod.fst).symm.trans h.kept
    refine ⟨hconstants, hhoused, (hafter.map Prod.fst).trans hkept, ?_, ?_, hturn⟩
    · intro p hp
      rw [itemsOf_append, itemsOf_visit]
      rcases List.mem_cons.mp (hafter.mem_iff.mp hp) with rfl | hrest
      · have hitems := h.conserved (index, k) (hbefore.mem_iff.mpr List.mem_cons_self)
        rw [if_pos rfl, hitems, taken_succ]
      · have hother : index ≠ p.1 := by
          rintro rfl
          have hnodup := hkept.nodup_iff.mpr List.nodup_range
          exact (List.nodup_cons.mp hnodup).1 (List.mem_map_of_mem hrest)
        rw [if_neg hother, List.append_nil]
        exact h.conserved p (hbefore.mem_iff.mpr (List.mem_cons_of_mem _ hrest))
    · intro y hy
      rcases List.mem_append.mp hy with hseen | hnew
      · exact h.named y hseen
      · obtain ⟨item, -, rfl⟩ := Option.map_eq_some_iff.mp (Option.mem_toList.mp hnew)
        have hnames : s.entries.map (·.name) = names := congrArg Prod.fst h.constants
        rw [← hnames, List.getElem?_map, hentry]
        rfl

theorem accounted_start (names : List String) (policy : ErrorPolicy) :
    Accounted answers names policy [] (watchMany names policy) := by
  have hstreams : (watchMany names policy).streams =
      (List.range names.length).map fun i => (⟨i, 0, false⟩ : NotificationStream) := by
    rw [List.range_eq_range', ← List.zipIdx_map_snd 0 names, List.map_map]
    simp [streams, watchMany, new, List.filterMap_map, Function.comp_def]
  constructor
  · simp [constants, watchMany, new, Function.comp_def]
  · intro i stream hat
    simp only [streamAt, watchMany, new, List.getElem?_map, List.getElem?_zipIdx, Option.map_map] at hat
    cases hname : names[i]? with
    | none =>
      rw [hname] at hat
      cases hat
    | some name =>
      rw [hname] at hat
      cases hat
      exact Nat.zero_add i
  · simp [positions, hstreams, Function.comp_def]
  · intro p hp
    rw [positions, hstreams] at hp
    obtain ⟨_, hstream, rfl⟩ := List.mem_map.mp hp
    obtain ⟨i, -, rfl⟩ := List.mem_map.mp hstream
    rfl
  · intro y hy
    cases hy
  · exact id

/-- A scan visits entries one after another, until one yields. -/
theorem scan_cons (answers : Nat → Nat → Poll (Option (Except ε ν))) (offset : Nat) (offsets : List Nat)
    (s : MultiNotificationStream) :
    scan answers (offset :: offsets) s =
      if (visit answers s ((s.next + offset) % s.entries.length)).1.isSome then
        visit answers s ((s.next + offset) % s.entries.length)
      else scan answers offsets (visit answers s ((s.next + offset) % s.entries.length)).2 := by
  rw [scan]
  rcases visit answers s ((s.next + offset) % s.entries.length) with ⟨_ | y, mid⟩ <;> rfl

theorem Accounted.scan (h : Accounted answers names policy seen s) (offsets : List Nat) :
    Accounted answers names policy (seen ++ (scan answers offsets s).1.toList) (scan answers offsets s).2 := by
  induction offsets generalizing s seen with
  | nil => simpa [MultiNotificationStream.scan] using h
  | cons offset offsets ih =>
    have hvisit := h.visit (visit_spec answers s ((s.next + offset) % s.entries.length))
    rw [scan_cons]
    split
    · exact hvisit
    · rename_i hnone
      rw [Option.not_isSome_iff_eq_none.mp hnone, Option.toList_none, List.append_nil] at hvisit
      exact ih hvisit

theorem pollNext_snd (answers : Nat → Nat → Poll (Option (Except ε ν))) (s : MultiNotificationStream) :
    (pollNext answers s).2 = (scan answers (List.range s.entries.length) s).2 := by
  rw [pollNext]
  rcases scan answers (List.range s.entries.length) s with ⟨_ | y, mid⟩ <;> rfl

theorem yieldOf_pollNext (answers : Nat → Nat → Poll (Option (Except ε ν))) (s : MultiNotificationStream) :
    yieldOf (pollNext answers s).1 = (scan answers (List.range s.entries.length) s).1 := by
  rw [pollNext]
  rcases scan answers (List.range s.entries.length) s with ⟨_ | y, mid⟩
  · dsimp only
    split <;> rfl
  · rfl

theorem Accounted.pollNext (h : Accounted answers names policy seen s) :
    Accounted answers names policy (seen ++ (yieldOf (pollNext answers s).1).toList) (pollNext answers s).2 := by
  rw [yieldOf_pollNext, pollNext_snd]
  exact h.scan _

theorem yields_cons (out : Poll (Option (Yield ν ε))) (outs : List (Poll (Option (Yield ν ε)))) :
    yields (out :: outs) = (yieldOf out).toList ++ yields outs := by
  cases h : yieldOf out <;> simp [yields, h]

theorem Accounted.polls (h : Accounted answers names policy seen s) (m : Nat) :
    Accounted answers names policy (seen ++ yields (polls answers m s).1) (polls answers m s).2 := by
  induction m generalizing s seen with
  | zero => simpa [MultiNotificationStream.polls, yields] using h
  | succ m ih =>
    rw [MultiNotificationStream.polls, yields_cons, ← List.append_assoc]
    exact ih h.pollNext

end Accounts

section Ends

variable {s s' : MultiNotificationStream} {index : Nat} {y : Option (Yield ν ε)}

theorem idle_iff (s : MultiNotificationStream) :
    (∀ e ∈ s.entries, e.stream = none) ↔ ∀ i, s.streamAt i = none := by
  constructor
  · intro h i
    rw [streamAt]
    cases hentry : s.entries[i]? with
    | none => rfl
    | some e => exact h e (List.mem_of_getElem? hentry)
  · intro h e he
    obtain ⟨i, hi⟩ := List.mem_iff_getElem?.mp he
    have hnone := h i
    rw [streamAt, hi] at hnone
    exact hnone

theorem running_nil : s.running = [] ↔ ∀ i, s.streamAt i = none := by
  rw [← idle_iff, running, List.map_eq_nil_iff, List.filter_eq_nil_iff]
  simp

theorem all_isNone : s.entries.all (·.stream.isNone) = true ↔ s.running = [] := by
  rw [running_nil, ← idle_iff, List.all_eq_true]
  simp

/-- A poll says the end exactly when it yields nothing and no watch is left running. -/
theorem pollNext_ended (answers : Nat → Nat → Poll (Option (Except ε ν))) (s : MultiNotificationStream) :
    (pollNext answers s).1 = .ready none ↔
      yieldOf (pollNext answers s).1 = none ∧ (pollNext answers s).2.running = [] := by
  rw [pollNext]
  rcases scan answers (List.range s.entries.length) s with ⟨_ | y, mid⟩
  · dsimp only
    split
    · rename_i hall
      exact iff_of_true rfl ⟨rfl, all_isNone.mp hall⟩
    · rename_i hsome
      refine iff_of_false (by simp) ?_
      intro h
      exact hsome (all_isNone.mpr h.2)
  · exact iff_of_false (by simp) fun h => by cases h.1

theorem visit_idle (h : s.streamAt index = none) : visit answers s index = (none, s) := by
  rw [visit]
  cases hentry : s.entries[index]? with
  | none => rfl
  | some entry =>
    rw [streamAt, hentry, Option.bind_some] at h
    simp only [h]

theorem scan_over (h : ∀ i, s.streamAt i = none) (offsets : List Nat) : scan answers offsets s = (none, s) := by
  induction offsets with
  | nil => rfl
  | cons offset offsets ih =>
    rw [scan_cons, visit_idle (h _)]
    exact ih

theorem pollNext_over (h : s.running = []) : pollNext answers s = (.ready none, s) := by
  rw [pollNext, scan_over (running_nil.mp h)]
  simp only [all_isNone.mpr h, if_true]

theorem polls_over (h : s.running = []) (m : Nat) :
    polls answers m s = (List.replicate m (.ready none), s) := by
  induction m with
  | zero => rfl
  | succ m ih => rw [polls, pollNext_over h, ih, List.replicate_succ]

theorem visit_error {y : Yield ν ε} (hpolicy : s.policy = .stop) (h : Visit answers s index (some y) s')
    (herror : y.item = .error e) : s'.running = [] := by
  cases h with
  | item => cases herror
  | failed _ _ _ _ hcontinues => exact absurd hpolicy hcontinues
  | stopped => exact running_nil.mpr (streamAt_cancelAll _)

/-- Under the stop policy an error ends every watch. -/
theorem scan_error {y : Yield ν ε} (hpolicy : s.policy = .stop) (offsets : List Nat)
    (hy : (scan answers offsets s).1 = some y) (herror : y.item = .error e) :
    (scan answers offsets s).2.running = [] := by
  induction offsets generalizing s with
  | nil => cases hy
  | cons offset offsets ih =>
    have hv := visit_spec answers s ((s.next + offset) % s.entries.length)
    rw [scan_cons] at hy ⊢
    split at hy
    · rename_i hsome
      rw [if_pos hsome]
      rw [hy] at hv
      exact visit_error hpolicy hv herror
    · rename_i hnone
      rw [if_neg hnone]
      exact ih ((congrArg Prod.snd (visit_constants hv)).trans hpolicy) hy

theorem pollNext_error {y : Yield ν ε} (hpolicy : s.policy = .stop) (hy : (pollNext answers s).1 = .ready (some y))
    (herror : y.item = .error e) : (pollNext answers s).2.running = [] := by
  have hscan : (scan answers (List.range s.entries.length) s).1 = some y := by
    rw [← yieldOf_pollNext, hy]
    rfl
  rw [pollNext_snd]
  exact scan_error hpolicy _ hscan herror

theorem polls_error {y : Yield ν ε} {outs : List (Poll (Option (Yield ν ε)))} (m : Nat)
    (h : Accounted answers names .stop seen s)
    (houts : (polls answers m s).1 = outs ++ .ready (some y) :: after) (herror : y.item = .error e) :
    (polls answers m s).2.running = [] ∧ ∀ out ∈ after, out = .ready none := by
  induction m generalizing s seen outs with
  | zero => simp [polls] at houts
  | succ m ih =>
    rw [polls] at houts ⊢
    cases outs with
    | nil =>
      obtain ⟨hfirst, rfl⟩ := List.cons.inj houts
      have hover := pollNext_error (congrArg Prod.snd h.constants) hfirst herror
      rw [polls_over hover]
      exact ⟨hover, fun out hout => List.eq_of_mem_replicate hout⟩
    | cons out outs => exact ih h.pollNext (List.cons.inj houts).2

theorem close_perm (s : MultiNotificationStream) :
    (s.close.map (·.watch)).Perm (s.positions.map Prod.fst) := by
  have hclose : s.close.map (·.watch) = s.cancelAll.positions.map Prod.fst := by
    have hempty : s.cancelAll.entries.filterMap (·.stream) = [] := by
      simp [cancelAll, List.filterMap_map]
    rw [positions, streams, hempty, List.nil_append, List.map_map]
    rfl
  rw [hclose]
  exact (positions_cancelAll s).map _

theorem close_cancelled (h : stream ∈ s.close) : stream ∈ s.stopped ∨ stream.cancelled = true := by
  rcases List.mem_append.mp h with hstopped | hcancelled
  · exact .inl hstopped
  · obtain ⟨st, -, rfl⟩ := List.mem_map.mp hcancelled
    exact .inr rfl

end Ends

section Fairness

variable {s s' : MultiNotificationStream}

/-- A scan that comes to a watch with an item yields, there or before. -/
theorem scan_meets (hlength : s.entries.length = n) (hnext : s.next < n) (hi : i < n)
    (hat : s.streamAt i = some stream) (hready : itemOf (answers stream.watch stream.polled) ≠ none)
    (offsets : List Nat) (hsorted : offsets.Pairwise (· < ·)) (hlt : ∀ o ∈ offsets, o < n)
    (hmem : ahead n s.next i ∈ offsets) :
    ∃ y o, (scan answers offsets s).1 = some y ∧ o ≤ ahead n s.next i ∧ y.index = (s.next + o) % n ∧
      (scan answers offsets s).2.next = (y.index + 1) % n ∧ (scan answers offsets s).2.entries.length = n ∧
      (o < ahead n s.next i → (scan answers offsets s).2.streamAt i = some stream ∨
        (scan answers offsets s).2.running = []) := by
  induction offsets generalizing s with
  | nil => cases hmem
  | cons o offsets ih =>
    have hv := visit_spec answers s ((s.next + o) % n)
    have ho : o < n := hlt o List.mem_cons_self
    have hhere : (s.next + o) % n = i ↔ o = ahead n s.next i := Lib.ring_eq_iff hnext hi ho
    rw [scan_cons, hlength]
    cases hy : (visit answers s ((s.next + o) % n)).1 with
    | some y =>
      rw [hy] at hv
      rw [Option.isSome_some, if_pos rfl]
      have hle : o ≤ ahead n s.next i := by
        rcases List.mem_cons.mp hmem with heq | hlater
        · exact heq.ge
        · exact ((List.pairwise_cons.mp hsorted).1 _ hlater).le
      refine ⟨y, o, hy, hle, visit_index hv, ?_, (visit_length hv).trans hlength, ?_⟩
      · rw [visit_next hv, Option.elim_some, hlength]
      · intro hbefore
        rcases visit_others hv (fun heq => hbefore.ne (hhere.mp heq.symm)) with hsame | ⟨-, hnone⟩
        · exact .inl (hsame.trans hat)
        · exact .inr (running_nil.mpr hnone)
    | none =>
      have hpast : o ≠ ahead n s.next i := by
        intro heq
        rw [hhere.mpr heq] at hv hy
        have hsome := visit_ready hv hat hready
        rw [hy] at hsome
        cases hsome
      rw [hy] at hv
      rw [Option.isSome_none, if_neg Bool.false_ne_true]
      have hsame : (visit answers s ((s.next + o) % n)).2.streamAt i = some stream := by
        rcases visit_others hv (fun heq => hpast (hhere.mp heq.symm)) with hsame | ⟨hsome, -⟩
        · exact hsame.trans hat
        · cases hsome
      have hturn : (visit answers s ((s.next + o) % n)).2.next = s.next := visit_next hv
      have hlater : ahead n s.next i ∈ offsets := by
        rcases List.mem_cons.mp hmem with heq | hlater
        · exact absurd heq.symm hpast
        · exact hlater
      have hrest := ih ((visit_length hv).trans hlength) (by rw [hturn]; exact hnext) hsame
        (List.pairwise_cons.mp hsorted).2 (fun o ho => hlt o (List.mem_cons_of_mem _ ho))
        (by rw [hturn]; exact hlater)
      rwa [hturn] at hrest

/-- A poll with a ready watch yields, there or before. -/
theorem pollNext_meets (hlength : s.entries.length = n) (hnext : s.next < n) (hi : i < n)
    (hat : s.streamAt i = some stream) (hready : itemOf (answers stream.watch stream.polled) ≠ none) :
    ∃ y o, yieldOf (pollNext answers s).1 = some y ∧ o ≤ ahead n s.next i ∧ y.index = (s.next + o) % n ∧
      (pollNext answers s).2.next = (y.index + 1) % n ∧ (pollNext answers s).2.entries.length = n ∧
      (o < ahead n s.next i → (pollNext answers s).2.streamAt i = some stream ∨
        (pollNext answers s).2.running = []) := by
  rw [yieldOf_pollNext, pollNext_snd, hlength]
  exact scan_meets hlength hnext hi hat hready (List.range n) List.pairwise_lt_range
    (fun o ho => List.mem_range.mp ho) (List.mem_range.mpr (Lib.ahead_lt hnext hi))

/-- A watch that is always ready has its turn before the ring has gone round once. -/
theorem polls_fair (hlength : s.entries.length = n) (hnext : s.next < n) (hi : i < n)
    (hat : s.streamAt i = some stream) (hwatch : stream.watch = i)
    (hready : ∀ k ≥ stream.polled, itemOf (answers i k) ≠ none) (m : Nat) :
    (∃ y ∈ (yields (polls answers m s).1).take (ahead n s.next i + 1), y.index = i) ∨
      (yields (polls answers m s).1).length ≤ ahead n s.next i := by
  induction m generalizing s with
  | zero => exact .inr (Nat.zero_le _)
  | succ m ih =>
    have hnow : itemOf (answers stream.watch stream.polled) ≠ none := hwatch ▸ hready _ le_rfl
    obtain ⟨y, o, hy, hle, hindex, hturn, hlength', hlater⟩ := pollNext_meets hlength hnext hi hat hnow
    have hring : ((s.next + o) % n + 1) % n < n := Nat.mod_lt _ (by omega)
    rw [polls, yields_cons, hy, Option.toList_some, List.singleton_append, List.take_succ_cons, List.length_cons]
    rcases hle.lt_or_eq with hbefore | rfl
    · rcases hlater hbefore with hsame | hover
      · have hnearer := Lib.ahead_after hnext hi hbefore
        have hrest := ih hlength' (by rw [hturn, hindex]; exact hring) hsame
        rw [hturn, hindex, hnearer] at hrest
        rcases hrest with ⟨y', hy', hserved⟩ | hshort
        · refine .inl ⟨y', List.mem_cons_of_mem _ ?_, hserved⟩
          exact (List.take_sublist_take_left (by omega)).subset hy'
        · exact .inr (by omega)
      · rw [polls_over hover]
        refine .inr ?_
        have hsilent : yields (List.replicate m (Poll.ready none) : List (Poll (Option (Yield ν ε)))) = [] := by
          simp [yields, yieldOf]
        rw [hsilent, List.length_nil]
        omega
    · refine .inl ⟨y, List.mem_cons_self, ?_⟩
      rw [hindex]
      exact (Lib.ring_eq_iff hnext hi (Lib.ahead_lt hnext hi)).mpr rfl

end Fairness

section Failures

variable {s s' : MultiNotificationStream} {index : Nat} {y : Option (Yield ν ε)} {seen : List (Yield ν ε)}

/-- The watches whose errors were yielded. -/
def failedWatches (seen : List (Yield ν ε)) : List Nat := (seen.filter fun y => !y.item.isOk).map (·.index)

/-- A watch that failed runs no more, so it fails once, and yields nothing after it. -/
structure Failing (seen : List (Yield ν ε)) (s : MultiNotificationStream) : Prop where
  once : (failedWatches seen).Nodup
  bounded : ∀ i ∈ failedWatches seen, i < s.entries.length
  idle : ∀ i ∈ failedWatches seen, s.streamAt i = none
  last : ∀ y, seen.getLast? = some y → y.item.isOk = true → y.index ∉ failedWatches seen

theorem failedWatches_snoc (seen : List (Yield ν ε)) (y : Yield ν ε) :
    failedWatches (seen ++ [y]) = failedWatches seen ++ if y.item.isOk then [] else [y.index] := by
  rw [failedWatches, List.filter_append, List.map_append, failedWatches]
  cases h : y.item.isOk <;> simp [h]

theorem Failing.stays (h : Failing seen s) (hv : Visit answers s index y s') (hi : i ∈ failedWatches seen) :
    s'.streamAt i = none := by
  rcases visit_streamAt hv i with hsame | hnone | ⟨stream, hat, -⟩
  · exact hsame.trans (h.idle i hi)
  · exact hnone
  · rw [h.idle i hi] at hat
    cases hat

/-- The error of a watch is yielded while the watch runs, and ends it. -/
theorem Failing.fails (h : Failing seen s) (hv : Visit answers s index y s') (hat : s.streamAt index = some stream)
    (hgone : s'.streamAt index = none) {failed : Yield ν ε} (hindex : failed.index = index)
    (hfailed : failed.item.isOk = false) : Failing (seen ++ [failed]) s' := by
  have hnew : index ∉ failedWatches seen := by
    intro hmem
    rw [h.idle index hmem] at hat
    cases hat
  have hlist : failedWatches (seen ++ [failed]) = failedWatches seen ++ [index] := by
    rw [failedWatches_snoc, hfailed, if_neg Bool.false_ne_true, hindex]
  refine ⟨?_, ?_, ?_, ?_⟩
  · rw [hlist, List.nodup_append]
    refine ⟨h.once, by simp, ?_⟩
    intro i hi j hj heq
    rw [List.mem_singleton.mp hj] at heq
    exact hnew (heq ▸ hi)
  · intro i hi
    rw [visit_length hv]
    rcases List.mem_append.mp (hlist ▸ hi) with hbefore | hlast
    · exact h.bounded i hbefore
    · rw [List.mem_singleton.mp hlast]
      exact streamAt_lt hat
  · intro i hi
    rcases List.mem_append.mp (hlist ▸ hi) with hbefore | hlast
    · exact h.stays hv hbefore
    · rw [List.mem_singleton.mp hlast]
      exact hgone
  · intro y hy hok
    rw [List.getLast?_concat] at hy
    cases hy
    rw [hfailed] at hok
    cases hok

theorem Failing.goes_on (h : Failing seen s) (hv : Visit answers s index y s') : Failing seen s' :=
  ⟨h.once, fun i hi => visit_length hv ▸ h.bounded i hi, fun _ hi => h.stays hv hi, h.last⟩

theorem Failing.visit (h : Failing seen s) (hv : Visit answers s index y s') : Failing (seen ++ y.toList) s' := by
  have hnext := h.goes_on hv
  cases hv with
  | skip | pending | ended =>
    rw [Option.toList_none, List.append_nil]
    exact hnext
  | @item entry _ notification hentry hstream ha =>
    have hsame : failedWatches (seen ++ [⟨index, entry.name, .ok notification⟩]) = failedWatches seen := by
      rw [failedWatches_snoc]
      exact List.append_nil _
    refine ⟨hsame ▸ hnext.once, hsame ▸ hnext.bounded, hsame ▸ hnext.idle, ?_⟩
    intro y hy hok hmem
    rw [Option.toList_some, List.getLast?_concat] at hy
    cases hy
    have hidle := h.idle index (hsame ▸ hmem)
    rw [streamAt_of hentry hstream] at hidle
    cases hidle
  | failed error hentry hstream ha hpolicy =>
    exact h.fails (.failed error hentry hstream ha hpolicy) (streamAt_of hentry hstream)
      (streamAt_setStream_self none hentry) rfl rfl
  | stopped error hentry hstream ha hpolicy =>
    exact h.fails (.stopped error hentry hstream ha hpolicy) (streamAt_of hentry hstream)
      (streamAt_cancelAll _ _) rfl rfl

theorem Failing.scan (h : Failing seen s) (offsets : List Nat) :
    Failing (seen ++ (scan answers offsets s).1.toList) (scan answers offsets s).2 := by
  induction offsets generalizing s seen with
  | nil => simpa [MultiNotificationStream.scan] using h
  | cons offset offsets ih =>
    have hvisit := h.visit (visit_spec answers s ((s.next + offset) % s.entries.length))
    rw [scan_cons]
    split
    · exact hvisit
    · rename_i hnone
      rw [Option.not_isSome_iff_eq_none.mp hnone, Option.toList_none, List.append_nil] at hvisit
      exact ih hvisit

theorem Failing.pollNext (h : Failing seen s) :
    Failing (seen ++ (yieldOf (pollNext answers s).1).toList) (pollNext answers s).2 := by
  rw [yieldOf_pollNext, pollNext_snd]
  exact h.scan _

/-- As many failures as watches means that every watch failed. -/
theorem Failing.all (h : Failing seen s) :
    (failedWatches seen).length = s.entries.length ↔ ∀ i < s.entries.length, i ∈ failedWatches seen := by
  have hsub : (failedWatches seen).Subperm (List.range s.entries.length) :=
    List.subperm_of_subset h.once fun i hi => List.mem_range.mpr (h.bounded i hi)
  constructor
  · intro hlength i hi
    have hperm := hsub.perm_of_length_le (by rw [List.length_range, hlength])
    exact hperm.mem_iff.mpr (List.mem_range.mpr hi)
  · intro hall
    have hback : (List.range s.entries.length).Subperm (failedWatches seen) :=
      List.subperm_of_subset List.nodup_range fun i hi => hall i (List.mem_range.mp hi)
    rw [(hsub.antisymm hback).length_eq, List.length_range]

/-- The answer ends a watch. -/
def Closes (answers : Nat → Nat → Poll (Option (Except ε ν))) (watch k : Nat) : Prop :=
  answers watch k = .ready none ∨ ∃ error, answers watch k = .ready (some (.error error))

/-- A stream kept for `close` was polled to its end. -/
def Retired (answers : Nat → Nat → Poll (Option (Except ε ν))) (s : MultiNotificationStream) : Prop :=
  ∀ stream ∈ s.stopped, ∃ k, stream.polled = k + 1 ∧ Closes answers stream.watch k

theorem Retired.visit (h : Retired answers s) (hpolicy : s.policy = .continue) (hv : Visit answers s index y s') :
    Retired answers s' := by
  have hretire {stream : NotificationStream} (hcloses : Closes answers stream.watch stream.polled) :
      Retired answers (s.retire index stream.poll) := by
    intro kept hkept
    rcases List.mem_append.mp hkept with hbefore | hlast
    · exact h kept hbefore
    · rw [List.mem_singleton.mp hlast]
      exact ⟨stream.polled, rfl, hcloses⟩
  cases hv with
  | skip | pending | item => exact h
  | ended _ _ ha => exact hretire (.inl ha)
  | failed error _ _ ha => exact hretire (.inr ⟨error, ha⟩)
  | stopped _ _ _ _ hstop =>
    rw [hpolicy] at hstop
    cases hstop

theorem Retired.scan (h : Retired answers s) (hpolicy : s.policy = .continue) (offsets : List Nat) :
    Retired answers (scan answers offsets s).2 := by
  induction offsets generalizing s with
  | nil => exact h
  | cons offset offsets ih =>
    have hv := visit_spec answers s ((s.next + offset) % s.entries.length)
    have hvisit := h.visit hpolicy hv
    rw [scan_cons]
    split
    · exact hvisit
    · exact ih hvisit ((congrArg Prod.snd (visit_constants hv)).trans hpolicy)

theorem Retired.pollNext (h : Retired answers s) (hpolicy : s.policy = .continue) :
    Retired answers (pollNext answers s).2 := by
  rw [pollNext_snd]
  exact h.scan hpolicy _

/-- A merged stream that has ended has read every watch to its end. -/
theorem Accounted.drained {names : List String} {policy : ErrorPolicy}
    (h : Accounted answers names policy seen s) (hretired : Retired answers s) (hover : s.running = [])
    (hi : i < names.length) : ∃ k, itemsOf i seen = taken answers i (k + 1) ∧ Closes answers i k := by
  have hmem : i ∈ s.positions.map Prod.fst := h.kept.mem_iff.mpr (List.mem_range.mpr hi)
  obtain ⟨p, hp, rfl⟩ := List.mem_map.mp hmem
  have hitems := h.conserved p hp
  obtain ⟨stream, hstream, rfl⟩ := List.mem_map.mp hp
  have hstopped : stream ∈ s.stopped := by
    refine (List.mem_append.mp hstream).resolve_left ?_
    intro hentry
    obtain ⟨e, he, hsome⟩ := List.mem_filterMap.mp hentry
    rw [(idle_iff s).mpr (running_nil.mp hover) e he] at hsome
    cases hsome
  obtain ⟨k, hpolled, hcloses⟩ := hretired stream hstopped
  exact ⟨k, by rw [hitems, hpolled], hcloses⟩

end Failures

/-- The merged stream loses, repeats and reorders nothing, keeps every watch, and takes the watches in turn. -/
theorem merge_law (answers : Nat → Nat → Poll (Option (Except ε ν))) (names : List String) (policy : ErrorPolicy)
    (m : Nat) :
    Merged answers names policy (polls answers m (watchMany names policy)).1
      (polls answers m (watchMany names policy)).2 := by
  have hstart : Accounted answers names policy [] (watchMany names policy) := accounted_start names policy
  have h := hstart.polls m
  rw [List.nil_append] at h
  have hkept := h.kept
  rw [positions, List.map_map] at hkept
  exact {
    conserved := fun stream hstream => h.conserved _ (List.mem_map_of_mem hstream)
    named := h.named
    kept := hkept
    housed := h.housed
    busy := by
      intro i stream hat hready
      have hi := h.length ▸ streamAt_lt hat
      rw [← h.housed i stream hat] at hready
      obtain ⟨y, -, hy, -⟩ := pollNext_meets h.length (h.turn (by omega)) hi hat hready
      refine ⟨y, ?_⟩
      cases hout : (pollNext answers (polls answers m (watchMany names policy)).2).1 with
      | pending => rw [hout] at hy; cases hy
      | ready out => rw [hout] at hy; exact congrArg _ hy
    fair := by
      intro i stream hat hready k hk
      have hi := h.length ▸ streamAt_lt hat
      have hahead := Lib.ahead_lt (h.turn (by omega)) hi
      rcases polls_fair h.length (h.turn (by omega)) hi hat (h.housed i stream hat) hready k with
        ⟨y, hy, hserved⟩ | hshort
      · exact ⟨y, (List.take_sublist_take_left hahead).subset hy, hserved⟩
      · omega
    ended := pollNext_ended answers _
    finished := pollNext_over
    stops := by
      rintro rfl before y e after houts herror
      exact polls_error m hstart houts herror
    closes := ⟨(close_perm _).trans h.kept, fun stream => close_cancelled⟩ }

end Aviso.Watch.MultiNotificationStream
