import Aviso.Proofs.WatchHandle

namespace Aviso.Ffi

open Watch (ClientError Poll Reads)

section Accounts

variable {σ ι κ φ ρ : Type} {t : Task σ ι κ φ ρ}

/-- A task that calls C for some items and ends the loop for the others, and that keeps what the
answered calls say. -/
structure Readable (t : Task σ ι κ φ ρ) where
  callOf : ι → Option κ
  keptOf : List κ → φ
  fresh : t.fresh = keptOf []
  onItem : ∀ {kept item call}, t.onItem kept item = .ok call → ∃ i, item = some i ∧ callOf i = some call
  onReply : ∀ {calls call r kept}, t.onReply (keptOf calls) call r = .ok kept → kept = keptOf (calls ++ [call])

def Mark.call? : Mark κ → Option κ
  | .started call => some call
  | _ => none

/-- The calls of a trace. -/
def starts (trace : List (Mark κ)) : List κ := trace.filterMap Mark.call?

/-- Every item read from the stream was one to call C for, and the calls are those. -/
def Served (R : Readable t) (first : σ) (trace : List (Mark κ)) (s : σ) : Prop :=
  ∃ items : List ι, Reads t.poll first (items.map some) s ∧ items.map R.callOf = (starts trace).map some

/-- Why the loop ended: at a stop, at an item, or at the answer of the last call. -/
inductive Ended (R : Readable t) (first : σ) (trace : List (Mark κ)) : ρ → Prop where
  | stopped (hserved : Served R first trace s) (hstop : .stopRequested ∈ trace) : Ended R first trace t.graceful
  | item (hserved : Served R first trace s) (hpoll : t.poll s = (.ready item, s'))
      (hitem : t.onItem (R.keptOf (starts trace)) item = .error reason) : Ended R first trace reason
  | reply (hserved : Served R first trace s) (hstarts : starts trace = before ++ [call])
      (hmark : .returned call r ∈ trace) (hreply : t.onReply (R.keptOf before) call r = .error reason) :
      Ended R first trace reason

/-- What the trace says at a stage of the task. -/
def Told (R : Readable t) (first : σ) (trace : List (Mark κ)) : Stage σ κ φ ρ → Prop
  | .opening => starts trace = []
  | .checking l | .selecting l | .receiving l => Served R first trace l.stream ∧ l.kept = R.keptOf (starts trace)
  | .calling l call => Served R first trace l.stream ∧
      ∃ before, starts trace = before ++ [call] ∧ l.kept = R.keptOf before
  | .closing reason => Ended R first trace reason
  | .ending outcome | .inEnd outcome => ∃ reason, Ended R first trace reason ∧ t.outcome reason = outcome
  | .finished | .panicked => True

/-- What a run of a watch leaves at the boundary. -/
structure Account (R : Readable t) (first : σ) (w : AvisoWatch σ κ φ ρ) : Prop where
  told : Told R first w.trace w.stage
  served : ∃ s, Served R first w.trace s
  ended : ∀ outcome, .endStarted outcome ∈ w.trace →
    ∃ reason, Ended R first w.trace reason ∧ t.outcome reason = outcome

variable {R : Readable t} {first : σ} {trace : List (Mark κ)} {m : Mark κ} {w w' : AvisoWatch σ κ φ ρ}

theorem starts_snoc (trace : List (Mark κ)) (m : Mark κ) : starts (trace ++ [m]) = starts trace ++ m.call?.toList := by
  cases m <;> simp [starts, Mark.call?]

theorem starts_other (h : m.isStart = false) : starts (trace ++ [m]) = starts trace := by
  rw [starts_snoc]
  cases m with
  | started call => cases h
  | _ => exact List.append_nil _

theorem Served.snoc (h : Served R first trace s) (hm : m.isStart = false) : Served R first (trace ++ [m]) s := by
  unfold Served
  rw [starts_other hm]
  exact h

theorem Ended.snoc (h : Ended R first trace reason) (hm : m.isStart = false) :
    Ended R first (trace ++ [m]) reason := by
  cases h with
  | stopped hserved hstop => exact .stopped (hserved.snoc hm) (List.mem_append_left _ hstop)
  | item hserved hpoll hitem => exact .item (hserved.snoc hm) hpoll (by rwa [starts_other hm])
  | reply hserved hstarts hmark hreply =>
    exact .reply (hserved.snoc hm) (by rwa [starts_other hm]) (List.mem_append_left _ hmark) hreply

theorem Told.snoc {stage : Stage σ κ φ ρ} (h : Told R first trace stage) (hm : m.isStart = false) :
    Told R first (trace ++ [m]) stage := by
  cases stage with
  | opening => exact (starts_other hm).trans h
  | checking l | selecting l | receiving l => exact ⟨h.1.snoc hm, by rw [starts_other hm]; exact h.2⟩
  | calling l call => exact ⟨h.1.snoc hm, by rw [starts_other hm]; exact h.2⟩
  | closing reason => exact Ended.snoc h hm
  | ending outcome | inEnd outcome =>
    obtain ⟨reason, hended, houtcome⟩ := h
    exact ⟨reason, hended.snoc hm, houtcome⟩
  | finished | panicked => trivial

/-- A mark that starts no callback and is no end leaves the account as it is. -/
theorem Account.snoc {later : AvisoWatch σ κ φ ρ} (h : Account R first w) (hstart : m.isStart = false)
    (hend : m.isEnd = false) (hstage : later.stage = w.stage) (htrace : later.trace = w.trace ++ [m]) :
    Account R first later where
  told := by
    rw [hstage, htrace]
    exact h.told.snoc hstart
  served := by
    obtain ⟨s, hserved⟩ := h.served
    exact ⟨s, htrace ▸ hserved.snoc hstart⟩
  ended := by
    intro outcome hmem
    rw [htrace] at hmem ⊢
    rcases List.mem_append.mp hmem with hbefore | hlast
    · obtain ⟨reason, hended, houtcome⟩ := h.ended outcome hbefore
      exact ⟨reason, hended.snoc hstart, houtcome⟩
    · rw [← List.mem_singleton.mp hlast] at hend
      cases hend

theorem Account.handle (h : Account R first w) (hmove : AvisoWatch.HandleMove w w') : Account R first w' := by
  cases hmove with
  | raised | frees | refused | poisoned | again | joins | fails | unwinds => exact h.snoc rfl rfl rfl rfl
  | notified | waits | locks => exact ⟨h.told, h.served, h.ended⟩

/-- Where a step of the task leads is told by the trace with its mark. -/
theorem Told.move {source stage : Stage σ κ φ ρ} {m : Option (Mark κ)} {flag permit : Bool}
    (h : Told R first trace source) (hmove : AvisoWatch.TaskMove t flag permit source stage m)
    (hstop : flag = true ∨ permit = true → .stopRequested ∈ trace)
    (hopening : source = .opening → stage = .checking ⟨first, t.fresh⟩ ∨ stage = .panicked) :
    Told R first (trace ++ m.toList) stage := by
  cases hmove with
  | opened stream =>
    rcases hopening rfl with hstage | hstage
    · cases hstage
      have hnone : starts trace = [] := h
      rw [Option.toList_none, List.append_nil]
      exact ⟨⟨[], .start, by rw [hnone]; rfl⟩, by rw [hnone]; exact R.fresh⟩
    · cases hstage
  | refused outcome => rcases hopening rfl with hstage | hstage <;> cases hstage
  | stops hflag | wakes hpermit =>
    rw [Option.toList_none, List.append_nil]
    exact .stopped h.1 (hstop (by simp [*]))
  | goesOn | listens =>
    rw [Option.toList_none, List.append_nil]
    exact h
  | parks hpoll =>
    obtain ⟨⟨items, hreads, hcalls⟩, hkept⟩ := h
    rw [Option.toList_none, List.append_nil]
    exact ⟨⟨items, hreads.pending hpoll, hcalls⟩, hkept⟩
  | calls hpoll hitem =>
    obtain ⟨⟨items, hreads, hcalls⟩, hkept⟩ := h
    obtain ⟨i, rfl, hi⟩ := R.onItem hitem
    refine ⟨⟨items ++ [i], ?_, ?_⟩, starts trace, starts_snoc trace (.started _), hkept⟩
    · rw [List.map_append]
      exact hreads.ready hpoll
    · rw [Option.toList_some, starts_snoc, List.map_append, List.map_append, hcalls]
      simp [hi, Mark.call?]
  | leaves hpoll hitem =>
    rw [Option.toList_none, List.append_nil]
    exact .item h.1 hpoll (h.2 ▸ hitem)
  | replied r hreply =>
    obtain ⟨hserved, before, hstarts, hkept⟩ := h
    rw [hkept] at hreply
    refine ⟨hserved.snoc rfl, ?_⟩
    rw [Option.toList_some, starts_other rfl, hstarts]
    exact R.onReply hreply
  | declined r hreply =>
    obtain ⟨hserved, before, hstarts, hkept⟩ := h
    rw [hkept] at hreply
    exact .reply (hserved.snoc rfl) ((starts_other rfl).trans hstarts) (by simp) hreply
  | closed =>
    rw [Option.toList_none, List.append_nil]
    exact ⟨_, h, rfl⟩
  | @ends outcome =>
    have hnext : Told R first trace (.inEnd outcome) := h
    exact hnext.snoc rfl
  | finishes | openingFaults | receivingFaults | closingFaults => trivial

/-- The only way on from the opening is the stream the core opened. -/
theorem opening_step (h : AvisoWatch.step t w event = some w') (hstage : w.stage = .opening)
    (hopened : ∀ result, event = .opened result → result = .ok first) :
    w'.stage = .opening ∨ w'.stage = .checking ⟨first, t.fresh⟩ ∨ w'.stage = .panicked := by
  rcases AvisoWatch.step_cases h with ⟨htask, -⟩ | ⟨-, hmove⟩
  · cases event with
    | opened result =>
      obtain rfl := hopened result rfl
      simp only [AvisoWatch.step, hstage, Option.some.injEq] at h
      exact .inr (.inl (h ▸ rfl))
    | fault =>
      simp only [AvisoWatch.step, hstage, Option.some.injEq] at h
      exact .inr (.inr (h ▸ rfl))
    | advance => simp [AvisoWatch.step, AvisoWatch.advance, hstage] at h
    | replied r => simp [AvisoWatch.step, AvisoWatch.reply, hstage] at h
    | closed | endReturned => simp [AvisoWatch.step, hstage] at h
    | _ => cases htask
  · refine .inl ?_
    cases hmove <;> exact hstage

theorem Account.step (h : Account R first w) (hs : w.Sound) (hstep : AvisoWatch.step t w event = some w')
    (hopened : ∀ result, event = .opened result → result = .ok first) : Account R first w' := by
  have hopening := fun hstage => opening_step hstep hstage hopened
  rcases AvisoWatch.step_cases hstep with ⟨-, stage, m, permit, hmove, -, rfl⟩ | ⟨-, hmove⟩
  · have hstop : w.flag = true ∨ w.permit = true → .stopRequested ∈ w.trace := by
      rintro (hflag | hpermit)
      · exact hs.stopped.mpr hflag
      · exact hs.stopped.mpr (hs.sent (.inl hpermit))
    have hnext : w.stage = .opening → stage = .checking ⟨first, t.fresh⟩ ∨ stage = .panicked := by
      intro hstage
      rcases hopening hstage with hsame | hlater
      · rw [hstage] at hmove
        change stage = .opening at hsame
        rw [hsame] at hmove
        cases hmove
      · exact hlater
    have htold := h.told.move hmove hstop hnext
    obtain ⟨s, hserved⟩ := h.served
    cases m with
    | none =>
      have htrace : (w.taskStep stage none permit).trace = w.trace := List.append_nil _
      rw [Option.toList_none, List.append_nil] at htold
      exact ⟨htrace ▸ htold, ⟨s, htrace ▸ hserved⟩, htrace ▸ h.ended⟩
    | some m =>
      refine ⟨htold, ?_, ?_⟩
      · cases hstart : m.isStart with
        | false => exact ⟨s, hserved.snoc hstart⟩
        | true =>
          obtain ⟨l, call, rfl⟩ := hmove.calling hstart
          exact ⟨l.stream, htold.1⟩
      · intro outcome hmem
        rcases List.mem_append.mp hmem with hbefore | hlast
        · obtain ⟨reason, hended, houtcome⟩ := h.ended outcome hbefore
          cases hstart : m.isStart with
          | false => exact ⟨reason, hended.snoc hstart, houtcome⟩
          | true => exact absurd hbefore (hs.no_end (hmove.starts hstart).1 outcome)
        · obtain rfl := List.mem_singleton.mp hlast
          obtain rfl := hmove.inEnd
          exact htold
  · exact h.handle hmove

end Accounts

section Single

variable {ν : Type} {display : ClientError → Text} {answers : Nat → Poll (Option (Except ClientError ν))}

/-- A single watch calls C for its notifications. -/
def runWatchReadable (display : ClientError → Text) (answers : Nat → Poll (Option (Except ClientError ν))) :
    Readable (runWatch display answers) where
  callOf := fun
    | .ok notification => some notification
    | .error _ => none
  keptOf := fun _ => ()
  fresh := rfl
  onItem := by
    intro kept item call h
    rcases item with _ | (err | notification)
    · cases h
    · cases h
    · exact ⟨.ok notification, rfl, congrArg some (Except.ok.inj h)⟩
  onReply := fun _ => rfl

def readyOf {α : Type} : Poll α → Option α
  | .ready a => some a
  | .pending => none

def okOf : Option (Except ClientError ν) → Option ν
  | some (.ok notification) => some notification
  | _ => none

/-- The notifications among the first `k` answers. -/
def notifications (answers : Nat → Poll (Option (Except ClientError ν))) (k : Nat) : List ν :=
  ((List.range k).filterMap fun j => readyOf (answers j)).filterMap okOf

/-- The first `k` answers of the stream let the loop go on, and C was called for their notifications. -/
def Delivered (answers : Nat → Poll (Option (Except ClientError ν))) (k : Nat) (trace : List (Mark ν)) : Prop :=
  (∀ j < k, answers j = .pending ∨ ∃ notification, answers j = .ready (some (.ok notification))) ∧
    starts trace = notifications answers k

theorem reads_single {items : List (Option (Except ClientError ν))}
    (h : Reads (runWatch display answers).poll 0 items k) :
    (∀ j < k, answers j = .pending ∨ ∃ item ∈ items, answers j = .ready item) ∧
      items = (List.range k).filterMap fun j => readyOf (answers j) := by
  induction h with
  | start => exact ⟨fun j hj => absurd hj (Nat.not_lt_zero j), rfl⟩
  | pending h hpoll ih =>
    obtain ⟨hanswer, rfl⟩ := Prod.mk.inj hpoll
    refine ⟨?_, ?_⟩
    · intro j hj
      rcases Nat.lt_succ_iff_lt_or_eq.mp hj with hbefore | rfl
      · exact ih.1 j hbefore
      · exact .inl hanswer
    · rw [List.range_succ, List.filterMap_append, ← ih.2]
      simp [hanswer, readyOf]
  | ready h hpoll ih =>
    obtain ⟨hanswer, rfl⟩ := Prod.mk.inj hpoll
    refine ⟨?_, ?_⟩
    · intro j hj
      rcases Nat.lt_succ_iff_lt_or_eq.mp hj with hbefore | rfl
      · exact (ih.1 j hbefore).imp_right fun ⟨item, hmem, hitem⟩ => ⟨item, List.mem_append_left _ hmem, hitem⟩
      · exact .inr ⟨_, List.mem_append_right _ (List.mem_singleton.mpr rfl), hanswer⟩
    · rw [List.range_succ, List.filterMap_append, ← ih.2]
      simp [hanswer, readyOf]

/-- An item C was called for is a notification. -/
theorem items_single {items : List (Except ClientError ν)} {calls : List ν}
    (h : items.map (runWatchReadable display answers).callOf = calls.map some) : items = calls.map .ok := by
  induction items generalizing calls with
  | nil =>
    cases calls with
    | nil => rfl
    | cons call calls => cases h
  | cons item items ih =>
    cases calls with
    | nil => cases h
    | cons call calls =>
      obtain ⟨hhead, htail⟩ := List.cons.inj h
      cases item with
      | error err => cases hhead
      | ok notification => rw [Option.some.inj hhead, ih htail, List.map_cons]

theorem Served.delivered {trace : List (Mark ν)} (h : Served (runWatchReadable display answers) 0 trace k) :
    Delivered answers k trace := by
  obtain ⟨items, hreads, hcalls⟩ := h
  obtain ⟨hearlier, hall⟩ := reads_single hreads
  obtain rfl := items_single hcalls
  refine ⟨?_, ?_⟩
  · intro j hj
    rcases hearlier j hj with hpending | ⟨item, hmem, hitem⟩
    · exact .inl hpending
    · obtain ⟨_, hok, rfl⟩ := List.mem_map.mp hmem
      obtain ⟨notification, -, rfl⟩ := List.mem_map.mp hok
      exact .inr ⟨notification, hitem⟩
  · rw [notifications, ← hall, List.map_map, List.filterMap_map]
    exact List.filterMap_some.symm

end Single

end Aviso.Ffi
