import Aviso.Client.NotifyMany
import Aviso.Proofs.Coalescing

namespace Aviso.Client

variable {ε β ρ : Type} {c : Refreshing} {d : Decoder ε β ρ} {n concurrency : Nat}

namespace Requests

variable {s s' : Requests ε} {r : Nat} {stage : RequestStage ε}

theorem turn_goes (h : Turn c s r stage stage' effects) : stage.isOver = false := by
  cases h with
  | drop hgoes => exact hgoes
  | _ => rfl

/-- A request that is over stays as it is, and does nothing more. -/
theorem moves_over (h : Moves c s s') (hr : s.requests[r]? = some stage) (hover : stage.isOver = true) :
    s'.requests[r]? = some stage ∧ ownOf r s'.trace = ownOf r s.trace := by
  have hne {q : Nat} {stage₁ : RequestStage ε} (hq : s.requests[q]? = some stage₁) (hgoes : stage₁.isOver = false) :
      r ≠ q := by
    rintro rfl
    cases hr.symm.trans hq
    rw [hgoes] at hover
    cases hover
  cases h with
  | start => exact ⟨by rw [List.getElem?_append_left (List.getElem?_eq_some_iff.mp hr).1]; exact hr, rfl⟩
  | turn q hq hturn =>
    have hother := hne hq (turn_goes hturn)
    refine ⟨by rw [List.getElem?_set_ne hother.symm]; exact hr, ?_⟩
    rw [ownOf_append, ownOf_none (turn_own hturn) hother, List.append_nil]
  | publish q hq => exact ⟨by rw [List.getElem?_set_ne (hne hq rfl).symm]; exact hr, rfl⟩
  | succeed q hq _ =>
    rename_i observed _ _
    have hown : ∀ effect ∈ [RequestEffect.refreshed (ε := ε) q observed (.ok ())], effect.of = q := by
      simp [RequestEffect.of]
    refine ⟨by rw [List.getElem?_set_ne (hne hq rfl).symm]; exact hr, ?_⟩
    rw [ownOf_append, ownOf_none hown (hne hq rfl), List.append_nil]
  | rotate => exact ⟨hr, rfl⟩

theorem star_over (h : Relation.ReflTransGen (Moves c) s s') (hr : s.requests[r]? = some stage)
    (hover : stage.isOver = true) : s'.requests[r]? = some stage ∧ ownOf r s'.trace = ownOf r s.trace := by
  induction h with
  | refl => exact ⟨hr, rfl⟩
  | tail _ hmoves ih =>
    obtain ⟨hstage, hown⟩ := moves_over hmoves ih.1 hover
    exact ⟨hstage, hown.trans ih.2⟩

theorem moves_length (h : Moves c s s') : s.requests.length ≤ s'.requests.length := by
  cases h with
  | start =>
    rw [List.length_append]
    exact Nat.le_add_right _ _
  | turn _ _ _ => exact Nat.le_of_eq (List.length_set ..).symm
  | publish _ _ => exact Nat.le_of_eq (List.length_set ..).symm
  | succeed _ _ _ => exact Nat.le_of_eq (List.length_set ..).symm
  | rotate => exact le_refl _

theorem star_length (h : Relation.ReflTransGen (Moves c) s s') : s.requests.length ≤ s'.requests.length :=
  Lib.star_invariant (P := fun t => s.requests.length ≤ t.requests.length)
    (fun _ _ hle hmoves => hle.trans (moves_length hmoves)) h (le_refl _)

/-- A request is sent twice at most, the second time only after a 401. -/
theorem Script.sends {own : List (RequestEffect ε)} (h : Script r stage own) :
    own.countP isSent ≤ 1 ∨ (own.countP isSent = 2 ∧ .answered r (.ok 401) ∈ own) := by
  have hfirst : (rejected r : List (RequestEffect ε)).countP isSent = 1 := rfl
  have hmem : .answered r (.ok 401) ∈ (rejected r : List (RequestEffect ε)) := by simp [rejected]
  induction h with
  | building => exact .inl (by simp)
  | attached => exact .inl (by simp)
  | unattached e => exact .inl (by simp [isSent])
  | failed observed e => exact .inl (by simp [hfirst, isSent])
  | renewed hrenewal => exact .inl (by simp [hfirst, hrenewal.unsent])
  | resending hrenewal => exact .inr ⟨by simp [hfirst, hrenewal.unsent, isSent], by simp [hmem]⟩
  | unattachedAgain e hrenewal => exact .inl (by simp [hfirst, hrenewal.unsent, isSent])
  | answeredAgain result hrenewal => exact .inr ⟨by simp [hfirst, hrenewal.unsent, List.countP_cons, isSent], by simp [hmem]⟩
  | dropped _ _ ih => exact ih
  | _ => exact .inl (le_of_eq rfl)

/-- Only its caller drops a request. -/
theorem step_dropped {event : RequestEvent ε} (hs : step c s event = some s') (hevent : event ≠ .drop r)
    (hr : s'.requests[r]? = some .dropped) : s.requests[r]? = some .dropped := by
  have hset {q : Nat} {stage' : RequestStage ε} (h : (s.requests.set q stage')[r]? = some .dropped)
      (hne : stage' ≠ .dropped) : s.requests[r]? = some .dropped := by
    rcases lookup_set h with ⟨-, heq⟩ | ⟨-, hold⟩
    · exact absurd heq.symm hne
    · exact hold
  cases event with
  | start =>
    cases hs
    rcases lookup_start hr with ⟨-, heq⟩ | hold
    · cases heq
    · exact hold
  | attach q result =>
    obtain ⟨stage, -, hs⟩ := Option.bind_eq_some_iff.mp hs
    unfold stepAttach at hs
    split at hs
    · cases hs
      exact hset hr (by simp)
    · cases hs
      exact hset hr (by simp)
    · split at hs
      · cases hs
        exact hset hr (by simp)
      · cases hs
    · split at hs
      · cases hs
        exact hset hr (by simp)
      · cases hs
    · cases hs
  | send q =>
    obtain ⟨stage, -, hs⟩ := Option.bind_eq_some_iff.mp hs
    split at hs
    · cases hs
      exact hset hr (by simp)
    · cases hs
  | answer q result =>
    obtain ⟨stage, -, hs⟩ := Option.bind_eq_some_iff.mp hs
    unfold stepAnswer at hs
    split at hs
    · split at hs
      · cases hs
        exact hset hr (by simp)
      · split at hs
        · cases hs
          exact hset hr (by simp)
        · cases hs
          exact hset hr (by simp)
    · cases hs
      exact hset hr (by simp)
    · cases hs
  | acquire q =>
    obtain ⟨stage, -, hs⟩ := Option.bind_eq_some_iff.mp hs
    split at hs
    · split at hs
      · cases hs
        exact hset hr (by simp)
      · cases hs
    · cases hs
  | compare q =>
    obtain ⟨stage, -, hs⟩ := Option.bind_eq_some_iff.mp hs
    split at hs
    · split at hs
      · cases hs
        exact hset hr (by simp)
      · cases hs
        exact hset hr (by simp)
    · cases hs
  | publish q =>
    obtain ⟨stage, -, hs⟩ := Option.bind_eq_some_iff.mp hs
    split at hs
    · cases hs
      exact hset hr (by simp)
    · cases hs
  | refreshed q result =>
    obtain ⟨stage, -, hs⟩ := Option.bind_eq_some_iff.mp hs
    unfold stepRefreshed at hs
    split at hs
    · split at hs
      · cases hs
        exact hset hr (by simp)
      · split at hs
        · cases hs
        · cases hs
          exact hset hr (by simp)
    · cases hs
  | drop q =>
    obtain ⟨stage, -, hs⟩ := Option.bind_eq_some_iff.mp hs
    split at hs
    · cases hs
    · cases hs
      rcases lookup_set hr with ⟨rfl, -⟩ | ⟨-, hold⟩
      · exact absurd rfl hevent
      · exact hold
  | rotate =>
    cases hs
    exact hr

end Requests

namespace Batch

variable {s s' : Batch ε ρ} {seen seen' : List (BatchEvent ε β)}

/-- What reading the body of item `i`'s own response gave. -/
def readOf (i : Nat) (events : List (BatchEvent ε β)) : Option (Except ε β) :=
  events.findSome? fun
    | .finish j read => if j = i then some read else none
    | _ => none

theorem readOf_snoc (i : Nat) (seen : List (BatchEvent ε β)) (event : BatchEvent ε β) :
    readOf i (seen ++ [event]) = (readOf i seen).or (readOf i [event]) :=
  List.findSome?_append

/-- Where each item of a batch is, and what `seen` told of it. -/
structure Tracked (d : Decoder ε β ρ) (n concurrency : Nat) (seen : List (BatchEvent ε β)) (s : Batch ε ρ) : Prop where
  coordinated : Requests.Coordinated s.client
  accounted : s.pool.Accounted
  paired : s.carriers.length = s.pool.next
  few : s.pool.next ≤ n
  bounded : s.pool.pending.length ≤ notifyLimit concurrency
  known : ∀ r ∈ s.carriers, r < s.client.requests.length
  distinct : s.carriers.Nodup
  settled : ∀ i outcome, (i, outcome) ∈ s.pool.collected → ∃ r sent read, s.carriers[i]? = some r ∧
    s.client.requests[r]? = some (.done sent) ∧ readOf i seen = some read ∧ outcome = notify d sent read
  unread : ∀ i, i ∈ s.pool.pending ∨ s.pool.next ≤ i → readOf i seen = none
  running : s.cancelled = false → ∀ r ∈ s.carriers, s.client.requests[r]? ≠ some .dropped
  stopped : s.cancelled = true → ∀ r ∈ s.carriers, ∃ stage, s.client.requests[r]? = some stage ∧ stage.isOver = true

/-- An event that no item finishes at says nothing of one. -/
theorem Tracked.quiet (h : Tracked d n concurrency seen s) (hquiet : ∀ i, readOf i seen' = readOf i seen) :
    Tracked d n concurrency seen' s :=
  { h with
    settled := by
      intro i outcome hi
      obtain ⟨r, sent, read, hr, hdone, hread, heq⟩ := h.settled i outcome hi
      exact ⟨r, sent, read, hr, hdone, (hquiet i).trans hread, heq⟩
    unread := fun i hi => (hquiet i).trans (h.unread i hi) }

/-- What the other requests do leaves the items where they are. -/
theorem Tracked.client {client : Requests ε} (h : Tracked d n concurrency seen s) (hs : Requests.Moves c s.client client)
    (hdropped : s.cancelled = false → ∀ r ∈ s.carriers, client.requests[r]? = some .dropped →
      s.client.requests[r]? = some .dropped) :
    Tracked d n concurrency seen { s with client := client } where
  coordinated := h.coordinated.step hs
  accounted := h.accounted
  paired := h.paired
  few := h.few
  bounded := h.bounded
  known := fun r hr => Nat.lt_of_lt_of_le (h.known r hr) (Requests.moves_length hs)
  distinct := h.distinct
  settled := by
    intro i outcome hi
    obtain ⟨r, sent, read, hr, hdone, hread, heq⟩ := h.settled i outcome hi
    exact ⟨r, sent, read, hr, (Requests.moves_over hs hdone rfl).1, hread, heq⟩
  unread := h.unread
  running := fun hgoes r hr hdrop => h.running hgoes r hr (hdropped hgoes r hr hdrop)
  stopped := by
    intro hcancelled r hr
    obtain ⟨stage, hstage, hover⟩ := h.stopped hcancelled r hr
    exact ⟨stage, (Requests.moves_over hs hstage hover).1, hover⟩

theorem Tracked.fill (h : Tracked d n concurrency seen s) (hgoes : s.cancelled = false) (hmore : s.pool.next < n)
    (hroom : s.pool.pending.length < notifyLimit concurrency) :
    Tracked d n concurrency seen { s with
      client := { s.client with requests := s.client.requests ++ [.building] }
      carriers := s.carriers ++ [s.client.requests.length]
      pool := s.pool.start } where
  coordinated := h.coordinated.step (c := ⟨false, false⟩) .start
  accounted := h.accounted.start
  paired := by
    rw [List.length_append, List.length_singleton, h.paired]
    rfl
  few := hmore
  bounded := by
    rw [Lib.Pool.start, List.length_append, List.length_singleton]
    exact hroom
  known := by
    intro r hr
    rw [List.length_append, List.length_singleton]
    rcases List.mem_append.mp hr with hold | hnew
    · exact Nat.lt_succ_of_lt (h.known r hold)
    · exact Nat.lt_succ_of_le (Nat.le_of_eq (List.mem_singleton.mp hnew))
  distinct := by
    refine h.distinct.append (List.nodup_singleton _) ?_
    intro r hold hnew
    exact absurd (h.known r hold) (Nat.not_lt.mpr (Nat.le_of_eq (List.mem_singleton.mp hnew).symm))
  settled := by
    intro i outcome hi
    obtain ⟨r, sent, read, hr, hdone, hread, heq⟩ := h.settled i outcome hi
    refine ⟨r, sent, read, ?_, ?_, hread, heq⟩
    · rw [List.getElem?_append_left (List.getElem?_eq_some_iff.mp hr).1]
      exact hr
    · rw [List.getElem?_append_left (List.getElem?_eq_some_iff.mp hdone).1]
      exact hdone
  unread := by
    rintro i (hi | hi)
    · rcases List.mem_append.mp hi with hold | hnew
      · exact h.unread i (.inl hold)
      · exact h.unread i (.inr (Nat.le_of_eq (List.mem_singleton.mp hnew).symm))
    · exact h.unread i (.inr (Nat.le_of_succ_le hi))
  running := by
    intro _ r hr hdrop
    rcases Requests.lookup_start hdrop with ⟨-, heq⟩ | hold
    · cases heq
    · rcases List.mem_append.mp hr with hmem | hnew
      · exact h.running hgoes r hmem hold
      · rw [List.mem_singleton.mp hnew, List.getElem?_eq_none (le_refl _)] at hold
        cases hold
  stopped := by
    intro hcancelled
    rw [hgoes] at hcancelled
    cases hcancelled

theorem Tracked.finish (h : Tracked d n concurrency seen s) (hi : i ∈ s.pool.pending) (hr : s.carriers[i]? = some r)
    (hdone : s.client.requests[r]? = some (.done sent)) (read : Except ε β) :
    Tracked d n concurrency (seen ++ [.finish i read]) { s with pool := s.pool.finish i (notify d sent read) } where
  coordinated := h.coordinated
  accounted := h.accounted.finish hi
  paired := h.paired
  few := h.few
  bounded := Nat.le_trans (List.length_erase_le ..) h.bounded
  known := h.known
  distinct := h.distinct
  settled := by
    intro j outcome hj
    rcases List.mem_append.mp hj with hold | hnew
    · obtain ⟨q, sent', read', hq, hdone', hread, heq⟩ := h.settled j outcome hold
      exact ⟨q, sent', read', hq, hdone', by rw [readOf_snoc, hread]; rfl, heq⟩
    · cases List.mem_singleton.mp hnew
      refine ⟨r, sent, read, hr, hdone, ?_, rfl⟩
      rw [readOf_snoc, h.unread i (.inl hi)]
      simp [readOf]
  unread := by
    intro j hj
    have hne : i ≠ j := by
      rintro rfl
      rcases hj with hj | hj
      · exact (h.accounted.pending_nodup.mem_erase_iff.mp hj).1 rfl
      · exact absurd (h.accounted.pending_lt hi) (Nat.not_lt.mpr hj)
    rw [readOf_snoc, h.unread j (hj.imp_left List.mem_of_mem_erase)]
    simp [readOf, hne]
  running := h.running
  stopped := h.stopped

theorem dropRequest_moves (c : Refreshing) (client : Requests ε) (r : Nat) :
    Relation.ReflTransGen (Requests.Moves c) client (dropRequest c client r) := by
  unfold dropRequest
  cases hs : Requests.step c client (.drop r) with
  | none => exact .refl
  | some client' => exact .single (Requests.step_moves hs)

theorem dropRequest_over (c : Refreshing) (client : Requests ε) (hr : r < client.requests.length) :
    ∃ stage, (dropRequest c client r).requests[r]? = some stage ∧ stage.isOver = true := by
  have hstage : client.requests[r]? = some client.requests[r] := List.getElem?_eq_getElem hr
  unfold dropRequest
  by_cases hover : client.requests[r].isOver = true
  · exact ⟨_, by simp [Requests.step, hover, hstage], hover⟩
  · exact ⟨.dropped, by simp [Requests.step, Requests.goto, hover, hr], rfl⟩

theorem dropAll_moves (c : Refreshing) (carriers : List Nat) (client : Requests ε) :
    Relation.ReflTransGen (Requests.Moves c) client (carriers.foldl (dropRequest c) client) := by
  induction carriers generalizing client with
  | nil => exact .refl
  | cons r carriers ih => exact (dropRequest_moves c client r).trans (ih _)

/-- A batch that is dropped leaves no request of its own behind. -/
theorem dropAll_over (c : Refreshing) {carriers : List Nat} {client : Requests ε}
    (hknown : ∀ r ∈ carriers, r < client.requests.length) :
    ∀ r ∈ carriers, ∃ stage, (carriers.foldl (dropRequest c) client).requests[r]? = some stage ∧ stage.isOver = true := by
  induction carriers generalizing client with
  | nil =>
    intro r hr
    cases hr
  | cons first carriers ih =>
    intro r hr
    have hlength := Requests.star_length (dropRequest_moves c client first)
    rcases List.mem_cons.mp hr with rfl | hr
    · obtain ⟨stage, hstage, hover⟩ := dropRequest_over c client (hknown r List.mem_cons_self)
      exact ⟨stage, (Requests.star_over (dropAll_moves c carriers _) hstage hover).1, hover⟩
    · exact ih (fun q hq => (hknown q (List.mem_cons_of_mem _ hq)).trans_le hlength) r hr

theorem Tracked.cancel (h : Tracked d n concurrency seen s) (c : Refreshing) :
    Tracked d n concurrency seen { s with client := s.carriers.foldl (dropRequest c) s.client, cancelled := true } where
  coordinated := Lib.star_invariant (fun _ _ hold hmoves => hold.step hmoves) (dropAll_moves c s.carriers s.client)
    h.coordinated
  accounted := h.accounted
  paired := h.paired
  few := h.few
  bounded := h.bounded
  known := fun r hr => (h.known r hr).trans_le (Requests.star_length (dropAll_moves c s.carriers s.client))
  distinct := h.distinct
  settled := by
    intro i outcome hi
    obtain ⟨r, sent, read, hr, hdone, hread, heq⟩ := h.settled i outcome hi
    exact ⟨r, sent, read, hr, (Requests.star_over (dropAll_moves c s.carriers s.client) hdone rfl).1, hread, heq⟩
  unread := h.unread
  running := by
    intro hgoes
    cases hgoes
  stopped := fun _ => dropAll_over c h.known

theorem Tracked.step (h : Tracked d n concurrency seen s) (hs : step c d n concurrency s event = some s') :
    Tracked d n concurrency (seen ++ [event]) s' := by
  have hquiet {event : BatchEvent ε β} (hnone : ∀ i, readOf i [event] = none) (i : Nat) :
      readOf i (seen ++ [event]) = readOf i seen := by
    rw [readOf_snoc, hnone i, Option.or_none]
  cases event with
  | fill =>
    simp only [Batch.step] at hs
    split at hs
    · rename_i hfill
      cases hs
      exact (h.fill hfill.1 hfill.2.1 hfill.2.2).quiet (hquiet fun _ => rfl)
    · cases hs
  | client event =>
    simp only [Batch.step] at hs
    split at hs
    · cases hs
    · rename_i hkeeps
      obtain ⟨client, hclient, rfl⟩ := Option.map_eq_some_iff.mp hs
      refine (h.client (Requests.step_moves hclient) ?_).quiet (hquiet fun _ => rfl)
      intro _ r hr hdrop
      refine Requests.step_dropped hclient ?_ hdrop
      rintro rfl
      exact hkeeps (List.contains_iff_mem.mpr hr)
  | finish i read =>
    simp only [Batch.step] at hs
    split at hs
    · rename_i hfinish
      split at hs
      · rename_i sent hdone
        obtain ⟨r, hr, hstage⟩ := Option.bind_eq_some_iff.mp hdone
        cases hs
        exact h.finish hfinish.2 hr hstage read
      · cases hs
    · cases hs
  | cancel =>
    simp only [Batch.step] at hs
    split at hs
    · cases hs
      exact (h.cancel c).quiet (hquiet fun _ => rfl)
    · cases hs

theorem results_of_some {results : List (Except ε ρ)} (h : s.results n = some results) :
    s.pool.next = n ∧ s.pool.pending = [] ∧ s.cancelled = false ∧ s.pool.inOrder = results := by
  unfold Batch.results at h
  split at h
  · rename_i hdone
    exact ⟨hdone.1, hdone.2.1, hdone.2.2, Option.some.inj h⟩
  · cases h

/-- Once its future is dropped a batch returns nothing, and its requests do nothing more. -/
theorem cancelled_step (hcancelled : s.cancelled = true) (hs : step c d n concurrency s event = some s') :
    s'.cancelled = true ∧ s'.carriers = s.carriers ∧ Relation.ReflTransGen (Requests.Moves c) s.client s'.client := by
  cases event with
  | client event =>
    simp only [Batch.step] at hs
    split at hs
    · cases hs
    · obtain ⟨client, hclient, rfl⟩ := Option.map_eq_some_iff.mp hs
      exact ⟨hcancelled, rfl, .single (Requests.step_moves hclient)⟩
  | _ => simp [Batch.step, hcancelled] at hs

theorem Tracked.twice (h : Tracked d n concurrency seen s) (hr : r ∈ s.carriers) : sendsOf r s.client.trace ≤ 1 ∨
    (sendsOf r s.client.trace = 2 ∧ .answered r (.ok 401) ∈ s.client.trace) := by
  have hscript := h.coordinated.script r _ (List.getElem?_eq_getElem (h.known r hr))
  rcases hscript.sends with honce | ⟨htwice, hmem⟩
  · exact .inl honce
  · exact .inr ⟨htwice, (List.mem_filter.mp hmem).1⟩

theorem Tracked.answered (h : Tracked d n concurrency seen s) {results : List (Except ε ρ)}
    (hresults : s.results n = some results) : results.length = n ∧
    ∀ i < n, ∃ r sent read, s.carriers[i]? = some r ∧ s.client.requests[r]? = some (.done sent) ∧
      readOf i seen = some read ∧ results[i]? = some (notify d sent read) := by
  obtain ⟨hnext, hidle, -, rfl⟩ := results_of_some hresults
  have hlength := h.accounted.length
  rw [hidle, List.length_nil, Nat.zero_add, hnext] at hlength
  refine ⟨(Lib.Pool.length_inOrder _).trans hlength, ?_⟩
  intro i hi
  obtain ⟨outcome, hmem⟩ := h.accounted.collected_of_idle (hnext ▸ hi) (by simp [hidle])
  obtain ⟨r, sent, read, hr, hdone, hread, rfl⟩ := h.settled i outcome hmem
  exact ⟨r, sent, read, hr, hdone, hread, h.accounted.inOrder_get hidle hmem⟩

theorem Tracked.final (h : Tracked d n concurrency seen s) (hcancelled : s.cancelled = true)
    (hrun : Lib.Machine.run (Batch.step c d n concurrency) s events = some s') :
    s'.results n = none ∧ s'.carriers = s.carriers ∧
      ∀ r ∈ s.carriers, ownOf r s'.client.trace = ownOf r s.client.trace := by
  have hkept := Lib.Machine.run_invariant
    (P := fun t : Batch ε ρ => t.cancelled = true ∧ t.carriers = s.carriers ∧
      Relation.ReflTransGen (Requests.Moves c) s.client t.client)
    (fun t _ t' ht hs => (cancelled_step ht.1 hs).imp_right fun hnext => ⟨hnext.1.trans ht.2.1, ht.2.2.trans hnext.2⟩)
    hrun ⟨hcancelled, rfl, .refl⟩
  refine ⟨by simp [Batch.results, hkept.1], hkept.2.1, ?_⟩
  intro r hr
  obtain ⟨stage, hstage, hover⟩ := h.stopped hcancelled r hr
  exact (Requests.star_over hkept.2.2 hstage hover).2

end Batch

end Aviso.Client
