import Aviso.Client.WatchMany
import Aviso.Lib.Cells
import Aviso.Lib.Tally
import Aviso.Proofs.Leases

namespace Aviso.Client

open State (ResumeKey)
open Watch (ClientError)

section Checks

variable {keys : Keys}

theorem checkRequests_ok {requests : List (String × HeldRequest)} (h : checkRequests keys seen requests = .ok ()) :
    (requests.map Prod.fst).Nodup ∧ (∀ r ∈ requests, r.1.isEmpty = false ∧ r.1 ∉ seen) ∧
      ∀ r ∈ requests, ∃ key, keys.prepare r.2 = .ok key := by
  induction requests generalizing seen with
  | nil => simp
  | cons r rest ih =>
    obtain ⟨name, request⟩ := r
    unfold checkRequests at h
    split at h
    · cases h
    · rename_i hname
      split at h
      · cases h
      · rename_i hseen
        cases hcheck : keys.prepare request with
        | error e => simp [Keys.checkWatchRequest, hcheck, Except.map] at h
        | ok key =>
          simp only [Keys.checkWatchRequest, hcheck, Except.map] at h
          obtain ⟨hnodup, hnames, hprepared⟩ := ih h
          have hfresh : name ∉ rest.map Prod.fst := by
            intro hmem
            obtain ⟨r, hr, heq⟩ := List.mem_map.mp hmem
            exact (hnames r hr).2 (heq ▸ List.mem_cons_self)
          refine ⟨List.nodup_cons.mpr ⟨hfresh, hnodup⟩, ?_, ?_⟩
          · intro r hr
            rcases List.mem_cons.mp hr with rfl | hr
            · exact ⟨Bool.eq_false_iff.mpr hname, hseen⟩
            · exact ⟨(hnames r hr).1, fun hmem => (hnames r hr).2 (List.mem_cons_of_mem _ hmem)⟩
          · intro r hr
            rcases List.mem_cons.mp hr with rfl | hr
            · exact ⟨key, hcheck⟩
            · exact hprepared r hr

theorem refusal_ok {requests : List (String × HeldRequest)} (h : refusal keys runtime requests = .ok ()) :
    requests ≠ [] ∧ checkRequests keys [] requests = .ok () := by
  unfold refusal at h
  split at h
  · cases h
  · split at h
    · cases h
    · rename_i hnil
      exact ⟨by simpa using hnil, h⟩

end Checks

/-- The requests of a call that was let in: named ones that passed every check, or a single one. -/
def Admitted (keys : Keys) (requests : List (Option String × HeldRequest)) : Prop :=
  (∃ runtime listed, requests = listed.map (fun (name, request) => (some name, request)) ∧
      refusal keys runtime listed = .ok ()) ∨
    ∃ request, requests = [(none, request)]

/-- Why a call may return an error without having opened anything. -/
def Refused (keys : Keys) (requests : List (Option String × HeldRequest)) (error : ClientError) : Prop :=
  (∃ runtime listed, requests = listed.map (fun (name, request) => (some name, request)) ∧
      refusal keys runtime listed = .error error) ∨
    ∃ request, requests = [(none, request)] ∧
      (error = .config "AvisoClient::watch requires a Tokio runtime" ∨ keys.prepare request = .error error)

theorem Admitted.named {requests : List (Option String × HeldRequest)} (h : Admitted keys requests) :
    requests ≠ [] ∧ (requests.map Prod.fst).Nodup := by
  rcases h with ⟨runtime, listed, rfl, hlet⟩ | ⟨request, rfl⟩
  · obtain ⟨hne, hchecked⟩ := refusal_ok hlet
    refine ⟨fun hnil => hne (List.map_eq_nil_iff.mp hnil), ?_⟩
    have hnames := (checkRequests_ok hchecked).1.map (Option.some_injective _)
    rwa [List.map_map] at hnames ⊢
  · simp

namespace CallStage

/-- The streams of the call are gone. -/
def gone : CallStage κ → Bool
  | .failed _ | .dropped => true
  | _ => false

/-- The key of the request that is being opened. -/
def key : CallStage κ → Option ResumeKey
  | .seeking key | .building key | .leased key _ => some key
  | _ => none

/-- The call has opened all its requests. -/
def complete : CallStage κ → Bool
  | .returned | .dropped => true
  | _ => false

end CallStage

/-- What a supervisor shows to the call that opened it. -/
def Supervisor.face (s : Supervisor κ) : ResumeKey × Bool := (s.key, s.cancelled)

def faceOf (supervisors : List (Supervisor κ)) (i : Nat) : Option (ResumeKey × Bool) :=
  supervisors[i]?.map Supervisor.face

/-- Why a call fails: it was refused before it opened anything, or the client that its next watch
needs could not be built. -/
def Call.Fails (keys : Keys) (call : Call κ) (error : ClientError) : Prop :=
  call.streams = [] ∧ Refused keys call.requests error ∨
    ∃ (r : Option String × HeldRequest) (message : String), call.current = some r ∧
      error = nameError r.1 (.config ("failed to build the HTTP client for a watch: " ++ message))

/-- A call is as its stage says: it opens its requests in order, each under its own key; it
returns when all are open; and when it fails or its stream is dropped, all it opened is cancelled. -/
structure Call.Sound (keys : Keys) (face : Nat → Option (ResumeKey × Bool)) (call : Call κ) : Prop where
  opened : ∀ j i : Nat, call.streams[j]? = some i →
    ∃ (r : Option String × HeldRequest) (key : ResumeKey), call.requests[j]? = some r ∧
      keys.prepare r.2 = .ok key ∧ face i = some (key, call.stage.gone)
  current : ∀ key, call.stage.key = some key →
    ∃ r : Option String × HeldRequest, call.current = some r ∧ keys.prepare r.2 = .ok key
  complete : call.stage.complete = true → call.streams.length = call.requests.length
  admitted : call.stage.gone = false → Admitted keys call.requests
  failed : ∀ error, call.stage = .failed error → call.Fails keys error

namespace Call.Sound

variable {keys : Keys} {face face' : Nat → Option (ResumeKey × Bool)} {call : Call κ}

theorem congr (h : call.Sound keys face) (hface : ∀ i ∈ call.streams, face' i = face i) : call.Sound keys face' where
  opened := by
    intro j i hi
    rw [hface i (List.mem_of_getElem? hi)]
    exact h.opened j i hi
  current := h.current
  complete := h.complete
  admitted := h.admitted
  failed := h.failed

/-- The call goes on; what it has opened stays. -/
theorem goto (h : call.Sound keys face) (stage : CallStage κ) (hgone : call.stage.gone = false)
    (hstays : stage.gone = false)
    (hcurrent : ∀ key, stage.key = some key →
      ∃ r : Option String × HeldRequest, call.current = some r ∧ keys.prepare r.2 = .ok key)
    (hcomplete : stage.complete = true → call.streams.length = call.requests.length) :
    (call.goto stage).Sound keys face where
  opened := by
    intro j i hi
    obtain ⟨r, key, hr, hkey, hface⟩ := h.opened j i hi
    exact ⟨r, key, hr, hkey, by rw [hface, hgone, Call.goto, hstays]⟩
  current := hcurrent
  complete := hcomplete
  admitted := fun _ => h.admitted hgone
  failed := by
    intro error herror
    rw [show stage = .failed error from herror] at hstays
    cases hstays

/-- The call is over, and what it has opened is cancelled. -/
theorem leave (h : call.Sound keys face) (stage : CallStage κ) (hgone : stage.gone = true)
    (hface : ∀ i ∈ call.streams, face' i = (face i).map fun f => (f.1, true))
    (hcomplete : stage.complete = true → call.streams.length = call.requests.length)
    (hfailed : ∀ error, stage = .failed error → call.Fails keys error) :
    (call.goto stage).Sound keys face' where
  opened := by
    intro j i hi
    obtain ⟨r, key, hr, hkey, hold⟩ := h.opened j i hi
    refine ⟨r, key, hr, hkey, ?_⟩
    rw [hface i (List.mem_of_getElem? hi), hold, Call.goto, hgone]
    rfl
  current := by
    intro key hkey
    have hnone : stage.key = none := by
      cases stage <;> first | rfl | cases hgone
    cases hnone.symm.trans hkey
  complete := hcomplete
  admitted := by
    intro hstays
    rw [show stage.gone = false from hstays] at hgone
    cases hgone
  failed := hfailed

/-- The request that was being opened is open. -/
theorem join (h : call.Sound keys face) (hkey : call.stage.key = some key) (hgone : call.stage.gone = false)
    (hface : ∀ i ∈ call.streams, face' i = face i) (hnew : face' n = some (key, false)) :
    (call.join n).Sound keys face' where
  opened := by
    intro j i hi
    have hi : (call.streams ++ [n])[j]? = some i := hi
    rcases Nat.lt_or_ge j call.streams.length with hlt | hge
    · rw [List.getElem?_append_left hlt] at hi
      obtain ⟨r, key', hr, hkey', hold⟩ := h.opened j i hi
      refine ⟨r, key', hr, hkey', ?_⟩
      rw [hface i (List.mem_of_getElem? hi), hold, hgone]
      rfl
    · obtain ⟨hlen, -⟩ := List.getElem?_eq_some_iff.mp hi
      rw [List.length_append, List.length_singleton] at hlen
      obtain rfl : j = call.streams.length := by omega
      rw [List.getElem?_concat_length] at hi
      cases hi
      obtain ⟨r, hr, hprepared⟩ := h.current key hkey
      exact ⟨r, key, hr, hprepared, hnew⟩
  current := by
    intro key' hkey'
    cases hkey'
  complete := by
    intro hcomplete
    cases hcomplete
  admitted := fun _ => h.admitted hgone
  failed := by
    intro error herror
    cases herror

end Call.Sound

namespace Openings

/-- Nothing is lost and nothing is shared: each lease is with one watch or one call, the tracker
counts the watches that use a key, and each watch is behind one stream of one call. -/
structure Sound (cap : Nat) (keys : Keys) (w : Openings κ) : Prop where
  world : w.world.Sound cap
  leases : w.world.leases.Perm (w.supervisors.filterMap Supervisor.holds ++ w.calls.filterMap Call.holds)
  building : w.world.building = (w.calls.filterMap Call.builds).length
  tallied : Lib.Tallies w.active (w.supervisors.filterMap Supervisor.counts)
  owned : (w.calls.flatMap Call.streams).Perm (List.range w.supervisors.length)
  calls : ∀ call ∈ w.calls, call.Sound keys (faceOf w.supervisors)

variable {κ : Type} {cap : Nat} {keys : Keys} {w w' : Openings κ}

theorem Sound.init (nonzero : 0 < cap) (first : κ) (keys : Keys) : (init cap nonzero first).Sound cap keys where
  world := .init nonzero first
  leases := .nil
  building := rfl
  tallied := .empty
  owned := .nil
  calls := by simp [Openings.init]

theorem Sound.owned_nodup (hs : w.Sound cap keys) : (w.calls.flatMap Call.streams).Nodup :=
  hs.owned.nodup_iff.mpr List.nodup_range

/-- A stream of a call leads to a supervisor. -/
theorem Sound.owned_lt (hs : w.Sound cap keys) (hcall : call ∈ w.calls) (hi : i ∈ call.streams) :
    i < w.supervisors.length :=
  List.mem_range.mp (hs.owned.subset (List.mem_flatMap.mpr ⟨call, hcall, hi⟩))

/-- A call takes a step: what it gives up and takes is what the transport says, and the streams of
the other calls are left alone. -/
theorem Sound.recall (hs : w.Sound cap keys) {call : Call κ} {f : Call κ → Call κ} {world : World κ}
    {supervisors : List (Supervisor κ)} (hcall : w.calls[c]? = some call)
    (hworld : world.Sound cap)
    (hleases : ∀ rest, w.world.leases.Perm (call.holds.toList ++ rest) →
      world.leases.Perm ((f call).holds.toList ++ rest))
    (hbuilding : world.building + call.builds.toList.length = w.world.building + (f call).builds.toList.length)
    (hholds : supervisors.filterMap Supervisor.holds = w.supervisors.filterMap Supervisor.holds)
    (hcounts : supervisors.filterMap Supervisor.counts = w.supervisors.filterMap Supervisor.counts)
    (hlength : supervisors.length = w.supervisors.length)
    (hfaces : ∀ i, i ∉ call.streams → faceOf supervisors i = faceOf w.supervisors i)
    (hstreams : (f call).streams = call.streams)
    (hsound : (f call).Sound keys (faceOf supervisors)) :
    Sound cap keys { w with world := world, supervisors := supervisors, calls := w.calls.modify c f } where
  world := hworld
  leases := by
    obtain ⟨rest, hold, hnew⟩ := Lib.perm_modify Call.holds hcall
    have hgiven := hleases (w.supervisors.filterMap Supervisor.holds ++ rest)
      ((hs.leases.trans (hold.append_left _)).trans (List.perm_append_comm_assoc _ _ _))
    rw [hholds]
    exact (hgiven.trans (List.perm_append_comm_assoc _ _ _)).trans ((hnew f).symm.append_left _)
  building := by
    obtain ⟨rest, hold, hnew⟩ := Lib.perm_modify Call.builds hcall
    have hbefore := hold.length_eq
    have hafter := (hnew f).length_eq
    have hsame := hs.building
    rw [List.length_append] at hbefore hafter
    show world.building = ((w.calls.modify c f).filterMap Call.builds).length
    omega
  tallied := by
    rw [hcounts]
    exact hs.tallied
  owned := by
    obtain ⟨rest, hold, hnew⟩ := Lib.perm_modify_flatMap Call.streams hcall
    rw [hlength]
    exact ((hnew f).trans (hstreams ▸ hold.symm)).trans hs.owned
  calls := by
    intro other hother
    obtain ⟨j, hj⟩ := List.mem_iff_getElem?.mp hother
    by_cases hjc : c = j
    · subst hjc
      rw [List.getElem?_modify_eq, hcall] at hj
      cases hj
      exact hsound
    · have hkept : w.calls[j]? = some other := (List.getElem?_modify_ne f _ hjc).symm.trans hj
      apply (hs.calls other (List.mem_of_getElem? hkept)).congr
      intro i hi
      apply hfaces
      intro hmine
      exact hjc (Lib.cell_unique hs.owned_nodup hcall hkept hmine hi)

section Cancel

theorem holds_cancel (w : Openings κ) (streams : List Nat) :
    (w.cancel streams).supervisors.filterMap Supervisor.holds = w.supervisors.filterMap Supervisor.holds := by
  apply Lib.filterMap_mapIdx
  intro i s
  split <;> rfl

theorem counts_cancel (w : Openings κ) (streams : List Nat) :
    (w.cancel streams).supervisors.filterMap Supervisor.counts = w.supervisors.filterMap Supervisor.counts := by
  apply Lib.filterMap_mapIdx
  intro i s
  split <;> rfl

theorem faceOf_cancel (w : Openings κ) (streams : List Nat) (i : Nat) :
    faceOf (w.cancel streams).supervisors i =
      (faceOf w.supervisors i).map fun f => if i ∈ streams then (f.1, true) else f := by
  simp only [faceOf, cancel, List.getElem?_mapIdx, Option.map_map]
  congr 1
  funext s
  simp only [Function.comp_apply, Supervisor.face]
  split <;> rfl

end Cancel

/-- A call goes on, and gives to the transport and takes from it what its stage says. -/
theorem Sound.goto (hs : w.Sound cap keys) {call : Call κ} (hcall : w.calls[c]? = some call) {world : World κ}
    (stage : CallStage κ) (hworld : world.Sound cap)
    (hleases : ∀ rest, w.world.leases.Perm (call.holds.toList ++ rest) →
      world.leases.Perm ((call.goto stage).holds.toList ++ rest))
    (hbuilding : world.building + call.builds.toList.length =
      w.world.building + (call.goto stage).builds.toList.length)
    (hgone : call.stage.gone = false) (hstays : stage.gone = false)
    (hcurrent : ∀ key, stage.key = some key →
      ∃ r : Option String × HeldRequest, call.current = some r ∧ keys.prepare r.2 = .ok key)
    (hcomplete : stage.complete = true → call.streams.length = call.requests.length) :
    ({ w with world := world }.setStage c stage).Sound cap keys :=
  hs.recall hcall hworld hleases hbuilding rfl rfl rfl (fun _ _ => rfl) rfl
    ((hs.calls call (List.mem_of_getElem? hcall)).goto stage hgone hstays hcurrent hcomplete)

/-- A call is over, and its supervisors are cancelled. -/
theorem Sound.leave (hs : w.Sound cap keys) {call : Call κ} (hcall : w.calls[c]? = some call) {world : World κ}
    (stage : CallStage κ) (hworld : world.Sound cap) (hleases : world.leases = w.world.leases)
    (hholds : call.holds = none)
    (hbuilding : world.building + call.builds.toList.length = w.world.building)
    (hgone : stage.gone = true)
    (hcomplete : stage.complete = true → call.streams.length = call.requests.length)
    (hfailed : ∀ error, stage = .failed error → call.Fails keys error) :
    (({ w with world := world }.cancel call.streams).setStage c stage).Sound cap keys := by
  have hnone : (call.goto stage).holds = none := by
    cases stage <;> first | rfl | cases hgone
  have hidle : (call.goto stage).builds = none := by
    cases stage <;> first | rfl | cases hgone
  refine hs.recall hcall hworld ?_ ?_ (holds_cancel w _) (counts_cancel w _) (List.length_mapIdx) ?_ rfl ?_
  · intro rest hperm
    rw [hnone]
    rw [hholds, ← hleases] at hperm
    exact hperm
  · rw [hidle]
    exact hbuilding
  · intro i hi
    have hface := faceOf_cancel w call.streams i
    simp only [if_neg hi, Option.map_id'] at hface
    exact hface
  · apply (hs.calls call (List.mem_of_getElem? hcall)).leave stage hgone ?_ hcomplete hfailed
    intro i hi
    have hface := faceOf_cancel w call.streams i
    simp only [if_pos hi] at hface
    exact hface

theorem faceOf_append {supervisors : List (Supervisor κ)} (s : Supervisor κ) (hi : i < supervisors.length) :
    faceOf (supervisors ++ [s]) i = faceOf supervisors i := by
  rw [faceOf, List.getElem?_append_left hi, faceOf]

/-- A watch is spawned: its lease goes from the call to it, and its key joins the tracker. -/
theorem Sound.spawn (hs : w.Sound cap keys) {call : Call κ} (hcall : w.calls[c]? = some call)
    (hstage : call.stage = .leased key lease) : (w.spawn c key lease).Sound cap keys := by
  have hmine := hs.calls call (List.mem_of_getElem? hcall)
  have hholds : call.holds = some lease := by rw [Call.holds, hstage]
  have hbuilds : call.builds = none := by rw [Call.builds, hstage]
  have hold {other : Call κ} (hother : other ∈ w.calls) (s : Supervisor κ) :
      other.Sound keys (faceOf (w.supervisors ++ [s])) :=
    (hs.calls other hother).congr fun i hi => faceOf_append s (hs.owned_lt hother hi)
  exact {
    world := hs.world
    leases := by
      obtain ⟨rest, hold, hnew⟩ := Lib.perm_modify Call.holds hcall
      rw [hholds] at hold
      have hbefore := hs.leases.trans (hold.append_left _)
      refine hbefore.trans ?_
      simp only [Openings.spawn, List.filterMap_append]
      rw [List.append_assoc]
      exact ((hnew (·.join w.supervisors.length)).symm.append_left [lease]).append_left _
    building := by
      obtain ⟨rest, hold, hnew⟩ := Lib.perm_modify Call.builds hcall
      rw [hbuilds] at hold
      have hafter := (hnew (·.join w.supervisors.length)).length_eq
      exact (hs.building.trans hold.length_eq).trans hafter.symm
    tallied := by
      simp only [Openings.spawn, List.filterMap_append]
      exact (hs.tallied.increment key).perm (List.perm_append_singleton key _).symm
    owned := by
      obtain ⟨rest, hold, hnew⟩ := Lib.perm_modify_flatMap Call.streams hcall
      have hgrown := hold.symm.trans hs.owned
      simp only [Openings.spawn, List.length_append, List.length_singleton, List.range_succ]
      refine (hnew (·.join w.supervisors.length)).trans ?_
      rw [Call.join, List.append_assoc]
      refine (List.perm_append_comm.append_left _).trans ?_
      rw [← List.append_assoc]
      exact hgrown.append_right _
    calls := by
      intro other hother
      obtain ⟨j, hj⟩ := List.mem_iff_getElem?.mp hother
      by_cases hjc : c = j
      · subst hjc
        simp only [Openings.spawn, List.getElem?_modify_eq, hcall] at hj
        cases hj
        apply hmine.join (by rw [hstage]; rfl) (by rw [hstage]; rfl)
        · intro i hi
          exact faceOf_append _ (hs.owned_lt (List.mem_of_getElem? hcall) hi)
        · rw [Openings.spawn, faceOf, List.getElem?_concat_length]
          rfl
      · have hkept : w.calls[j]? = some other := (List.getElem?_modify_ne _ _ hjc).symm.trans hj
        exact hold (List.mem_of_getElem? hkept) _ }

/-- A step of a supervisor's task: what it gives back goes to the transport and the tracker. -/
theorem Sound.turned (hs : w.Sound cap keys) {s : Supervisor κ} (hi : w.supervisors[i]? = some s)
    (stage : SupervisorStage) {world : World κ} {active : Lib.Table ResumeKey Nat}
    (hworld : world.Sound cap)
    (hleases : ∀ rest, w.world.leases.Perm (s.holds.toList ++ rest) →
      world.leases.Perm ((s.goto stage).holds.toList ++ rest))
    (hbuilding : world.building = w.world.building)
    (htallied : ∀ rest, (w.supervisors.filterMap Supervisor.counts).Perm (s.counts.toList ++ rest) →
      Lib.Tallies active ((s.goto stage).counts.toList ++ rest)) :
    ({ w with world := world, active := active }.setSupervisor i stage).Sound cap keys where
  world := hworld
  leases := by
    obtain ⟨rest, hold, hnew⟩ := Lib.perm_modify Supervisor.holds hi
    have hgiven := hleases (rest ++ w.calls.filterMap Call.holds)
      ((hs.leases.trans (hold.append_right _)).trans (List.append_assoc _ _ _ ▸ .refl _))
    refine hgiven.trans ?_
    rw [← List.append_assoc]
    exact (hnew (·.goto stage)).symm.append_right _
  building := hbuilding.trans hs.building
  tallied := by
    obtain ⟨rest, hold, hnew⟩ := Lib.perm_modify Supervisor.counts hi
    exact (htallied rest hold).perm (hnew (·.goto stage)).symm
  owned := by
    simp only [setSupervisor, List.length_modify]
    exact hs.owned
  calls := by
    intro call hcall
    apply (hs.calls call hcall).congr
    intro j _
    simp only [setSupervisor, faceOf, List.getElem?_modify]
    cases w.supervisors[j]? with
    | none => rfl
    | some s' =>
      show Option.map Supervisor.face (some (if i = j then _ else s')) = _
      split <;> rfl

/-- A lease is given back; nobody else's is touched. -/
theorem giveBack_spec [DecidableEq κ] (hs : w.Sound cap keys) (hcap : 0 < cap) {lease : Lease κ}
    (h : w.giveBack lease = some w') :
    ∃ world : World κ, w' = { w with world := world } ∧ world.Sound cap ∧ world.building = w.world.building ∧
      ∀ rest, w.world.leases.Perm (lease :: rest) → world.leases.Perm rest := by
  obtain ⟨world, hworld, rfl⟩ := Option.map_eq_some_iff.mp h
  refine ⟨world, rfl, hs.world.step hcap hworld, ?_, ?_⟩
  · obtain ⟨found, hfound, rfl⟩ := Option.map_eq_some_iff.mp hworld
    rfl
  · intro rest hheld
    obtain ⟨found, hfound, rfl⟩ := Option.map_eq_some_iff.mp hworld
    show (w.world.leases.eraseIdx (w.world.leases.idxOf lease)).Perm rest
    rw [← List.erase_eq_eraseIdx_of_idxOf rfl]
    have herase := hheld.erase lease
    rwa [List.erase_cons_head] at herase

theorem decrement_tallies {active : Lib.Table ResumeKey Nat} {held : List ResumeKey}
    (h : Lib.Tallies active held) (hperm : held.Perm (key :: rest)) :
    Lib.Tallies (decrementActiveKey active key) rest := by
  obtain ⟨n, hn, hrest⟩ := h.decrement hperm
  simpa only [decrementActiveKey, hn] using hrest

/-- The steps of a supervisor's task. -/
inductive Turn : SupervisorStage → SupervisorStage → Prop where
  | polled : Turn .spawned .running
  | exits : Turn .running .exiting
  | ends : Turn .exiting .ended
  | lost : Turn .spawned .lost

theorem Sound.turn [DecidableEq κ] (hs : w.Sound cap keys) (hcap : 0 < cap) (hmove : Turn source target)
    (h : w.turn i source target = some w') : w'.Sound cap keys := by
  obtain ⟨s, hi, h⟩ := Option.bind_eq_some_iff.mp h
  by_cases hold : s.stage = source
  case neg => simp [hold] at h
  rw [if_pos hold] at h
  cases hmove with
  | polled =>
    cases h
    refine hs.turned hi .running hs.world ?_ rfl ?_
    · intro rest hperm
      simpa [Supervisor.holds, Supervisor.goto, hold, SupervisorStage.leased] using hperm
    · intro rest hperm
      refine hs.tallied.perm (hperm.trans ?_)
      simp [Supervisor.counts, Supervisor.goto, hold, SupervisorStage.counted]
  | exits =>
    cases h
    refine hs.turned hi .exiting hs.world ?_ rfl ?_
    · intro rest hperm
      simpa [Supervisor.holds, Supervisor.goto, hold, SupervisorStage.leased] using hperm
    · intro rest hperm
      refine decrement_tallies hs.tallied (hperm.trans ?_)
      simp [Supervisor.counts, Supervisor.goto, hold, SupervisorStage.counted]
  | ends =>
    obtain ⟨given, hgiven, rfl⟩ := Option.map_eq_some_iff.mp h
    obtain ⟨world, rfl, hworld, hbuilding, hleases⟩ := giveBack_spec hs hcap hgiven
    refine hs.turned hi .ended hworld ?_ hbuilding ?_
    · intro rest hperm
      refine hleases rest (hperm.trans ?_)
      simp [Supervisor.holds, hold, SupervisorStage.leased]
    · intro rest hperm
      refine hs.tallied.perm (hperm.trans ?_)
      simp [Supervisor.counts, Supervisor.goto, hold, SupervisorStage.counted]
  | lost =>
    obtain ⟨given, hgiven, rfl⟩ := Option.map_eq_some_iff.mp h
    obtain ⟨world, rfl, hworld, hbuilding, hleases⟩ := giveBack_spec hs hcap hgiven
    refine hs.turned hi .lost hworld ?_ hbuilding ?_
    · intro rest hperm
      refine hleases rest (hperm.trans ?_)
      simp [Supervisor.holds, hold, SupervisorStage.leased]
    · intro rest hperm
      refine hs.tallied.perm (hperm.trans ?_)
      simp [Supervisor.counts, Supervisor.goto, hold, SupervisorStage.counted]

/-- A call begins: it was let in, or it opens nothing. -/
theorem Sound.enter (hs : w.Sound cap keys) {requests : List (Option String × HeldRequest)}
    {checked : Except ClientError Unit} (hadmitted : checked = .ok () → Admitted keys requests)
    (hrefused : ∀ error, checked = .error error → Refused keys requests error) :
    (w.enter requests checked).Sound cap keys where
  world := hs.world
  leases := by
    have hnone : (Call.start (κ := κ) requests checked).holds = none := by
      cases checked <;> rfl
    simp only [Openings.enter, List.filterMap_append, List.filterMap_cons_none hnone, List.filterMap_nil,
      List.append_nil]
    exact hs.leases
  building := by
    have hnone : (Call.start (κ := κ) requests checked).builds = none := by
      cases checked <;> rfl
    simp only [Openings.enter, List.filterMap_append, List.filterMap_cons_none hnone, List.filterMap_nil,
      List.append_nil]
    exact hs.building
  tallied := hs.tallied
  owned := by
    have hnone : (Call.start (κ := κ) requests checked).streams = [] := by
      cases checked <;> rfl
    simp only [Openings.enter, List.flatMap_append, List.flatMap_singleton, hnone, List.append_nil]
    exact hs.owned
  calls := by
    intro call hcall
    rcases List.mem_append.mp hcall with hcall | hcall
    · exact hs.calls call hcall
    · obtain rfl := List.mem_singleton.mp hcall
      cases checked with
      | ok _ =>
        exact {
          opened := by simp [Call.start]
          current := by
            intro key hkey
            cases hkey
          complete := by
            intro hcomplete
            cases hcomplete
          admitted := fun _ => hadmitted rfl
          failed := by
            intro error herror
            cases herror }
      | error e =>
        exact {
          opened := by simp [Call.start]
          current := by
            intro key hkey
            cases hkey
          complete := by
            intro hcomplete
            cases hcomplete
          admitted := by
            intro hgone
            cases hgone
          failed := by
            intro error herror
            cases herror
            exact .inl ⟨rfl, hrefused e rfl⟩ }

/-- The checks of `watch` fail only for a single request: those of `watch_many` were made before. -/
theorem refused_single {call : Call κ} {r : Option String × HeldRequest} (hadmitted : Admitted keys call.requests)
    (hcurrent : call.current = some r) (hprepare : keys.prepare r.2 = .error error) :
    call.streams = [] ∧ Refused keys call.requests (nameError r.1 error) := by
  have hmem : r ∈ call.requests := List.mem_of_getElem? hcurrent
  rcases hadmitted with ⟨runtime, listed, hlisted, hlet⟩ | ⟨request, hsingle⟩
  · rw [hlisted] at hmem
    obtain ⟨⟨name, request⟩, hin, rfl⟩ := List.mem_map.mp hmem
    obtain ⟨key, hkey⟩ := (checkRequests_ok (refusal_ok hlet).2).2.2 _ hin
    cases hkey.symm.trans hprepare
  · rw [hsingle] at hmem
    obtain rfl := List.mem_singleton.mp hmem
    rw [Call.current, hsingle] at hcurrent
    have hnil : call.streams = [] := by
      cases hstreams : call.streams with
      | nil => rfl
      | cons i rest => simp [hstreams] at hcurrent
    exact ⟨hnil, .inr ⟨request, hsingle, .inr hprepare⟩⟩

theorem Sound.advance (hs : w.Sound cap keys) (h : w.advance keys c = some w') : w'.Sound cap keys := by
  obtain ⟨call, hcall, h⟩ := Option.bind_eq_some_iff.mp h
  have hmine := hs.calls call (List.mem_of_getElem? hcall)
  cases hstage : call.stage with
  | next =>
    have hholds : call.holds = none := by rw [Call.holds, hstage]
    have hbuilds : call.builds = none := by rw [Call.builds, hstage]
    have hgone : call.stage.gone = false := by rw [hstage]; rfl
    simp only [hstage] at h
    cases hcurrent : call.current with
    | none =>
      simp only [hcurrent, Option.some.injEq] at h
      subst h
      refine hs.goto hcall .returned hs.world (fun _ hperm => by rw [hholds] at hperm; exact hperm)
        (by rw [hbuilds]; rfl) hgone rfl (by simp [CallStage.key]) ?_
      intro _
      have hle : call.requests.length ≤ call.streams.length := List.getElem?_eq_none_iff.mp hcurrent
      refine Nat.le_antisymm ?_ hle
      cases hstreams : call.streams.length with
      | zero => exact Nat.zero_le _
      | succ n =>
        have hlast : n < call.streams.length := by omega
        obtain ⟨r, key, hr, -⟩ := hmine.opened n _ (List.getElem?_eq_getElem hlast)
        exact (List.getElem?_eq_some_iff.mp hr).1
    | some r =>
      obtain ⟨name, request⟩ := r
      simp only [hcurrent] at h
      cases hprepare : keys.prepare request with
      | error e =>
        simp only [hprepare, Option.some.injEq] at h
        subst h
        refine hs.leave hcall _ hs.world rfl hholds (by rw [hbuilds]; rfl) rfl (by simp [CallStage.complete]) ?_
        intro error herror
        cases herror
        exact .inl (refused_single (hmine.admitted hgone) hcurrent hprepare)
      | ok key =>
        simp only [hprepare, Option.some.injEq] at h
        subst h
        refine hs.goto hcall (.seeking key) hs.world (fun _ hperm => by rw [hholds] at hperm; exact hperm)
          (by rw [hbuilds]; rfl) hgone rfl ?_ (by simp [CallStage.complete])
        intro key' hkey'
        cases hkey'
        exact ⟨_, hcurrent, hprepare⟩
  | seeking key =>
    have hholds : call.holds = none := by rw [Call.holds, hstage]
    have hbuilds : call.builds = none := by rw [Call.builds, hstage]
    have hgone : call.stage.gone = false := by rw [hstage]; rfl
    have hcurrent := hmine.current key (by rw [hstage]; rfl)
    have hkeep : ∀ key', some key = some key' →
        ∃ r : Option String × HeldRequest, call.current = some r ∧ keys.prepare r.2 = .ok key' := by
      intro key' hkey'
      cases hkey'
      exact hcurrent
    simp only [hstage] at h
    cases hfree : w.world.transport.leaseFirstFree with
    | some granted =>
      simp only [hfree, Option.some.injEq] at h
      subst h
      refine hs.goto hcall (.leased key granted.1) (hs.world.lease hfree) ?_ (by rw [hbuilds]; rfl) hgone rfl hkeep
        (by simp [CallStage.complete])
      intro rest hperm
      rw [hholds] at hperm
      exact hperm.cons granted.1
    | none =>
      simp only [hfree, Option.some.injEq] at h
      subst h
      exact hs.goto hcall (.building key) (hs.world.building _)
        (fun _ hperm => by rw [hholds] at hperm; exact hperm) (by rw [hbuilds]; rfl) hgone rfl hkeep
        (by simp [CallStage.complete])
  | leased key lease =>
    simp only [hstage, Option.some.injEq] at h
    subst h
    exact hs.spawn hcall hstage
  | _ => simp [hstage] at h

/-- A call that waits for a client is counted. -/
theorem Sound.building_pos (hs : w.Sound cap keys) {c : Nat} {call : Call κ} (hcall : w.calls[c]? = some call)
    (hbuilds : call.builds = some ()) : 0 < w.world.building := by
  rw [hs.building]
  exact List.length_pos_of_mem (List.mem_filterMap.mpr ⟨call, List.mem_of_getElem? hcall, hbuilds⟩)

theorem Sound.built (hs : w.Sound cap keys) (hcap : 0 < cap) (h : w.built c client = some w') : w'.Sound cap keys := by
  obtain ⟨call, hcall, h⟩ := Option.bind_eq_some_iff.mp h
  have hmine := hs.calls call (List.mem_of_getElem? hcall)
  cases hstage : call.stage with
  | building key =>
    have hholds : call.holds = none := by rw [Call.holds, hstage]
    have hbuilds : call.builds = some () := by rw [Call.builds, hstage]
    have hgone : call.stage.gone = false := by rw [hstage]; rfl
    have hpos := hs.building_pos hcall hbuilds
    have hcurrent := hmine.current key (by rw [hstage]; rfl)
    have hidle := hs.world.building (w.world.building - 1)
    simp only [hstage] at h
    cases client with
    | error e =>
      cases h
      refine hs.leave hcall _ hidle rfl hholds ?_ rfl (by simp [CallStage.complete]) ?_
      · rw [hbuilds]
        exact Nat.sub_add_cancel hpos
      · intro error herror
        cases herror
        obtain ⟨r, hr, -⟩ := hcurrent
        exact .inr ⟨r, e, hr, by rw [hr]; rfl⟩
    | ok client =>
      cases h
      refine hs.goto hcall _ ?_ ?_ ?_ hgone rfl ?_ (by simp [CallStage.complete])
      · cases hfree : w.world.transport.leaseFirstFree with
        | none => exact hidle.push client hcap
        | some granted => exact hidle.lease hfree
      · intro rest hperm
        rw [hholds] at hperm
        exact hperm.cons _
      · rw [hbuilds]
        exact Nat.sub_add_cancel hpos
      · intro key' hkey'
        cases hkey'
        exact hcurrent
  | _ => simp [hstage] at h

theorem Sound.step [DecidableEq κ] (hs : w.Sound cap keys) (hcap : 0 < cap) (h : step keys w event = some w') :
    w'.Sound cap keys := by
  cases event with
  | watch runtime request =>
    cases h
    apply hs.enter
    · exact fun _ => .inr ⟨request, rfl⟩
    · intro error herror
      cases runtime with
      | true => cases herror
      | false =>
        cases herror
        exact .inr ⟨request, rfl, .inl rfl⟩
  | watchMany runtime requests =>
    cases h
    apply hs.enter
    · intro hok
      exact .inl ⟨runtime, requests, rfl, hok⟩
    · intro error herror
      exact .inl ⟨runtime, requests, rfl, herror⟩
  | advance c => exact hs.advance h
  | built c client => exact hs.built hcap h
  | dropStream c =>
    obtain ⟨call, hcall, h⟩ := Option.bind_eq_some_iff.mp h
    have hmine := hs.calls call (List.mem_of_getElem? hcall)
    cases hstage : call.stage with
    | returned =>
      simp only [hstage, if_true, Option.some.injEq] at h
      subst h
      have hbuilds : call.builds = none := by rw [Call.builds, hstage]
      refine hs.leave hcall .dropped hs.world rfl (by rw [Call.holds, hstage]) (by rw [hbuilds]; rfl) rfl ?_ ?_
      · intro _
        exact hmine.complete (by rw [hstage]; rfl)
      · intro error herror
        cases herror
    | _ => simp [hstage] at h
  | polled i => exact hs.turn hcap .polled h
  | exits i => exact hs.turn hcap .exits h
  | ends i => exact hs.turn hcap .ends h
  | lose i => exact hs.turn hcap .lost h
  | poison =>
    cases h
    exact { hs with }

theorem turn_length [DecidableEq κ] (h : w.turn i source target = some w') :
    w'.supervisors.length = w.supervisors.length := by
  obtain ⟨s, hi, h⟩ := Option.bind_eq_some_iff.mp h
  by_cases hold : s.stage = source
  case neg => simp [hold] at h
  rw [if_pos hold] at h
  obtain ⟨given, hgiven, rfl⟩ := Option.map_eq_some_iff.mp h
  have hkept : given.supervisors = w.supervisors := by
    split at hgiven
    · obtain ⟨world, -, rfl⟩ := Option.map_eq_some_iff.mp hgiven
      split <;> rfl
    · cases hgiven
      split <;> rfl
  rw [setSupervisor, List.length_modify, hkept]

/-- Only a call that holds a lease starts a watch. -/
theorem step_spawns [DecidableEq κ] (h : step keys w event = some w') :
    w'.supervisors.length = w.supervisors.length ∨ ∃ c key lease, w' = w.spawn c key lease := by
  cases event with
  | watch runtime request =>
    cases h
    exact .inl rfl
  | watchMany runtime requests =>
    cases h
    exact .inl rfl
  | advance c =>
    obtain ⟨call, hcall, h⟩ := Option.bind_eq_some_iff.mp h
    cases hstage : call.stage with
    | next =>
      simp only [hstage] at h
      repeat' split at h
      all_goals cases h
      · exact .inl rfl
      · exact .inl List.length_mapIdx
      · exact .inl rfl
    | seeking key =>
      simp only [hstage] at h
      split at h
      all_goals cases h
      all_goals exact .inl rfl
    | leased key lease =>
      simp only [hstage, Option.some.injEq] at h
      exact .inr ⟨c, key, lease, h.symm⟩
    | _ => simp [hstage] at h
  | built c client =>
    obtain ⟨call, hcall, h⟩ := Option.bind_eq_some_iff.mp h
    cases hstage : call.stage with
    | building key =>
      simp only [hstage] at h
      split at h
      · cases h
        exact .inl List.length_mapIdx
      · cases h
        exact .inl rfl
    | _ => simp [hstage] at h
  | dropStream c =>
    obtain ⟨call, hcall, h⟩ := Option.bind_eq_some_iff.mp h
    split at h
    · cases h
      exact .inl List.length_mapIdx
    · cases h
  | polled i => exact .inl (turn_length h)
  | exits i => exact .inl (turn_length h)
  | ends i => exact .inl (turn_length h)
  | lose i => exact .inl (turn_length h)
  | poison =>
    cases h
    exact .inl rfl

/-- A watch is reported as a collision exactly when another one uses its key. -/
def Reported (w w' : Openings κ) : Prop :=
  ∀ i s, w.supervisors.length ≤ i → w'.supervisors[i]? = some s →
    (s.warned = true ↔ w.poisoned = false ∧ s.key ∈ w.supervisors.filterMap Supervisor.counts)

theorem Sound.reported [DecidableEq κ] (hs : w.Sound cap keys) (h : Openings.step keys w event = some w') :
    Reported w w' := by
  intro i s hi hnew
  have hlt := (List.getElem?_eq_some_iff.mp hnew).1
  rcases step_spawns h with hlength | ⟨c, key, lease, rfl⟩
  · omega
  · simp only [Openings.spawn, List.length_append, List.length_singleton] at hlt hnew
    obtain rfl : i = w.supervisors.length := by omega
    rw [List.getElem?_concat_length] at hnew
    cases hnew
    have htracked := hs.tallied.pos_iff key
    simp only [Bool.and_eq_true, decide_eq_true_eq, htracked, Bool.not_eq_true']
    exact and_comm

/-- A client nobody uses any more is as it was at first. -/
structure Idle (w : Openings κ) : Prop where
  untracked : ∀ key, w.active.lookup key = none
  free : ∀ slot ∈ w.world.slots, slot.active = 0
  trimmed : w.world.slots.length = 1

theorem Sound.idle (hs : w.Sound cap keys) (hended : ∀ s ∈ w.supervisors, s.stage = .ended)
    (hdone : ∀ call ∈ w.calls, call.holds = none) : w.Idle := by
  have hcounts : w.supervisors.filterMap Supervisor.counts = [] := by
    apply List.filterMap_eq_nil_iff.mpr
    intro s hs
    rw [Supervisor.counts, hended s hs]
    rfl
  have hholds : w.supervisors.filterMap Supervisor.holds = [] := by
    apply List.filterMap_eq_nil_iff.mpr
    intro s hs
    rw [Supervisor.holds, hended s hs]
    rfl
  have hleases : w.world.leases = [] := by
    have hperm := hs.leases
    rw [hholds, List.filterMap_eq_nil_iff.mpr hdone] at hperm
    exact hperm.eq_nil
  have hfree : ∀ slot ∈ w.world.slots, slot.active = 0 := by
    intro slot hslot
    obtain ⟨index, hindex⟩ := List.mem_iff_getElem?.mp hslot
    rw [hs.world.counted index slot hindex, World.held, hleases]
    rfl
  refine ⟨?_, hfree, ?_⟩
  · intro key
    rw [hs.tallied key, hcounts]
    rfl
  · have hpos := List.length_pos_iff.mpr hs.world.nonempty
    rcases Nat.lt_or_ge 1 w.world.slots.length with hmany | hone
    · obtain ⟨last, hlast⟩ := List.getLast?_isSome.mpr hs.world.nonempty |> Option.isSome_iff_exists.mp
      have hbusy := hs.world.trimmed hmany last hlast
      have hidle := hfree last (List.mem_of_getLast? hlast)
      omega
    · exact Nat.le_antisymm hone hpos

/-- What the callers of one client may rely on. -/
structure Accounted (cap : Nat) (keys : Keys) (w : Openings κ) : Prop where
  sound : w.Sound cap keys
  named : ∀ call ∈ w.calls, call.stage.gone = false →
    call.requests ≠ [] ∧ (call.requests.map Prod.fst).Nodup
  idle : (∀ s ∈ w.supervisors, s.stage = .ended) → (∀ call ∈ w.calls, call.holds = none) → w.Idle

/-- Whatever calls run at once, however they fail, and in whatever order the watches end. -/
theorem opening_law [DecidableEq κ] (cap : Nat) (nonzero : 0 < cap) (first : κ) (keys : Keys)
    (events : List (OpeningEvent κ)) (h : Lib.Machine.run (step keys) (init cap nonzero first) events = some w) :
    w.Accounted cap keys ∧ ∀ event w', step keys w event = some w' → Reported w w' := by
  have hs : w.Sound cap keys :=
    Lib.Machine.run_invariant (fun _ _ _ hw hstep => hw.step nonzero hstep) h (.init nonzero first keys)
  have hnamed := fun call hcall hgone => ((hs.calls call hcall).admitted hgone).named
  exact ⟨⟨hs, hnamed, hs.idle⟩, fun _ _ hstep => hs.reported hstep⟩

/-- The keys of a client, for watches without a filter: the canonical form of that, and the SHA-256 of
all that is hashed for the event type `mars` at this address. -/
def sampleKeys : Keys where
  baseUrl := ⟨⟨"https".toList, some "host".toList, none, "/".toList⟩, by decide⟩
  toVec
    | .object [] => .ok ⟨[0x7b, 0x7d], by decide⟩
    | _ => .error "no other filter"
  sha256 := fun _ => #v[0xd0, 0x2a, 0xe4, 0x1b, 0xbc, 0xc5, 0x38, 0x6d, 0xd1, 0x13, 0x2f, 0x48, 0x75, 0x42, 0xdc, 0x0e,
    0xf9, 0x02, 0x3e, 0xe4, 0xba, 0x13, 0x6a, 0x55, 0x5b, 0x74, 0x27, 0xea, 0xf6, 0x76, 0xe8, 0xc3]

def sampleRequest : HeldRequest := ⟨⟨"mars".toList, [], none, none, .watch, [], false⟩, by decide⟩

/-- Two watches on connections for one: the client of the second cannot be built, so the first ends too. -/
def sampleEvents : List (OpeningEvent Nat) :=
  [.watchMany true [("surface", sampleRequest), ("wave", sampleRequest)], .advance 0, .advance 0, .advance 0,
    .polled 0, .advance 0, .advance 0, .built 0 (.error "no certificates"), .exits 0, .ends 0]

theorem opening_law_sample :
    ∃ w, Lib.Machine.run (step sampleKeys) (init 1 Nat.one_pos 7) sampleEvents = some w ∧ w.Accounted 1 sampleKeys := by
  refine ⟨_, rfl, ?_⟩
  exact (opening_law 1 Nat.one_pos 7 sampleKeys sampleEvents rfl).1

end Openings
end Aviso.Client
