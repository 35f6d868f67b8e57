import Aviso.Proofs.Multiplex
import Aviso.Proofs.WatchDelivery

namespace Aviso.Ffi

open Watch (ClientError Poll MultiNotificationStream Reads Yield)
open Watch.MultiNotificationStream (Accounted Failing Retired Closes failedWatches itemsOf taken accounted_start
  yieldOf pollNext_ended)

variable {ν : Type} {display : ClientError → Text} {answers : Nat → Nat → Poll (Option (Except ClientError ν))}

/-- The call an item of the merged stream leads to. -/
def callFor (y : Yield ν ClientError) : ManyCall ν :=
  match y.item with
  | .ok notification => .onNotification y.name notification
  | .error err => .onError ⟨y.name, err⟩

def ManyCall.failure : ManyCall ν → Option EntryError
  | .onError failure => some failure
  | .onNotification _ _ => none

/-- The failures among the items, in order. -/
def failuresOf (seen : List (Yield ν ClientError)) : List EntryError :=
  (seen.map callFor).filterMap ManyCall.failure

/-- C was called for `seen`, which holds of each watch its own items in its own order, and
one failure of a watch at most. -/
structure Handed (answers : Nat → Nat → Poll (Option (Except ClientError ν))) (names : List String)
    (trace : List (Mark (ManyCall ν))) (seen : List (Yield ν ClientError)) : Prop where
  calls : starts trace = seen.map callFor
  named : ∀ y ∈ seen, names[y.index]? = some y.name
  own : ∀ i < names.length, ∃ k, itemsOf i seen = taken answers i k
  once : (failedWatches seen).Nodup

/-- Why the loop of a merged watch ended whose calls were for `seen`. -/
inductive Verdict (answers : Nat → Nat → Poll (Option (Except ClientError ν))) (names : List String)
    (seen : List (Yield ν ClientError)) (trace : List (Mark (ManyCall ν))) : ManyEndReason → Prop where
  | stopped (h : .stopRequested ∈ trace) : Verdict answers names seen trace .graceful
  | drained (hread : ∀ i < names.length, ∃ k, itemsOf i seen = taken answers i (k + 1) ∧ Closes answers i k)
      (hsome : ∃ i < names.length, i ∉ failedWatches seen) : Verdict answers names seen trace .graceful
  | allFailed (hread : ∀ i < names.length, ∃ k, itemsOf i seen = taken answers i (k + 1) ∧ Closes answers i k)
      (hall : ∀ i < names.length, i ∈ failedWatches seen) :
      Verdict answers names seen trace (.allFailed (failuresOf seen))
  | declined (hlast : starts trace = before ++ [.onNotification name notification])
      (h : .returned (.onNotification name notification) (.answered false) ∈ trace) :
      Verdict answers names seen trace .graceful
  | rejected (hlast : starts trace = before ++ [.onError failed])
      (h : .returned (.onError failed) (.answered false) ∈ trace) :
      Verdict answers names seen trace (.stopped failed)
  | unwound (hlast : starts trace = before ++ [call]) (h : .returned call .unwound ∈ trace) :
      Verdict answers names seen trace .panicked

variable {names : List String} {seen : List (Yield ν ClientError)} {s : MultiNotificationStream}
  {trace : List (Mark (ManyCall ν))}

/-- What the reads of a merged stream say of it. -/
structure Sourced (answers : Nat → Nat → Poll (Option (Except ClientError ν))) (names : List String)
    (seen : List (Yield ν ClientError)) (s : MultiNotificationStream) : Prop where
  accounted : Accounted answers names .continue seen s
  failing : Failing seen s
  retired : Retired answers s

theorem Sourced.pollNext (h : Sourced answers names seen s) :
    Sourced answers names (seen ++ (yieldOf (s.pollNext answers).1).toList) (s.pollNext answers).2 :=
  ⟨h.accounted.pollNext, h.failing.pollNext, h.retired.pollNext (congrArg Prod.snd h.accounted.constants)⟩

theorem Sourced.handed (h : Sourced answers names seen s) (hcalls : starts trace = seen.map callFor) :
    Handed answers names trace seen where
  calls := hcalls
  named := h.accounted.named
  own := by
    intro i hi
    have hmem : i ∈ s.positions.map Prod.fst := h.accounted.kept.mem_iff.mpr (List.mem_range.mpr hi)
    obtain ⟨p, hp, rfl⟩ := List.mem_map.mp hmem
    exact ⟨p.2, h.accounted.conserved p hp⟩
  once := h.failing.once

/-- Each error yielded is a failure kept. -/
theorem failuresOf_length (seen : List (Yield ν ClientError)) :
    (failuresOf seen).length = (failedWatches seen).length := by
  have hone : ∀ y : Yield ν ClientError, (callFor y).failure.isSome = !y.item.isOk := by
    intro y
    unfold callFor
    cases y.item <;> rfl
  rw [failuresOf, failedWatches, List.length_map, List.filterMap_map, List.length_filterMap_eq_countP,
    List.countP_eq_length_filter]
  simp only [Function.comp_apply, hone]

/-- At the end of the merged stream the count of the failures tells whether every watch failed. -/
theorem Sourced.verdict (h : Sourced answers names seen s) (hcalls : starts trace = seen.map callFor)
    {s' : MultiNotificationStream} (hpoll : s.pollNext answers = (.ready none, s')) {reason : ManyEndReason}
    (hitem : (runWatchMany display names.length answers).onItem ((starts trace).filterMap ManyCall.failure) none =
      .error reason) :
    Verdict answers names seen trace reason := by
  have hlater := h.pollNext
  have hover := ((pollNext_ended answers s).mp (by rw [hpoll])).2
  rw [hpoll, show yieldOf (.ready none : Poll (Option (Yield ν ClientError))) = none from rfl, Option.toList_none,
    List.append_nil] at hlater
  rw [hpoll] at hover
  have hread := fun i hi => hlater.accounted.drained (i := i) hlater.retired hover hi
  have hcount := hlater.failing.all
  rw [hlater.accounted.length, ← failuresOf_length] at hcount
  have hkept : (starts trace).filterMap ManyCall.failure = failuresOf seen := by
    rw [hcalls]
    rfl
  rw [hkept] at hitem
  simp only [runWatchMany] at hitem
  split at hitem
  · cases hitem
    exact .allFailed hread (hcount.mp ‹_›)
  · cases hitem
    refine .drained hread ?_
    by_contra hnone
    push Not at hnone
    exact absurd (hcount.mpr hnone) ‹_›

end Aviso.Ffi
