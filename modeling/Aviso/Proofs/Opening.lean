import Aviso.Watch.Guards

namespace Aviso.Watch

open Finesse (Frame Message)

namespace Opening

/-- The control event that opens a stream, from a start position or live. -/
def IsOpening (serde : Serde) (historical : Bool) (m : Message) : Prop :=
  m.event = (if historical then "replay-control".toList else "live-notification".toList) ∧
    ∃ value, serde.fromStr m.data = some value ∧
      (value.get "type".toList).bind Json.asStr =
        some (if historical then "replay_started".toList else "connection_established".toList) ∧
      ∃ endSequence, endOf value = .ok endSequence

/-- Data, control, closing and error events. -/
def Watched (m : Message) : Prop :=
  m.event = "live-notification".toList ∨ m.event = "replay".toList ∨
    m.event = "replay-control".toList ∨ m.event = "error".toList ∨
    m.event = "connection-closing".toList

variable {serde : Serde} {historical : Bool} {m : Message} {opening : Opening}

/-- What the examination of a message comes to. -/
inductive Examined (serde : Serde) (historical : Bool) (m : Message) : Except ClientError (Option Opening) → Prop where
  | opens (opening : Opening) : IsOpening serde historical m → Examined serde historical m (.ok (some opening))
  | refuses (e : ClientError) : Watched m → ¬ IsOpening serde historical m →
      Examined serde historical m (.error e)
  | ignores : ¬ Watched m → Examined serde historical m (.ok none)

theorem examined_control (hcontrol : m.event = "live-notification".toList ∨ m.event = "replay".toList ∨
    m.event = "replay-control".toList) : Examined serde historical m (examine serde historical m) := by
  have hw : Watched m := by
    rcases hcontrol with h | h | h
    · exact .inl h
    · exact .inr (.inl h)
    · exact .inr (.inr (.inl h))
  unfold examine
  dsimp only
  rw [if_pos hcontrol]
  cases hvalue : serde.fromStr m.data with
  | none =>
    refine .refuses _ hw ?_
    rintro ⟨-, value, hsome, -⟩
    exact absurd (hvalue.symm.trans hsome) (by simp)
  | some value =>
    dsimp only
    by_cases hopening : m.event = (if historical then "replay-control".toList else "live-notification".toList) ∧
        (value.get "type".toList).bind Json.asStr =
          some (if historical then "replay_started".toList else "connection_established".toList)
    · rw [if_pos hopening]
      cases hend : endOf value with
      | ok endSequence => exact .opens _ ⟨hopening.1, value, hvalue, hopening.2, endSequence, hend⟩
      | error e =>
        refine .refuses e hw ?_
        rintro ⟨-, value', hsome, -, endSequence, hok⟩
        cases hvalue.symm.trans hsome
        cases hend.symm.trans hok
    · rw [if_neg hopening]
      refine .refuses _ hw ?_
      rintro ⟨hevent, value', hsome, htype, -⟩
      cases hvalue.symm.trans hsome
      exact hopening ⟨hevent, htype⟩

theorem IsOpening.control (h : IsOpening serde historical m) :
    m.event = "live-notification".toList ∨ m.event = "replay".toList ∨ m.event = "replay-control".toList := by
  cases historical with
  | false => exact .inl h.1
  | true => exact .inr (.inr h.1)

theorem examined (serde : Serde) (historical : Bool) (m : Message) :
    Examined serde historical m (examine serde historical m) := by
  by_cases hcontrol : m.event = "live-notification".toList ∨ m.event = "replay".toList ∨
      m.event = "replay-control".toList
  · exact examined_control hcontrol
  · have hno : ¬ IsOpening serde historical m := fun h => hcontrol h.control
    unfold examine
    dsimp only
    rw [if_neg hcontrol]
    split
    · rename_i herror
      have hw : Watched m := .inr (.inr (.inr (.inl herror)))
      split
      · exact .refuses _ hw hno
      · exact .refuses _ hw hno
    · rename_i herror
      split
      · rename_i hclosing
        exact .refuses _ (.inr (.inr (.inr (.inr hclosing)))) hno
      · rename_i hclosing
        refine .ignores ?_
        rintro (hw | hw | hw | hw | hw)
        · exact hcontrol (.inl hw)
        · exact hcontrol (.inr (.inl hw))
        · exact hcontrol (.inr (.inr hw))
        · exact herror hw
        · exact hclosing hw

theorem IsOpening.watched (h : IsOpening serde historical m) : Watched m := by
  rcases h.control with h | h | h
  · exact .inl h
  · exact .inr (.inl h)
  · exact .inr (.inr (.inl h))

theorem examine_opening (h : IsOpening serde historical m) :
    ∃ opening, examine serde historical m = .ok (some opening) := by
  have hcase := examined serde historical m
  generalize examine serde historical m = verdict at hcase ⊢
  cases hcase with
  | opens opening _ => exact ⟨opening, rfl⟩
  | refuses e _ hno => exact absurd h hno
  | ignores hw => exact absurd h.watched hw

theorem examine_refused (hw : Watched m) (hno : ¬ IsOpening serde historical m) :
    ∃ e, examine serde historical m = .error e := by
  have hcase := examined serde historical m
  generalize examine serde historical m = verdict at hcase ⊢
  cases hcase with
  | opens opening h => exact absurd h hno
  | refuses e _ _ => exact ⟨e, rfl⟩
  | ignores h => exact absurd hw h

theorem examine_unwatched (hno : ¬ Watched m) : examine serde historical m = .ok none := by
  have hcase := examined serde historical m
  generalize examine serde historical m = verdict at hcase ⊢
  cases hcase with
  | opens opening h => exact absurd h.watched hno
  | refuses e h _ => exact absurd h hno
  | ignores _ => rfl

theorem examine_some (h : examine serde historical m = .ok (some opening)) : IsOpening serde historical m := by
  have hcase := examined serde historical m
  rw [h] at hcase
  cases hcase
  assumption

theorem examine_none (h : examine serde historical m = .ok none) : ¬ Watched m := by
  have hcase := examined serde historical m
  rw [h] at hcase
  cases hcase
  assumption

theorem confirmed_message (serde : Serde) (historical : Bool) (m : Message) (rest : List Frame) :
    confirmed serde historical (.message m :: rest) =
      match examine serde historical m with
      | .error e => (.error e, rest)
      | .ok (some opening) => (.ok (some opening), rest)
      | .ok none => confirmed serde historical rest := rfl

/-- The gate passes over what it ignores. -/
theorem confirmed_skip {before : List Frame} (h : ∀ m, .message m ∈ before → ¬ Watched m)
    (rest : List Frame) : confirmed serde historical (before ++ rest) = confirmed serde historical rest := by
  induction before with
  | nil => rfl
  | cons frame before ih =>
    have hrest := ih fun m hm => h m (List.mem_cons_of_mem _ hm)
    cases frame with
    | retry ms => exact hrest
    | message m =>
      rw [List.cons_append, confirmed_message, examine_unwatched (h m List.mem_cons_self)]
      exact hrest

theorem confirmed_none {frames rest : List Frame}
    (h : confirmed serde historical frames = (.ok none, rest)) :
    rest = [] ∧ ∀ m, .message m ∈ frames → ¬ Watched m := by
  induction frames with
  | nil =>
    cases h
    exact ⟨rfl, fun m hm => by cases hm⟩
  | cons frame frames ih =>
    cases frame with
    | retry ms =>
      obtain ⟨hrest, hall⟩ := ih h
      refine ⟨hrest, ?_⟩
      intro m hm
      rcases List.mem_cons.mp hm with heq | hm
      · cases heq
      · exact hall m hm
    | message m =>
      rw [confirmed_message] at h
      split at h
      · cases h
      · cases h
      · rename_i hexamine
        obtain ⟨hrest, hall⟩ := ih h
        refine ⟨hrest, ?_⟩
        intro m' hm
        rcases List.mem_cons.mp hm with heq | hm
        · cases heq
          exact examine_none hexamine
        · exact hall m' hm

/-- The frames the gate takes end with the opening. -/
theorem confirmed_some {frames rest : List Frame}
    (h : confirmed serde historical frames = (.ok (some opening), rest)) :
    ∃ before m, frames = before ++ .message m :: rest ∧ (∀ m, .message m ∈ before → ¬ Watched m) ∧
      IsOpening serde historical m := by
  induction frames with
  | nil => cases h
  | cons frame frames ih =>
    cases frame with
    | retry ms =>
      obtain ⟨before, m, rfl, hall, hm⟩ := ih h
      refine ⟨.retry ms :: before, m, rfl, ?_, hm⟩
      intro m' hm'
      rcases List.mem_cons.mp hm' with heq | hm'
      · cases heq
      · exact hall m' hm'
    | message m =>
      rw [confirmed_message] at h
      split at h
      · cases h
      · rename_i hexamine
        cases h
        exact ⟨[], m, rfl, by simp, examine_some hexamine⟩
      · rename_i hexamine
        obtain ⟨before, m', rfl, hall, hm'⟩ := ih h
        refine ⟨.message m :: before, m', rfl, ?_, hm'⟩
        intro m'' hm''
        rcases List.mem_cons.mp hm'' with heq | hm''
        · cases heq
          exact examine_none hexamine
        · exact hall m'' hm''

theorem confirmed_opening {before : List Frame} (h : ∀ m, .message m ∈ before → ¬ Watched m)
    (hm : IsOpening serde historical m) (rest : List Frame) :
    ∃ opening, confirmed serde historical (before ++ .message m :: rest) = (.ok (some opening), rest) := by
  obtain ⟨opening, hexamine⟩ := examine_opening hm
  refine ⟨opening, ?_⟩
  rw [confirmed_skip h, confirmed_message, hexamine]

theorem confirmed_refused {before : List Frame} (h : ∀ m, .message m ∈ before → ¬ Watched m)
    (hw : Watched m) (hno : ¬ IsOpening serde historical m) (rest : List Frame) :
    ∃ e, confirmed serde historical (before ++ .message m :: rest) = (.error e, rest) := by
  obtain ⟨e, hexamine⟩ := examine_refused hw hno
  refine ⟨e, ?_⟩
  rw [confirmed_skip h, confirmed_message, hexamine]

end Opening

end Aviso.Watch
