import Mathlib.Data.List.Sublists
import Aviso.Proofs.ShellSimulation
import Aviso.Template.PosixParser

namespace Aviso.Template
open ShellTracker
open Posix

variable {commandWord reparsing waits : Bool} {word word' : Word} {r : Command} {t : ShellTracker}

/-! ### What the tracker records of a word -/

@[simp] theorem Word.push_redirectOperand (w : Word) (c : Char) : (w.push c).redirectOperand = w.redirectOperand := by
  unfold Word.push
  grind

@[simp] theorem Word.push_isOpaque (w : Word) (c : Char) : (w.push c).isOpaque = w.isOpaque := by
  unfold Word.push
  grind

theorem Word.push_assignment (w : Word) (c : Char) : (w.push c).assignment = (w.assignment || decide (c = '=')) := by
  unfold Word.push
  grind

/-- Whether part of it is opaque does not change what is recorded of the rest. -/
theorem Word.push_plain (w : Word) (c : Char) :
    { w.push c with isOpaque := false } = { w with isOpaque := false }.push c := by
  unfold Word.push
  grind

theorem Word.push_text {w : Word} {s : Text} (h : w.text.Sublist s) (c : Char) :
    (w.push c).text.Sublist (s ++ [c]) := by
  have hkept : w.text.Sublist (s ++ [c]) := h.trans (List.sublist_append_left s [c])
  have hgrown : (w.text ++ [c]).Sublist (s ++ [c]) := h.append (List.Sublist.refl [c])
  unfold Word.push
  grind

theorem foldl_push_text (s : Text) :
    (s.foldl Word.push .empty).text.Sublist s ∧ ((s.foldl Word.push .empty).assignment = true → '=' ∈ s) := by
  induction s using List.reverseRecOn with
  | nil => exact ⟨List.Sublist.refl [], by rintro ⟨⟩⟩
  | append_singleton s c ih =>
    rw [List.foldl_append]
    refine ⟨Word.push_text ih.1 c, fun h => ?_⟩
    change ((s.foldl Word.push .empty).push c).assignment = true at h
    rw [Word.push_assignment] at h
    grind

/-- What is recorded of a word is enough of its text, as far as that is known. -/
inductive Recorded (word : Word) : Spelling → Prop where
  | bare {s : Text} : { word with isOpaque := false } = s.foldl Word.push .empty → Recorded word (.bare s)
  | quoted {s : Text} : word.isOpaque = true → word.text.Sublist s → (word.assignment = true → '=' ∈ s) →
      Recorded word (.quoted s)
  | unknown : Recorded word .unknown

theorem Recorded.push {word : Word} {spelling : Spelling} (h : Recorded word spelling) (c : Char) :
    Recorded (word.push c) (spelling.push c) := by
  cases h with
  | bare h =>
    refine .bare ?_
    rw [Word.push_plain, h, List.foldl_append]
    rfl
  | quoted hisOpaque htext hassigns =>
    refine .quoted ?_ (Word.push_text htext c) fun h => ?_
    · rw [Word.push_isOpaque, hisOpaque]
    · rw [Word.push_assignment] at h
      grind
  | unknown => exact .unknown

/-- Quoted text is not recorded, but that the word is opaque. -/
theorem Recorded.quote {word : Word} {spelling : Spelling} (h : Recorded word spelling) (s : Text) :
    Recorded { word with isOpaque := true } (spelling.quote s) := by
  cases h with
  | @bare before h =>
    obtain ⟨htext, hassigns⟩ := foldl_push_text before
    rw [← h] at htext hassigns
    exact .quoted rfl (htext.trans (List.sublist_append_left before s)) fun h => List.mem_append_left _ (hassigns h)
  | quoted _ htext hassigns =>
    exact .quoted rfl (htext.trans (List.sublist_append_left _ s)) fun h => List.mem_append_left _ (hassigns h)
  | unknown => exact .unknown

theorem Recorded.setOpaque {word : Word} {spelling : Spelling} (h : Recorded word spelling) :
    Recorded { word with isOpaque := true } spelling := by
  cases h with
  | bare h => exact .bare h
  | quoted _ htext hassigns => exact .quoted rfl htext hassigns
  | unknown => exact .unknown

/-- The tracker's word is the one being read, as far as that decides what it does. -/
structure Spelled (reparsing : Bool) (word : Word) (part : Part) : Prop where
  operand : word.redirectOperand = false
  assignment : part.assignment = true → word.assignment = true ∨ reparsing = true
  recorded : Recorded word part.spelling

theorem spelled_new (reparsing : Bool) {word : Word} (h : { word with isOpaque := false } = Word.empty) :
    Spelled reparsing word .new := by
  refine ⟨?_, by rintro ⟨⟩, .bare h⟩
  have hoperand := congrArg Word.redirectOperand h
  exact hoperand

/-- The tracker refuses a value wherever the command exposes it; `waits` while the operand of a
redirection has not started. -/
structure Guards (commandWord reparsing waits : Bool) (word : Word) (r : Command) : Prop where
  nested : r.role = .nested → r = .nested
  position : r.role.isCommand = true → commandWord = true ∨ reparsing = true
  reread : ∀ name, r.role = .arguments (some name) → rereads name = true → reparsing = true
  waiting : waits = true → r = .nested ∨ r.operand = true ∧ r.word = .new
  operand : r.operand = true → waits = true ∨ word.redirectOperand = true ∧ r.word ≠ .new
  spelled : r.role.isCommand = true → r.operand = false → Spelled reparsing word r.word

theorem guards_nested (commandWord reparsing waits : Bool) (word : Word) :
    Guards commandWord reparsing waits word .nested where
  nested := fun _ => rfl
  position := by rintro ⟨⟩
  reread := by rintro _ ⟨⟩
  waiting := fun _ => .inl rfl
  operand := by rintro ⟨⟩
  spelled := by rintro ⟨⟩

/-- Where a command starts, the tracker knows it. -/
theorem guards_start (reparsing : Bool) (third : Bool) (h : { word with isOpaque := false } = Word.empty) :
    Guards true reparsing false word ⟨.start third, .new, false⟩ where
  nested := by rintro ⟨⟩
  position := fun _ => .inl rfl
  reread := by rintro _ ⟨⟩
  waiting := by rintro ⟨⟩
  operand := by rintro ⟨⟩
  spelled := fun _ _ => spelled_new reparsing h

theorem grow_operand (r : Command) (spell : Spelling → Spelling) (assigns : Spelling → Bool) :
    (r.grow spell assigns).operand = r.operand := by
  unfold Command.grow
  grind

theorem grow_role (r : Command) (spell : Spelling → Spelling) (assigns : Spelling → Bool) :
    (r.grow spell assigns).role = r.role := by
  unfold Command.grow
  grind

theorem grow_other (r : Command) (spell : Spelling → Spelling) (assigns : Spelling → Bool)
    (h : r.operand = true) : r.role = .nested ∨ (r.grow spell assigns).word = .other := by
  unfold Command.grow
  grind

theorem grow_command (spell : Spelling → Spelling) (assigns : Spelling → Bool) (hrole : r.role.isCommand = true)
    (hoperand : r.operand = false) :
    (r.grow spell assigns).word = ⟨spell r.word.spelling, r.word.assignment || assigns r.word.spelling⟩ := by
  unfold Command.grow
  cases hp : r.role <;> simp_all [Role.isCommand]

theorem grow_nested (spell : Spelling → Spelling) (assigns : Spelling → Bool) :
    Command.nested.grow spell assigns = .nested := rfl

/-- A word grows. -/
theorem Guards.grow (h : Guards commandWord reparsing waits word r)
    (hstarts : waits = true → word'.redirectOperand = true)
    (hkept : word.redirectOperand = true → word'.redirectOperand = true)
    {spell : Spelling → Spelling} {assigns : Spelling → Bool}
    (hspelled : r.role.isCommand = true → r.operand = false → Spelled reparsing word r.word →
      Spelled reparsing word' ⟨spell r.word.spelling, r.word.assignment || assigns r.word.spelling⟩) :
    Guards commandWord reparsing false word' (r.grow spell assigns) := by
  by_cases hnested : r.role = .nested
  · rw [h.nested hnested, grow_nested]
    exact guards_nested _ _ _ _
  refine ⟨?_, ?_, ?_, by rintro ⟨⟩, fun hoperand => .inr ?_, fun hcommand hoperand => ?_⟩
  · rw [grow_role]
    exact fun hnested' => absurd hnested' hnested
  · rw [grow_role]
    exact h.position
  · rw [grow_role]
    exact h.reread
  · rw [grow_operand] at hoperand
    rcases grow_other r spell assigns hoperand with hnested' | hother
    · exact absurd hnested' hnested
    · refine ⟨?_, by rw [hother]; decide⟩
      rcases h.operand hoperand with hwaits | ⟨hredirect, _⟩
      · exact hstarts hwaits
      · exact hkept hredirect
  · rw [grow_role] at hcommand
    rw [grow_operand] at hoperand
    rw [grow_command spell assigns hcommand hoperand]
    exact hspelled hcommand hoperand (h.spelled hcommand hoperand)

/-- An escape, a quote or an expansion changes the word only in that it is opaque. -/
theorem Guards.quote (h : Guards commandWord reparsing waits word r)
    (hstarts : waits = true → word.redirectOperand = true)
    (s : Text) : Guards commandWord reparsing false { word with isOpaque := true } (r.quote s) := by
  refine h.grow ?_ ?_ fun hcommand _ hspelled => ?_
  · exact hstarts
  · exact id
  · rw [if_pos hcommand, Bool.or_false]
    exact ⟨hspelled.operand, hspelled.assignment, hspelled.recorded.quote s⟩

theorem Guards.expand (h : Guards commandWord reparsing waits word r)
    (hstarts : waits = true → word'.redirectOperand = true)
    (hoperand : word'.redirectOperand = word.redirectOperand)
    (hassignment : word.assignment = true → word'.assignment = true) :
    Guards commandWord reparsing false word' r.expand := by
  refine h.grow hstarts (fun h => hoperand.trans h) fun _ _ hspelled => ?_
  rw [Bool.or_false]
  refine ⟨hoperand.trans hspelled.operand, fun h => ?_, .unknown⟩
  exact (hspelled.assignment h).imp_left hassignment

theorem Guards.push (h : Guards commandWord reparsing waits word r)
    (hstarts : waits = true → word.redirectOperand = true)
    (c : Char) : Guards commandWord reparsing false (word.push c) (r.push c) := by
  refine h.grow ?_ ?_ fun _ _ hspelled => ⟨?_, fun hassigns => ?_, hspelled.recorded.push c⟩
  · rw [Word.push_redirectOperand]
    exact hstarts
  · rw [Word.push_redirectOperand]
    exact id
  · rw [Word.push_redirectOperand]
    exact hspelled.operand
  · rw [Word.push_assignment]
    have hbefore := hspelled.assignment
    grind

/-! ### The end of a word -/

/-- Each reserved word that the tracker must know, as it records it. -/
theorem opensCommand_recorded {s : Text} (h : opensCommand s = true) :
    leavesCommandPositionOpen (s.foldl Word.push .empty) = true := by
  unfold opensCommand at h
  simp only [List.any_cons, List.any_nil, Bool.or_false, Bool.or_eq_true, decide_eq_true_eq] at h
  obtain rfl | rfl | rfl | rfl | rfl | rfl | rfl | rfl | rfl := h
  all_goals decide

theorem leavesOpen_isOpaque (w : Word) (isOpaque : Bool) :
    leavesCommandPositionOpen { w with isOpaque := isOpaque } = leavesCommandPositionOpen w := rfl

/-- The names of the commands that reread their arguments, as the tracker records them. -/
theorem rereads_recorded {s : Text} (h : rereads s = true) :
    leavesCommandPositionOpen (s.foldl Word.push .empty) = false ∧
      reparsesItsArguments (s.foldl Word.push .empty).text = true ∧ (s.foldl Word.push .empty).isEmpty = false := by
  unfold rereads at h
  simp only [List.any_cons, List.any_nil, Bool.or_false, Bool.or_eq_true, decide_eq_true_eq] at h
  obtain rfl | rfl | rfl | rfl | rfl | rfl | rfl | rfl | rfl | rfl | rfl := h
  all_goals decide

/-- No part of such a name leaves the command position open. -/
theorem rereads_sublist {s u : Text} (h : rereads s = true) (hu : u.Sublist s) (isOpaque redirectOperand : Bool) :
    leavesCommandPositionOpen ⟨u, false, redirectOperand, isOpaque⟩ = false := by
  have hall : ∀ name ∈ ["eval", "trap", ".", "source", "sh", "bash", "dash", "zsh", "ksh", "ash", "busybox"],
      ∀ u ∈ name.toList.sublists, leavesCommandPositionOpen ⟨u, false, false, false⟩ = false := by
    decide +kernel
  unfold rereads at h
  obtain ⟨name, hname, hs⟩ := List.any_eq_true.mp h
  exact hall name hname u (List.mem_sublists.mpr (of_decide_eq_true hs ▸ hu))

theorem rereads_plain {s : Text} (h : rereads s = true) : '=' ∉ s := by
  unfold rereads at h
  simp only [List.any_cons, List.any_nil, Bool.or_false, Bool.or_eq_true, decide_eq_true_eq] at h
  obtain rfl | rfl | rfl | rfl | rfl | rfl | rfl | rfl | rfl | rfl | rfl := h
  all_goals decide

/-- The words after which a blank changes nothing. -/
def leavesFlags (word : Word) : Bool := word.isEmpty || word.redirectOperand || leavesCommandPositionOpen word

theorem endWord_false (t : ShellTracker) :
    (t.endWord false).word = .empty ∧
      (t.endWord false).commandWord = (leavesFlags t.word && t.commandWord) ∧
      (t.endWord false).reparsingCommand = (t.reparsingCommand ||
        !leavesFlags t.word && (t.commandWord && t.word.isOpaque || reparsesItsArguments t.word.text)) := by
  unfold endWord leavesFlags
  by_cases hcase : t.word.text = "case".toList
  · simp only [hcase, if_true, flag]
    cases h₁ : t.word.isEmpty <;> cases h₂ : t.word.redirectOperand <;> cases h₃ : leavesCommandPositionOpen t.word <;>
      simp_all [Bool.or_assoc]
  · simp only [hcase, if_false]
    cases h₁ : t.word.isEmpty <;> cases h₂ : t.word.redirectOperand <;> cases h₃ : leavesCommandPositionOpen t.word <;>
      simp_all [Bool.or_assoc]

/-- A command starts after an assignment or a reserved word. -/
theorem after_isCommand {role : Role} {part : Part} (h : (role.after part).isCommand = true) :
    (role.isCommand = true ∧ (part.assignment = true ∨ ∃ s, part.spelling = .bare s ∧ opensCommand s = true)) ∨
      role = .closed ∨ role = .forWords := by
  cases role with
  | start third =>
    refine .inl ⟨rfl, ?_⟩
    dsimp only [Role.after] at h
    split at h
    · rename_i hassigns
      exact .inl hassigns
    · split at h
      · rename_i hbare
        refine .inr ⟨_, hbare, ?_⟩
        unfold Role.afterReserved at h
        split at h
        · rename_i hopens
          exact hopens
        · split_ifs at h <;> cases h
      · cases h
  | prefixed =>
    refine .inl ⟨rfl, .inl ?_⟩
    dsimp only [Role.after] at h
    split at h
    · rename_i hassigns
      exact hassigns
    · cases h
  | closed => exact .inr (.inl rfl)
  | forWords => exact .inr (.inr rfl)
  | arguments | forName | nested => cases h

/-- The command word is literal where all of it is known. -/
theorem after_arguments {role : Role} {part : Part} {name : Text} (h : role.after part = .arguments (some name)) :
    role = .arguments (some name) ∨ role.isCommand = true ∧ part.spelling.text = some name := by
  cases role with
  | start third =>
    refine .inr ⟨rfl, ?_⟩
    dsimp only [Role.after] at h
    split at h
    · cases h
    · split at h
      · rename_i hbare
        unfold Role.afterReserved at h
        split_ifs at h
        · cases h
        · cases h
          rw [hbare]
          rfl
      · exact Role.arguments.inj h
  | prefixed =>
    refine .inr ⟨rfl, ?_⟩
    dsimp only [Role.after] at h
    split at h
    · cases h
    · exact Role.arguments.inj h
  | closed =>
    dsimp only [Role.after] at h
    split at h
    · split_ifs at h
      cases h
    · cases h
  | forWords =>
    dsimp only [Role.after] at h
    split at h <;> cases h
  | arguments name => exact .inl h
  | forName | nested => cases h

theorem after_nested {role : Role} {part : Part} (h : role.after part = .nested) : role = .nested := by
  cases role with
  | start third =>
    dsimp only [Role.after] at h
    split at h
    · cases h
    · split at h
      · unfold Role.afterReserved at h
        split_ifs at h
      · cases h
  | prefixed =>
    dsimp only [Role.after] at h
    split at h <;> cases h
  | closed =>
    dsimp only [Role.after] at h
    split at h
    · split_ifs at h
    · cases h
  | forWords =>
    dsimp only [Role.after] at h
    split at h <;> cases h
  | nested => rfl
  | arguments | forName => cases h

/-- Between two words the tracker has nothing recorded. -/
theorem guards_between {role : Role} (hnested : role ≠ .nested)
    (hposition : role.isCommand = true → commandWord = true ∨ reparsing = true)
    (hreread : ∀ name, role = .arguments (some name) → rereads name = true → reparsing = true) :
    Guards commandWord reparsing false .empty ⟨role, .new, false⟩ where
  nested h := absurd h hnested
  position := hposition
  reread := hreread
  waiting := by rintro ⟨⟩
  operand := by rintro ⟨⟩
  spelled _ _ := spelled_new reparsing rfl

theorem isEmpty_eq_false {s : Text} (h : { word with isOpaque := false } = s.foldl Word.push .empty)
    (hs : (s.foldl Word.push .empty).isEmpty = false) : word.isEmpty = false := by
  rw [← h] at hs
  unfold Word.isEmpty at hs ⊢
  grind

/-- What the tracker leaves as it is after a word that keeps the command position open. -/
theorem Spelled.opens (h : Spelled t.reparsingCommand t.word r.word)
    (hopens : r.word.assignment = true ∨ ∃ s, r.word.spelling = .bare s ∧ opensCommand s = true) :
    leavesFlags t.word = true ∨ t.reparsingCommand = true := by
  unfold leavesFlags
  rcases hopens with hassigns | ⟨s, hbare, hopens⟩
  · refine (h.assignment hassigns).imp_left fun hassigns => ?_
    unfold leavesCommandPositionOpen
    rw [hassigns]
    simp
  · left
    have hrecorded := h.recorded
    rw [hbare] at hrecorded
    cases hrecorded with
    | bare hword =>
      have hopen := opensCommand_recorded hopens
      rw [← hword, leavesOpen_isOpaque] at hopen
      rw [hopen, Bool.or_true]

/-- A literal name of a command that rereads its arguments is known when it ends. -/
theorem Spelled.rereads (h : Spelled t.reparsingCommand t.word r.word)
    (hposition : t.commandWord = true ∨ t.reparsingCommand = true) {name : Text}
    (hname : r.word.spelling.text = some name)
    (hrereads : rereads name = true) : (t.endWord false).reparsingCommand = true := by
  rw [(endWord_false t).2.2]
  have hrecorded := h.recorded
  cases hspelling : r.word.spelling with
  | unknown =>
    rw [hspelling] at hname
    cases hname
  | bare s =>
    rw [hspelling] at hname hrecorded
    cases hname
    cases hrecorded with
    | bare hword =>
      obtain ⟨hopen, hreparses, hempty⟩ := rereads_recorded hrereads
      have hnonempty := isEmpty_eq_false hword hempty
      rw [← hword] at hreparses hopen
      rw [leavesOpen_isOpaque] at hopen
      have hknown : reparsesItsArguments t.word.text = true := hreparses
      unfold leavesFlags
      rw [hnonempty, h.operand, hopen, hknown]
      simp
  | quoted s =>
    rw [hspelling] at hname hrecorded
    cases hname
    cases hrecorded with
    | quoted hisOpaque htext hassigns =>
      have hplain : t.word.assignment = false := by
        by_contra hassigned
        exact rereads_plain hrereads (hassigns (by simpa using hassigned))
      have hopen : leavesCommandPositionOpen t.word = false := by
        have hword : t.word = ⟨t.word.text, false, t.word.redirectOperand, t.word.isOpaque⟩ := by rw [← hplain]
        exact (congrArg leavesCommandPositionOpen hword).trans (rereads_sublist hrereads htext _ _)
      have hnonempty : t.word.isEmpty = false := by
        unfold Word.isEmpty
        rw [hisOpaque]
        simp
      unfold leavesFlags
      rw [hnonempty, h.operand, hopen, hisOpaque]
      rcases hposition with hposition | hposition
      · rw [hposition]
        simp
      · rw [hposition]
        rfl

theorem endWord_raised (t : ShellTracker) (h : t.reparsingCommand = true) :
    (t.endWord false).reparsingCommand = true := by
  rw [(endWord_false t).2.2, h]
  rfl

theorem endWord_kept (hkept : leavesFlags t.word = true ∨ t.reparsingCommand = true)
    (hposition : t.commandWord = true ∨ t.reparsingCommand = true) :
    (t.endWord false).commandWord = true ∨ (t.endWord false).reparsingCommand = true := by
  rcases hkept with hkept | hreparsing
  · refine hposition.imp (fun h => ?_) (endWord_raised t)
    rw [(endWord_false t).2.1, hkept, h]
    rfl
  · exact .inr (endWord_raised t hreparsing)

/-- A blank before a word starts. -/
theorem Guards.blank_new (h : Guards t.commandWord t.reparsingCommand false t.word r) (hnested : r.role ≠ .nested)
    (hnew : r.word = .new) :
    Guards (t.endWord false).commandWord (t.endWord false).reparsingCommand false .empty r := by
  have hoperand : r.operand = false := by
    by_contra hoperand
    rcases h.operand (by simpa using hoperand) with hwaits | ⟨_, hword⟩
    · cases hwaits
    · exact hword hnew
  have hsame : r = ⟨r.role, .new, false⟩ := by
    rw [← hnew, ← hoperand]
  rw [hsame]
  refine guards_between hnested (fun hcommand => ?_) fun name hname hrereads =>
    endWord_raised t (h.reread name hname hrereads)
  have hspelled := h.spelled hcommand hoperand
  have hposition := h.position hcommand
  rw [hnew] at hspelled
  cases hspelled.recorded with
  | bare hword =>
    -- Only a value in a comment leaves the tracker with an opaque word that has not started.
    have htext : t.word.text = [] := congrArg Word.text hword
    have hassigns : t.word.assignment = false := congrArg Word.assignment hword
    cases hisOpaque : t.word.isOpaque with
    | false =>
      refine endWord_kept (.inl ?_) hposition
      unfold leavesFlags Word.isEmpty
      rw [htext, hassigns, hspelled.operand, hisOpaque]
      rfl
    | true =>
      right
      rw [(endWord_false t).2.2]
      have hflags : leavesFlags t.word = false := by
        unfold leavesFlags Word.isEmpty leavesCommandPositionOpen
        rw [htext, hassigns, hspelled.operand, hisOpaque]
        decide
      rw [hflags, hisOpaque]
      rcases hposition with hposition | hposition <;> rw [hposition] <;> simp

/-- A word ends with a blank. -/
theorem Guards.blank (h : Guards t.commandWord t.reparsingCommand false t.word r) (hreopens : r.reopens = false) :
    Guards (t.endWord false).commandWord (t.endWord false).reparsingCommand false (t.endWord false).word r.endWord := by
  rw [(endWord_false t).1]
  by_cases hnested : r.role = .nested
  · rw [h.nested hnested]
    exact guards_nested _ _ _ _
  unfold Command.endWord
  by_cases hnew : r.word = .new
  · rw [if_pos hnew]
    exact h.blank_new hnested hnew
  rw [if_neg hnew]
  cases hoperand : r.operand with
  | true =>
    rw [if_pos rfl]
    have hkept : leavesFlags t.word = true := by
      rcases h.operand hoperand with hwaits | ⟨hredirect, _⟩
      · cases hwaits
      · unfold leavesFlags
        rw [hredirect]
        simp
    exact guards_between hnested (fun hcommand => endWord_kept (.inl hkept) (h.position hcommand))
      fun name hname hrereads => endWord_raised t (h.reread name hname hrereads)
  | false =>
    rw [if_neg (by decide)]
    refine guards_between (fun hafter => hnested (after_nested hafter)) (fun hcommand => ?_)
      fun name hname hrereads => ?_
    · rcases after_isCommand hcommand with ⟨hrole, hopens⟩ | hcompound
      · exact endWord_kept ((h.spelled hrole hoperand).opens hopens) (h.position hrole)
      · unfold Command.reopens at hreopens
        rcases hcompound with hrole | hrole <;> simp [hoperand, hrole] at hreopens hcommand <;>
          simp [hcommand] at hreopens
    · rcases after_arguments hname with hrole | ⟨hrole, htext⟩
      · exact endWord_raised t (h.reread name hrole hrereads)
      · exact (h.spelled hrole hoperand).rereads (h.position hrole) htext hrereads

theorem endWord_isCommand (hreopens : r.reopens = false) (h : r.endWord.role.isCommand = true) :
    r.role.isCommand = true := by
  unfold Command.endWord at h
  split_ifs at h with hnew hoperand
  · exact h
  · exact h
  · rcases after_isCommand h with ⟨hrole, _⟩ | hcompound
    · exact hrole
    · unfold Command.reopens at hreopens
      rcases hcompound with hrole | hrole <;> simp_all

theorem endWord_arguments {name : Text} (h : r.endWord.role = .arguments (some name)) :
    r.role = .arguments (some name) ∨
      r.role.isCommand = true ∧ r.operand = false ∧ r.word.spelling.text = some name := by
  unfold Command.endWord at h
  split_ifs at h with hnew hoperand
  · exact .inl h
  · exact .inl h
  · exact (after_arguments h).imp_right fun hafter => ⟨hafter.1, by simpa using hoperand, hafter.2⟩

theorem endWord_word (r : Command) : r.endWord.word = .new := by
  unfold Command.endWord
  split_ifs with hnew hoperand
  · exact hnew
  · rfl
  · rfl

theorem endWord_nested (h : r.endWord.role = .nested) : r.role = .nested := by
  unfold Command.endWord at h
  split_ifs at h with hnew hoperand
  · exact h
  · exact h
  · exact after_nested h

/-- A redirection leaves the tracker's flags as they are. -/
theorem Guards.redirect (h : Guards commandWord reparsing waits word r) (hreopens : r.reopens = false)
    (hnames : r.names = false) (word' : Word) : Guards commandWord reparsing true word' r.redirect := by
  have hended : ∀ role : Role, (∀ name, role.redirected = .arguments (some name) → role = .arguments (some name)) ∧
      (role.redirected.isCommand = true → role.isCommand = true) ∧ (role.redirected = .nested → role = .nested) := by
    intro role
    cases role <;> simp [Role.redirected, Role.isCommand]
  unfold Command.redirect
  extract_lets ended
  by_cases hnested : r.role = .nested
  · rw [if_pos hnested, h.nested hnested]
    exact guards_nested _ _ _ _
  rw [if_neg hnested]
  obtain ⟨harguments, hcommand, hnested'⟩ := hended ended.role
  refine ⟨fun h' => absurd ?_ hnested, fun h' => h.position ?_, fun name h' hrereads => ?_, fun _ => .inr ⟨rfl, rfl⟩,
    fun _ => .inl rfl, fun _ => by rintro ⟨⟩⟩
  · have hrole := hnested' h'
    unfold ended at hrole
    split at hrole
    · exact hrole
    · exact endWord_nested hrole
  · have hrole := hcommand h'
    unfold ended at hrole
    split at hrole
    · exact hrole
    · exact endWord_isCommand hreopens hrole
  · have hrole := harguments name h'
    unfold ended at hrole
    split at hrole
    · exact h.reread name hrole hrereads
    · rcases endWord_arguments hrole with hrole | ⟨hrole, hoperand, htext⟩
      · exact h.reread name hrole hrereads
      · unfold Command.names at hnames
        simp [hrole, hoperand, htext, hrereads] at hnames

/-! ### Nesting -/

/-- What the tracker keeps of the command around a level, to be restored when the level closes. -/
structure Saved (level : Level) (r : Command) : Prop where
  expanded : r.expand = r
  guards : ∀ word : Word, word.redirectOperand = level.outerRedirectOperand →
    Guards level.outerCommandWord level.outerReparsing false word r

/-- The commands around the levels, from the innermost level out. -/
def Stacked : Level → List Level → List Command → Prop
  | _, [], [] => True
  | level, around :: levels, r :: outer =>
    Saved level r ∧ (around.opener = .brace → r = .nested) ∧
      (outer.any Command.exposes = true → level.outerReparsing = true) ∧ Stacked around levels outer
  | _, _, _ => False

theorem saved_nested (level : Level) : Saved level .nested :=
  ⟨rfl, fun _ _ => guards_nested _ _ _ _⟩

/-- The tracker guards every command that is being read. -/
structure Guarded (t : ShellTracker) (waits : Bool) (cs : Commands) : Prop where
  guards : Guards t.commandWord t.reparsingCommand waits t.word cs.command
  braces : t.opener = .brace → cs.command = .nested
  enclosed : t.context = .singleQuoted ∨ t.context = .doubleQuoted → cs.command.quote [] = cs.command
  cleared : t.context = .comment ∨ t.context = .bare ∧ t.wordStart = true →
    { t.word with isOpaque := false } = Word.empty ∧ cs.command.word = .new
  inherited : cs.outer.any Command.exposes = true → t.reparsingCommand = true
  stacked : Stacked t.level t.outer cs.outer

theorem guarded_new : Guarded .new false .new where
  guards := guards_start false false rfl
  braces := by rintro ⟨⟩
  enclosed := by rintro (⟨⟨⟩⟩ | ⟨⟨⟩⟩)
  cleared _ := ⟨rfl, rfl⟩
  inherited := by rintro ⟨⟩
  stacked := trivial

/-- Where a command exposes a value, the tracker refuses one. -/
theorem Guards.refuses (h : Guards commandWord reparsing waits word r) (hexposes : r.exposes = true) :
    waits = true ∨ word.redirectOperand = true ∨ commandWord = true ∨ reparsing = true := by
  unfold Command.exposes at hexposes
  rcases Bool.or_eq_true_iff.mp hexposes with hoperand | hrole
  · exact (h.operand hoperand).imp_right fun hword => .inl hword.1
  · right
    right
    cases hr : r.role with
    | start | prefixed => exact h.position (by rw [hr]; rfl)
    | arguments name =>
      rw [hr] at hrole
      cases name with
      | none => cases hrole
      | some name => exact .inr (h.reread name hr hrole)
    | closed | forName | forWords | nested =>
      rw [hr] at hrole
      cases hrole

theorem expand_expand (r : Command) : r.expand.expand = r.expand := by
  unfold Command.expand Command.grow
  cases hr : r.role <;> cases hoperand : r.operand <;> simp [hr]

/-- Quoting adds nothing to a word that an expansion is part of. -/
theorem quote_of_expanded (h : r.expand = r) (s : Text) : r.quote s = r := by
  rw [← h]
  unfold Command.quote Command.expand Command.grow
  cases hr : r.role <;> cases r.operand <;> simp [Spelling.quote, hr]

/-- After an expansion that starts the command word, what follows may be read as shell code. -/
theorem openLevel_outerReparsing (t : ShellTracker) {opener : Opener} (hgroup : opener ≠ .group) :
    (t.openLevel opener).level.outerReparsing = (t.reparsingCommand || t.commandWord) := by
  unfold openLevel
  simp [hgroup]

/-- The tracker keeps enough of the command around a `$( )` or a `${ }`. -/
theorem Guards.saved (h : Guards t.commandWord t.reparsingCommand waits t.word r)
    (hstarts : waits = true → t.word.redirectOperand = true) {opener : Opener} (hgroup : opener ≠ .group) :
    Saved (t.openLevel opener).level r.expand := by
  have hraised := openLevel_outerReparsing t hgroup
  have hposition : (t.openLevel opener).level.outerCommandWord = t.commandWord := rfl
  have hredirect : (t.openLevel opener).level.outerRedirectOperand = t.word.redirectOperand := rfl
  refine ⟨expand_expand r, fun word hword => ?_⟩
  rw [hraised, hposition]
  rw [hredirect] at hword
  by_cases hnested : r.role = .nested
  · rw [h.nested hnested]
    exact guards_nested _ _ _ _
  refine ⟨?_, ?_, ?_, by rintro ⟨⟩, fun hoperand => .inr ?_, fun hcommand hoperand => ?_⟩
  · rw [Command.expand, grow_role]
    exact fun hnested' => absurd hnested' hnested
  · rw [Command.expand, grow_role]
    intro hcommand
    have hknown := h.position hcommand
    grind
  · rw [Command.expand, grow_role]
    intro name hname hrereads
    rw [h.reread name hname hrereads]
    rfl
  · rw [Command.expand, grow_operand] at hoperand
    refine ⟨?_, ?_⟩
    · rw [hword]
      rcases h.operand hoperand with hwaits | ⟨hstarted, _⟩
      · exact hstarts hwaits
      · exact hstarted
    · rcases grow_other r (fun _ => .unknown) (fun _ => false) hoperand with hnested' | hother
      · exact absurd hnested' hnested
      · rw [Command.expand, hother]
        decide
  · rw [Command.expand, grow_role] at hcommand
    rw [Command.expand, grow_operand] at hoperand
    have hspelled := h.spelled hcommand hoperand
    have hknown := h.position hcommand
    rw [Command.expand, grow_command _ _ hcommand hoperand]
    refine ⟨hword.trans hspelled.operand, fun _ => .inr ?_, .unknown⟩
    grind

section guarded
variable {cs : Commands} {opener : Opener}

/-- A `$( )` or a `${ }` opens, and the tracker refuses in it what it refuses around it. -/
theorem Guarded.opens (h : Guarded t waits cs) (hstarts : waits = true → t.word.redirectOperand = true)
    (hgroup : opener ≠ .group) : Guarded (t.openLevel opener) false (cs.openCommand opener) := by
  have hsaved := h.guards.saved hstarts hgroup
  have hreparsing : (t.openLevel opener).reparsingCommand =
      (t.reparsingCommand || t.commandWord || t.word.redirectOperand) := by
    unfold openLevel
    simp [hgroup]
  have hcommandWord : (t.openLevel opener).commandWord = decide (opener ≠ .brace) := rfl
  unfold Commands.openCommand
  rw [if_neg hgroup]
  refine ⟨?_, fun hbrace => if_pos hbrace, by rintro (⟨⟨⟩⟩ | ⟨⟨⟩⟩), fun _ => ⟨rfl, ?_⟩, fun hexposes => ?_, hsaved,
    fun hbrace => ?_, fun hexposes => ?_, h.stacked⟩
  · by_cases hbrace : opener = .brace
    · rw [if_pos hbrace]
      exact guards_nested _ _ _ _
    · rw [if_neg hbrace, hcommandWord, decide_eq_true hbrace]
      exact guards_start _ false rfl
  · by_cases hbrace : opener = .brace
    · rw [if_pos hbrace]
      rfl
    · rw [if_neg hbrace]
      rfl
  · rw [hreparsing]
    rw [List.any_cons] at hexposes
    rcases Bool.or_eq_true_iff.mp hexposes with haround | houter
    · have hrefuses := (hsaved.guards t.word rfl).refuses haround
      have hraised := openLevel_outerReparsing t hgroup
      have hposition : (t.openLevel opener).level.outerCommandWord = t.commandWord := rfl
      rw [hraised, hposition] at hrefuses
      grind
    · rw [h.inherited houter]
      rfl
  · rw [h.braces hbrace]
    rfl
  · rw [openLevel_outerReparsing t hgroup, h.inherited hexposes]
    rfl

theorem endWord_true (t : ShellTracker) :
    (t.endWord true).word = .empty ∧ (t.endWord true).commandWord = true ∧ (t.endWord true).reparsingCommand = false ∧
      (t.endWord true).level = t.level ∧ (t.endWord true).outer = t.outer := by
  have hended := wordEnded t true
  exact ⟨rfl, rfl, rfl, hended.level, hended.outer⟩

/-- A `( )` opens where no command around it exposes a value. -/
theorem Guarded.opens_group (h : Guarded t waits cs) (houter : cs.outer.any Command.exposes = false) :
    Guarded ((t.endWord true).openLevel .group) false (cs.openCommand .group) := by
  obtain ⟨-, -, -, hlevel, hlevels⟩ := endWord_true t
  have hnone : cs.outer.any Command.exposes = true → False := by
    rw [houter]
    rintro ⟨⟩
  refine ⟨guards_start _ false rfl, by rintro ⟨⟩, by rintro (⟨⟨⟩⟩ | ⟨⟨⟩⟩), fun _ => ⟨rfl, rfl⟩, fun hexposes => ?_,
    saved_nested _, fun _ => rfl, fun hexposes => (hnone hexposes).elim, ?_⟩
  · change (Command.nested.exposes || cs.outer.any Command.exposes) = true at hexposes
    rw [houter] at hexposes
    cases hexposes
  · rw [hlevel, hlevels]
    exact h.stacked

/-- What is around the innermost level, as the tracker restores it. -/
theorem stacked_close {level : Level} {levels : List Level} {rs : List Command} (h : Stacked level levels rs) :
    (levels = [] ∧ rs = []) ∨ ∃ around rest r outer, levels = around :: rest ∧ rs = r :: outer ∧ Saved level r ∧
      (around.opener = .brace → r = .nested) ∧ (outer.any Command.exposes = true → level.outerReparsing = true) ∧
      Stacked around rest outer := by
  cases levels with
  | nil =>
    cases rs with
    | nil => exact .inl ⟨rfl, rfl⟩
    | cons r outer => cases h
  | cons around rest =>
    cases rs with
    | nil => cases h
    | cons r outer => exact .inr ⟨around, rest, r, outer, rfl, rfl, h⟩

/-- The end of an expansion goes on with the word around it. -/
theorem Guarded.closes (h : Guarded t waits cs) {around : Level} {rest : List Level} (houter : t.outer = around :: rest)
    (hquoting : around.context ≠ .comment) (hgroup : opener ≠ .group) {t' : ShellTracker} (hlevel : t'.level = around)
    (hlevels : t'.outer = rest) (hposition : t'.commandWord = t.level.outerCommandWord)
    (hreparsing : t'.reparsingCommand = t.level.outerReparsing)
    (hword : t'.word.redirectOperand = t.level.outerRedirectOperand) (hstart : t'.wordStart = false) :
    Guarded t' false (cs.closeCommand opener) := by
  have hstacked := h.stacked
  rw [houter] at hstacked
  rcases stacked_close hstacked with ⟨hnil, _⟩ | ⟨_, _, r, outer, hcons, hcommands, hsaved, hbraces, hinherited, hrest⟩
  · cases hnil
  cases hcons
  unfold Commands.closeCommand
  rw [hcommands]
  dsimp only
  rw [if_neg hgroup]
  refine ⟨?_, ?_, fun _ => ?_, ?_, ?_, ?_⟩
  · rw [hposition, hreparsing]
    exact hsaved.guards t'.word hword
  · unfold ShellTracker.opener
    rw [hlevel]
    exact hbraces
  · exact quote_of_expanded hsaved.expanded []
  · unfold ShellTracker.context
    rw [hlevel, hstart]
    rintro (hcomment | ⟨_, ⟨⟩⟩)
    exact absurd hcomment hquoting
  · rw [hreparsing]
    exact hinherited
  · rw [hlevel, hlevels]
    exact hrest

/-- After a `( )`, or the end of the text, a command may start. -/
theorem guarded_start {t' : ShellTracker} {outer : List Command} (hposition : t'.commandWord = true)
    (hword : { t'.word with isOpaque := false } = Word.empty) (hbare : t'.context = .bare ∨ t'.context = .comment)
    (hbraces : t'.opener ≠ .brace)
    (hinherited : outer.any Command.exposes = true → t'.reparsingCommand = true)
    (hstacked : Stacked t'.level t'.outer outer) (third : Bool) :
    Guarded t' false ⟨⟨.start third, .new, false⟩, outer⟩ := by
  refine ⟨?_, fun hbrace => absurd hbrace hbraces, ?_, fun _ => ⟨hword, rfl⟩, hinherited, hstacked⟩
  · rw [hposition]
    exact guards_start _ third hword
  · intro hquoted
    rcases hbare with hbare | hbare <;> rw [hbare] at hquoted <;> rcases hquoted with ⟨⟨⟩⟩ | ⟨⟨⟩⟩

theorem Guarded.closes_group (h : Guarded t waits cs) {around : Level} {rest : List Level}
    (houter : t.outer = around :: rest) (hbare : around.context = .bare) (hbrace : around.opener ≠ .brace)
    {t' : ShellTracker} (hlevel : t'.level = around) (hlevels : t'.outer = rest) (hposition : t'.commandWord = true)
    (hreparsing : t'.reparsingCommand = t.level.outerReparsing) (hword : t'.word = .empty) :
    Guarded t' false (cs.closeCommand .group) := by
  have hstacked := h.stacked
  rw [houter] at hstacked
  rcases stacked_close hstacked with ⟨hnil, _⟩ | ⟨_, _, r, outer, hcons, hcommands, _, _, hinherited, hrest⟩
  · cases hnil
  cases hcons
  unfold Commands.closeCommand
  rw [hcommands]
  dsimp only
  rw [if_pos rfl]
  refine guarded_start hposition ?_ (.inl ?_) ?_ ?_ ?_ false
  · rw [hword]
    rfl
  · unfold ShellTracker.context
    rw [hlevel]
    exact hbare
  · unfold ShellTracker.opener
    rw [hlevel]
    exact hbrace
  · rw [hreparsing]
    exact hinherited
  · rw [hlevel, hlevels]
    exact hrest

end guarded

end Aviso.Template
