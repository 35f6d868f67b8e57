import Aviso.Lib.UrlOutline

namespace Aviso.Lib.Url

open List (Forall₂)

variable {κ : Type} {fill : κ → List Char} {x : Slotted κ} {s : List Char} {p : Char → Bool}

/-- What is cut off at the end of an input: blanks, and places with nothing in them. -/
def Blanks (fill : κ → List Char) (z : Slotted κ) : Prop :=
  (∀ c, .char c ∈ z → isBlank c = true) ∧ ∀ key, .slot key ∈ z → fill key = []

def Inert (fill : κ → List Char) : Prop := ∀ key, ∀ c ∈ fill key, isInert c = true

theorem blanks_nil : Blanks fill [] := ⟨nofun, nofun⟩

section Cutting

theorem blank_ne {c d : Char} (h : isBlank c = true) (hd : isBlank d = false) : c ≠ d := by
  rintro rfl
  rw [h] at hd
  cases hd

/-- A scan that passes inert characters and blanks. -/
structure Stops (p : Char → Bool) : Prop where
  inert : ∀ c, isInert c = true → p c = false
  blank : ∀ c, isBlank c = true → p c = false

theorem stops_mark {d : Char} (hinert : isInert d = false) (hblank : isBlank d = false) :
    Stops (· = d) where
  inert c hc := by simpa using inert_ne hc hinert
  blank c hc := by simpa using blank_ne hc hblank

theorem stops_endsPath : Stops endsPath where
  inert c hc := by simp [endsPath, inert_ne hc (d := '?') rfl, inert_ne hc (d := '#') rfl]
  blank c hc := by simp [endsPath, blank_ne hc (d := '?') rfl, blank_ne hc (d := '#') rfl]

theorem stops_separatesPath (special : Bool) : Stops (separatesPath special) where
  inert c hc := by simp [separatesPath, inert_ne hc (d := '/') rfl, inert_ne hc (d := '\\') rfl]
  blank c hc := by simp [separatesPath, blank_ne hc (d := '/') rfl, blank_ne hc (d := '\\') rfl]

theorem Stops.unseen (hp : Stops p) (hfill : Inert fill) : Unseen p fill :=
  fun key c hc => hp.inert c (hfill key c hc)

theorem Stops.blanks (hp : Stops p) : ∀ z : Slotted κ, Blanks fill z → ∀ piece ∈ z, piece.is p = false := by
  rintro z ⟨hchars, -⟩ piece hpiece
  cases piece with
  | char c => exact hp.blank c (hchars c hpiece)
  | slot key => rfl

theorem Stops.scan (hp : Stops p) (hfill : Inert fill) (h : Reads (Blanks fill) fill x s) :
    Reads (Blanks fill) fill (x.takeWhile (!Piece.is p ·)) (s.takeWhile (!p ·)) ∧
      ((x.dropWhile (!Piece.is p ·) = [] ∧ s.dropWhile (!p ·) = []) ∨
        ∃ c x' s', x.dropWhile (!Piece.is p ·) = .char c :: x' ∧ s.dropWhile (!p ·) = c :: s' ∧
          Reads (Blanks fill) fill x' s') :=
  h.scan blanks_nil hp.blanks (hp.unseen hfill)

/-- Both texts are at an end, or both start with the same character. -/
def Starts (fill : κ → List Char) (x : Slotted κ) (s : List Char) : Prop :=
  (x = [] ∧ s = []) ∨ ∃ c x' s', x = .char c :: x' ∧ s = c :: s' ∧ Reads (Blanks fill) fill x' s'

def PathReads (fill : κ → List Char) : OutlinePath κ → RawPath → Prop
  | .opaqueText x, .opaqueText s => Reads (Blanks fill) fill x s
  | .segments xs, .segments ss => Forall₂ (Reads (Blanks fill) fill) xs ss
  | _, _ => False

/-- The parts of a URL are those of its outline. -/
structure TailReads (fill : κ → List Char) (o : Outline κ) (tail : Tail) : Prop where
  path : PathReads fill o.path tail.path
  query : Option.Rel (Reads (Blanks fill) fill) o.query tail.query
  fragment : Option.Rel (Reads (Blanks fill) fill) o.fragment tail.fragment

theorem afterMark_reads (mark : Char) (h : Starts fill x s) :
    Option.Rel (Reads (Blanks fill) fill) (slottedAfter mark x) (afterMark mark s) := by
  rcases h with ⟨rfl, rfl⟩ | ⟨c, x', s', rfl, rfl, hreads⟩
  · exact .none
  · unfold slottedAfter afterMark
    dsimp only
    split
    · exact .some hreads
    · exact .none

theorem rel_map {α β γ δ : Type} {R : α → β → Prop} {Q : γ → δ → Prop} {f : α → γ} {g : β → δ}
    {a : Option α} {b : Option β} (hfg : ∀ a b, R a b → Q (f a) (g b)) (h : Option.Rel R a b) :
    Option.Rel Q (a.map f) (b.map g) := by
  cases h with
  | none => exact .none
  | some hab => exact .some (hfg _ _ hab)

theorem cutPath_reads (hfill : Inert fill) (special : Bool) {mode : PathMode} (h : Reads (Blanks fill) fill x s)
    (hstart : mode = .start → Starts fill x s) :
    PathReads fill (outlinePath special mode x) (cutPath special mode s) := by
  have hsplit {x : Slotted κ} {s : List Char} (h : Reads (Blanks fill) fill x s) :=
    h.splitOnP blanks_nil (stops_separatesPath special).blanks ((stops_separatesPath special).unseen hfill)
  cases mode with
  | opaqueText => exact h
  | list => exact hsplit h
  | start =>
    rcases hstart rfl with ⟨rfl, rfl⟩ | ⟨c, x', s', rfl, rfl, hreads⟩
    · cases special with
      | true => exact .cons (.chars blanks_nil []) .nil
      | false => exact .nil
    · cases hc : separatesPath special c with
      | true => simpa [outlinePath, cutPath, PathReads, Piece.is, hc] using hsplit hreads
      | false => simpa [outlinePath, cutPath, PathReads, Piece.is, hc] using hsplit h

theorem Starts.takeWhile (hp : Stops p) (hfill : Inert fill) (h : Starts fill x s) :
    Starts fill (x.takeWhile (!Piece.is p ·)) (s.takeWhile (!p ·)) := by
  rcases h with ⟨rfl, rfl⟩ | ⟨c, x', s', rfl, rfl, hreads⟩
  · exact .inl ⟨rfl, rfl⟩
  · cases hc : p c with
    | true => exact .inl ⟨by simp [Piece.is, hc], by simp [hc]⟩
    | false => exact .inr ⟨c, _, _, by simp [Piece.is, hc], by simp [hc], (hp.scan hfill hreads).1⟩

theorem cutTail_reads (hfill : Inert fill) (kind : Kind) {mode : PathMode} (h : Reads (Blanks fill) fill x s)
    (hstart : mode = .start → Starts fill x s) :
    TailReads fill (outlineTail kind mode x) (cutTail kind.isSpecial mode s) := by
  have hhash : Stops (· = '#') := stops_mark rfl rfl
  have hne : (fun c : Char => decide (c ≠ '#')) = fun c => !decide (c = '#') := by
    funext c
    simp
  obtain ⟨hpath, hrest⟩ := stops_endsPath.scan hfill h
  constructor
  · exact cutPath_reads hfill _ hpath fun hmode => (hstart hmode).takeWhile stops_endsPath hfill
  · rw [cutTail, hne]
    exact rel_map (fun _ _ hreads => (hhash.scan hfill hreads).1) (afterMark_reads '?' hrest)
  · rw [cutTail, hne]
    refine afterMark_reads '#' ?_
    rcases hrest with ⟨hx, hs⟩ | ⟨c, x', s', hx, hs, hreads⟩
    · rw [hx, hs]
      exact .inl ⟨rfl, rfl⟩
    · rw [hx, hs]
      exact (hhash.scan hfill (hreads.cons c)).2

end Cutting

section Trimming

/-- Cutting the blanks off the end of a text cuts its pieces. -/
theorem spell_rdropWhile (hfill : Inert fill) (x : Slotted κ) :
    ∃ y z, x = y ++ z ∧ (spell fill x).rdropWhile isBlank = spell fill y ∧ Blanks fill z := by
  induction x using List.reverseRecOn with
  | nil => exact ⟨[], [], rfl, by simp, blanks_nil⟩
  | append_singleton x piece ih =>
    obtain ⟨y, z, hx, hy, hchars, hslots⟩ := ih
    have hkeep : (spell fill (x ++ [piece])).rdropWhile isBlank = spell fill (x ++ [piece]) →
        ∃ y z, x ++ [piece] = y ++ z ∧
          (spell fill (x ++ [piece])).rdropWhile isBlank = spell fill y ∧ Blanks fill z :=
      fun h => ⟨x ++ [piece], [], (List.append_nil _).symm, h, blanks_nil⟩
    cases piece with
    | char c =>
      have hlast : spell fill (x ++ [.char c]) = spell fill x ++ [c] := spell_append x _
      cases hc : isBlank c with
      | true =>
        refine ⟨y, z ++ [.char c], by rw [hx, List.append_assoc], ?_, ?_, ?_⟩
        · rw [hlast, List.rdropWhile_concat_pos _ _ _ hc, hy]
        · intro d hd
          rcases List.mem_append.mp hd with hd | hd
          · exact hchars d hd
          · cases List.mem_singleton.mp hd
            exact hc
        · intro key hkey
          exact hslots key (by simpa using hkey)
      | false =>
        refine hkeep ?_
        rw [hlast, List.rdropWhile_concat_neg _ _ _ (by simp [hc])]
    | slot key =>
      have hlast : spell fill (x ++ [.slot key]) = spell fill x ++ (fill key ++ []) := spell_append x _
      by_cases hne : fill key = []
      · refine ⟨y, z ++ [.slot key], by rw [hx, List.append_assoc], ?_, ?_, ?_⟩
        · rw [hlast, hne, List.append_nil, List.append_nil, hy]
        · intro c hc
          exact hchars c (by simpa using hc)
        · intro other hother
          rcases List.mem_append.mp hother with hother | hother
          · exact hslots other hother
          · cases List.mem_singleton.mp hother
            exact hne
      · refine hkeep ?_
        rw [hlast, rdropWhile_inert hne (hfill key), List.rdropWhile_nil]

/-- What is cut off has a place in it, unless the outline ends in a blank itself. -/
theorem rdropWhile_reads (hfill : Inert fill) (hx : x.rdropWhile (Piece.is isBlank) = x) :
    Reads (Blanks fill) fill x ((spell fill x).rdropWhile isBlank) := by
  obtain ⟨y, z, rfl, hy, hz⟩ := spell_rdropWhile hfill x
  refine ⟨y, z, rfl, hy, hz, ?_⟩
  intro hne
  obtain ⟨init, last, rfl⟩ := (List.eq_nil_or_concat' z).resolve_left hne
  cases last with
  | char c =>
    have hblank : isBlank c = true := hz.1 c (by simp)
    have hlast := List.rdropWhile_eq_self_iff.mp hx (by simp)
    simp [Piece.is, hblank] at hlast
  | slot key => exact ⟨key, by simp⟩

/-- The blanks at the end of an outline are cut off however its places are filled. -/
theorem spell_rtrim (fill : κ → List Char) (x : Slotted κ) :
    (spell fill (x.rdropWhile (Piece.is isBlank))).rdropWhile isBlank = (spell fill x).rdropWhile isBlank := by
  have hblank : ∀ c ∈ spell fill (x.rtakeWhile (Piece.is isBlank)), isBlank c = true := by
    intro c hc
    obtain ⟨piece, hpiece, hc⟩ := List.mem_flatMap.mp hc
    have his := List.mem_rtakeWhile_imp hpiece
    cases piece with
    | char d => exact List.mem_singleton.mp hc ▸ his
    | slot key => cases his
  have hsplit : spell fill x =
      spell fill (x.rdropWhile (Piece.is isBlank)) ++ spell fill (x.rtakeWhile (Piece.is isBlank)) := by
    rw [← spell_append, List.rdropWhile_append_rtakeWhile]
  rw [hsplit, rdropWhile_append_of_pos hblank]

/-- Tabs and newlines are dropped from a text and its outline. -/
theorem untab_reads (hfill : Inert fill) (h : Reads (Blanks fill) fill x s) :
    Reads (Blanks fill) fill (x.filter (!Piece.is isTabOrNewline ·)) (untab s) :=
  h.filter (fun _ hz => ⟨fun c hc => hz.1 c (List.mem_of_mem_filter hc),
    fun key hkey => hz.2 key (List.mem_of_mem_filter hkey)⟩)
    fun key c hc => isTabOrNewline_blank (inert_nonblank (hfill key c hc))

theorem leadText_chars (s : List Char) : leadText (s.map (.char : Char → Piece Char κ)) = s := by
  induction s with
  | nil => rfl
  | cons c s ih => rw [List.map_cons, leadText, ih]

theorem fromSlot_chars (s : List Char) : fromSlot (s.map (.char : Char → Piece Char κ)) = [] := by
  induction s with
  | nil => rfl
  | cons c s ih => rw [List.map_cons, fromSlot, ih]

theorem lead_slot (s : List Char) (key : κ) (rest : Slotted κ) :
    leadText (s.map .char ++ .slot key :: rest) = s ∧
      fromSlot (s.map .char ++ .slot key :: rest) = .slot key :: rest := by
  induction s with
  | nil => exact ⟨rfl, rfl⟩
  | cons c s ih => exact ⟨congrArg (c :: ·) ih.1, ih.2⟩

theorem rdropWhile_chars (p : Char → Bool) (s : List Char) :
    (s.map (.char : Char → Piece Char κ)).rdropWhile (Piece.is p) = (s.rdropWhile p).map .char := by
  rw [List.rdropWhile, List.rdropWhile, ← List.map_reverse, List.dropWhile_map, List.map_reverse]
  rfl

theorem cleanSlotted_chars (s : List Char) :
    cleanSlotted (s.map (.char : Char → Piece Char κ)) = (clean s).map .char := by
  rw [cleanSlotted, List.dropWhile_map, rdropWhile_chars, List.filter_map]
  rfl

theorem cleanSlotted_slot (s : List Char) (key : κ) (rest : Slotted κ) :
    cleanSlotted (s.map .char ++ .slot key :: rest) =
      (untab (s.dropWhile isBlank)).map .char ++
        .slot key :: (rest.rdropWhile (Piece.is isBlank)).filter (!Piece.is isTabOrNewline ·) := by
  have hstart : (s.map Piece.char ++ Piece.slot key :: rest).dropWhile (Piece.is isBlank) =
      (s.dropWhile isBlank).map .char ++ .slot key :: rest := by
    induction s with
    | nil => rfl
    | cons c s ih =>
      cases hc : isBlank c with
      | true => simpa [Piece.is, hc] using ih
      | false => simp [Piece.is, hc]
  rw [cleanSlotted, hstart, rdropWhile_stop (Piece.slot key) rfl, List.filter_append, List.filter_map]
  rfl

/-- A text is all characters, or has a first place. -/
theorem slotted_cases (text : Slotted κ) :
    (∃ s : List Char, text = s.map .char) ∨
      ∃ (s : List Char) (key : κ) (rest : Slotted κ), text = s.map .char ++ .slot key :: rest := by
  induction text with
  | nil => exact .inl ⟨[], rfl⟩
  | cons piece text ih =>
    cases piece with
    | slot key => exact .inr ⟨[], key, text, rfl⟩
    | char c =>
      rcases ih with ⟨s, rfl⟩ | ⟨s, key, rest, rfl⟩
      · exact .inl ⟨c :: s, rfl⟩
      · exact .inr ⟨c :: s, key, rest, rfl⟩

end Trimming

section Outlining

/-- The lead of an outline decides where the authority ends. -/
def Settled (text : Slotted κ) : Prop :=
  ∀ key, .slot key ∈ text → HasPath (leadText text) ∧ Closed (leadText text)

/-- What follows a lead that ends in blanks is cleaned as its outline is. -/
theorem clean_reads (hfill : Inert fill) (blanks : List Char) (key : κ) (rest : Slotted κ) :
    Reads (Blanks fill) fill
      ((untab blanks).map .char ++
        .slot key :: (rest.rdropWhile (Piece.is isBlank)).filter (!Piece.is isTabOrNewline ·))
      (untab ((blanks ++ spell fill (.slot key :: rest)).rdropWhile isBlank)) := by
  have htrim (y : Slotted κ) : (blanks.map Piece.char ++ Piece.slot key :: y).rdropWhile (Piece.is isBlank) =
      blanks.map .char ++ .slot key :: y.rdropWhile (Piece.is isBlank) :=
    rdropWhile_stop (Piece.slot key) rfl
  have hreads := untab_reads hfill (rdropWhile_reads (x := blanks.map .char ++ .slot key ::
    rest.rdropWhile (Piece.is isBlank)) hfill (by rw [htrim, List.rdropWhile_idempotent]))
  rw [← htrim, spell_rtrim, htrim, List.filter_append, List.filter_map, spell_append, spell_chars] at hreads
  exact hreads

/-- What is filled in after a closed lead is read as the outline has it. -/
theorem cut_slot (hfill : Inert fill) {lead : List Char} {key : κ} {rest : Slotted κ} (hpath : HasPath lead)
    (hclosed : Closed lead) {parts : Parts}
    (h : cut (spell fill (lead.map .char ++ .slot key :: rest)) = some parts) :
    ∃ o, outline (lead.map .char ++ .slot key :: rest) = some o ∧ o.kind = kindOf parts.scheme ∧
      TailReads fill o parts.tail := by
  obtain ⟨blanks, hblanks, hlead, hcut⟩ := cut_append hpath hclosed
  rw [spell_append, spell_chars, hcut] at h
  obtain ⟨⟨scheme, after⟩, hscheme, rfl⟩ := Option.map_eq_some_iff.mp h
  obtain ⟨hsplit, hauthority, hstart⟩ := lead_append hpath hclosed hscheme (untab blanks)
  have houtline : outline (lead.map .char ++ .slot key :: rest) =
      some (outlineTail (kindOf scheme) (cutAuthority (kindOf scheme) after).2.1
        (((cutAuthority (kindOf scheme) after).2.2 ++ untab blanks).map .char ++
          .slot key :: (rest.rdropWhile (Piece.is isBlank)).filter (!Piece.is isTabOrNewline ·))) := by
    obtain ⟨htext, hfrom⟩ := lead_slot (untab (lead.dropWhile isBlank)) key
      ((rest.rdropWhile (Piece.is isBlank)).filter (!Piece.is isTabOrNewline ·))
    rw [outline, cleanSlotted_slot, htext, hfrom, hlead, hsplit, Option.map_some]
    simp only
    rw [hauthority]
  have hreads := clean_reads hfill blanks key rest
  refine ⟨_, houtline, rfl, cutTail_reads hfill _ ?_ ?_⟩
  · rw [List.map_append, List.append_assoc]
    exact hreads.prepend _
  · intro hmode
    obtain ⟨c, path, hpath⟩ := List.exists_cons_of_ne_nil (hstart hmode)
    refine .inr ⟨c, path.map .char ++ _, _, ?_, ?_, hreads.prepend path⟩
    · rw [hpath, List.map_append, List.map_cons, List.append_assoc, List.cons_append]
    · simp only [hpath, List.cons_append]

/-- A URL is cut as its outline is. -/
theorem cut_outline (hfill : Inert fill) {text : Slotted κ} (hsettled : Settled text) {parts : Parts}
    (h : cut (spell fill text) = some parts) :
    ∃ o, outline text = some o ∧ o.kind = kindOf parts.scheme ∧ TailReads fill o parts.tail := by
  rcases slotted_cases text with ⟨s, rfl⟩ | ⟨lead, key, rest, rfl⟩
  · rw [spell_chars] at h
    obtain ⟨⟨scheme, rest⟩, hscheme, rfl⟩ := Option.map_eq_some_iff.mp h
    have houtline : outline (s.map (.char : Char → Piece Char κ)) =
        some (outlineTail (kindOf scheme) (cutAuthority (kindOf scheme) rest).2.1
          ((cutAuthority (kindOf scheme) rest).2.2.map .char)) := by
      rw [outline, cleanSlotted_chars, leadText_chars, fromSlot_chars, hscheme, Option.map_some]
      simp only [List.append_nil]
    refine ⟨_, houtline, rfl, cutTail_reads hfill _ (.chars blanks_nil _) ?_⟩
    intro _
    cases (cutAuthority (kindOf scheme) rest).2.2 with
    | nil => exact .inl ⟨rfl, rfl⟩
    | cons c path => exact .inr ⟨c, path.map .char, path, rfl, rfl, .chars blanks_nil _⟩
  · obtain ⟨hpath, hclosed⟩ := hsettled key (by simp)
    rw [(lead_slot lead key rest).1] at hpath hclosed
    exact cut_slot hfill hpath hclosed h

end Outlining

end Aviso.Lib.Url
