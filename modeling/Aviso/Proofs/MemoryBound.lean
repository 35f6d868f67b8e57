import Aviso.Finesse.Points
import Aviso.Proofs.Draining

namespace Aviso.Finesse

namespace LineSplitter

/-- The cursor is in the buffer and has passed no terminator. -/
structure Sound (s : LineSplitter) : Prop where
  cursor : s.scanFrom ≤ s.buf.length
  plain : Plain (s.buf.take s.scanFrom)

variable {s : LineSplitter}

theorem new_sound (max : Nat) : (new max).Sound := ⟨Nat.le_refl _, plain_nil⟩

theorem Sound.feed (h : s.Sound) (chunk : List UInt8) : (s.feed chunk).Sound := by
  unfold LineSplitter.feed
  split
  · exact h
  · refine ⟨?_, ?_⟩
    · rw [List.length_append]
      exact Nat.le_add_right_of_le h.cursor
    · rw [List.take_append_of_le_length h.cursor]
      exact h.plain

theorem Sound.end (h : s.Sound) : s.end.Sound := ⟨h.cursor, h.plain⟩

/-- Resolving the mark drops it with the cursor back at the start, or changes no byte. -/
theorem resolveBom_cases (s : LineSplitter) :
    s.resolveBom.maxLineBytes = s.maxLineBytes ∧
      (s.resolveBom.scanFrom = 0 ∧ s.resolveBom.buf.length ≤ s.buf.length ∨
        s.resolveBom.buf = s.buf ∧ s.resolveBom.scanFrom = s.scanFrom) := by
  unfold resolveBom
  split
  · exact ⟨rfl, .inr ⟨rfl, rfl⟩⟩
  · split
    · split
      · refine ⟨rfl, .inl ⟨rfl, ?_⟩⟩
        simp
      · exact ⟨rfl, .inr ⟨rfl, rfl⟩⟩
    · split
      · exact ⟨rfl, .inr ⟨rfl, rfl⟩⟩
      · split
        · exact ⟨rfl, .inr ⟨rfl, rfl⟩⟩
        · exact ⟨rfl, .inr ⟨rfl, rfl⟩⟩

/-- An unresolved mark is at most two bytes. -/
theorem resolveBom_pristine (h : s.resolveBom.bomState ≠ .resolved) :
    s.resolveBom.buf.length ≤ 2 := by
  unfold resolveBom at h ⊢
  split at h
  · contradiction
  · split at h
    · split at h <;> exact absurd rfl h
    · rename_i hshort
      split at h
      · exact absurd rfl h
      · split at h
        · exact absurd rfl h
        · rename_i hresolved hmark hopen
          rw [if_neg hresolved, if_neg hshort, if_neg hmark, if_neg hopen]
          have hlength : BOM.length = 3 := rfl
          omega

theorem Sound.resolveBom (h : s.Sound) : s.resolveBom.Sound := by
  rcases (resolveBom_cases s).2 with ⟨hfrom, -⟩ | ⟨hbuf, hfrom⟩
  · refine ⟨?_, ?_⟩
    · rw [hfrom]
      exact Nat.zero_le _
    · rw [hfrom, List.take_zero]
      exact plain_nil
  · refine ⟨?_, ?_⟩
    · rw [hbuf, hfrom]
      exact h.cursor
    · rw [hbuf, hfrom]
      exact h.plain

/-- What a call of `nextLine` leaves behind: a sound splitter that holds no more, and
if it found no line, at most a line, a held CR and an unresolved mark. -/
structure Left (s : LineSplitter) (out : Except Overflow (Option (List UInt8)) × LineSplitter) :
    Prop where
  sound : out.2.Sound
  limit : out.2.maxLineBytes = s.maxLineBytes
  shorter : out.2.buf.length ≤ s.buf.length
  waiting : out.1 = .ok none → s.bomState = .resolved → out.2.buf.length ≤ s.maxLineBytes + 1

theorem Sound.takeLine (h : s.Sound) (i j : Nat) : s.Left (s.takeLine i j) := by
  unfold LineSplitter.takeLine
  split
  · exact ⟨h, rfl, Nat.le_refl _, fun hnone => by cases hnone⟩
  · refine ⟨⟨Nat.zero_le _, ?_⟩, rfl, ?_, fun hnone => by cases hnone⟩
    · rw [List.take_zero]
      exact plain_nil
    · rw [List.length_drop]
      exact Nat.sub_le _ _

/-- The cursor moves up to `n`, where nothing or a CR is left unread. -/
theorem Sound.checkBound {n : Nat} (hplain : Plain (s.buf.take n)) (hn : n ≤ s.buf.length)
    (hlast : s.buf.length ≤ n + 1) : s.Left ({ s with scanFrom := n }.checkBound n) := by
  unfold LineSplitter.checkBound
  split
  · exact ⟨⟨hn, hplain⟩, rfl, Nat.le_refl _, fun hnone => by cases hnone⟩
  · rename_i hbound
    refine ⟨⟨hn, hplain⟩, rfl, Nat.le_refl _, fun _ hresolved => ?_⟩
    have hfits : n ≤ s.maxLineBytes := by
      by_contra hover
      exact hbound ⟨hresolved, Nat.lt_of_not_le hover⟩
    show s.buf.length ≤ _
    omega

theorem Sound.scan (h : s.Sound) (i : Nat) (rest : List UInt8) (hrest : rest = s.buf.drop i)
    (hi : i ≤ s.buf.length) (hplain : Plain (s.buf.take i)) : s.Left (s.scan i rest) := by
  induction rest generalizing i with
  | nil =>
    have hall : s.buf.length ≤ i := List.drop_eq_nil_iff.mp hrest.symm
    have htake : s.buf.take s.buf.length = s.buf.take i := by
      rw [List.take_of_length_le hall, List.take_length]
    exact Sound.checkBound (htake ▸ hplain) (Nat.le_refl _) (Nat.le_succ _)
  | cons b rest ih =>
    have hlt : i < s.buf.length := drop_cons_lt hrest
    have hnext : rest = s.buf.drop (i + 1) := by rw [← List.drop_drop, ← hrest]; rfl
    rw [scan_cons]
    split
    · exact h.takeLine _ _
    · rename_i hlf
      split
      · cases rest with
        | cons c cs => exact h.takeLine _ _
        | nil =>
          have hlast : s.buf.length ≤ i + 1 := List.drop_eq_nil_iff.mp hnext.symm
          dsimp only
          split
          · exact h.takeLine _ _
          · exact Sound.checkBound hplain (Nat.le_of_lt hlt) hlast
      · rename_i hcr
        have hb : s.buf[i] = b := by
          rw [List.drop_eq_getElem_cons hlt] at hrest
          exact (List.cons.inj hrest).1.symm
        refine ih (i + 1) hnext hlt ?_
        rw [List.take_succ_eq_append_getElem hlt, hb]
        exact plain_append_one hplain hlf hcr

theorem Sound.nextLine (h : s.Sound) :
    s.nextLine.2.Sound ∧ s.nextLine.2.maxLineBytes = s.maxLineBytes ∧
      s.nextLine.2.buf.length ≤ s.buf.length ∧
      (s.nextLine.1 = .ok none → s.nextLine.2.buf.length ≤ s.maxLineBytes + 2) := by
  have hr := h.resolveBom
  have hleft := hr.scan s.resolveBom.scanFrom _ rfl hr.cursor hr.plain
  have hshort := resolveBom_length s
  refine ⟨hleft.sound, hleft.limit.trans (resolveBom_cases s).1,
    Nat.le_trans hleft.shorter hshort, fun hnone => ?_⟩
  by_cases hbom : s.resolveBom.bomState = .resolved
  · have hwaiting := hleft.waiting hnone hbom
    rw [(resolveBom_cases s).1] at hwaiting
    exact Nat.le_succ_of_le hwaiting
  · have hmark := resolveBom_pristine hbom
    exact Nat.le_trans hleft.shorter (by omega)

end LineSplitter

namespace Dispatcher

/-- The pending data is within its bound, or the bound is that of every string. -/
structure Bounded (limits : Limits) (d : Dispatcher) : Prop where
  limit : d.maxEventBytes = limits.maxEventBytes
  data : d.pendingData.len ≤ limits.maxEventBytes ∨ usizeMax ≤ limits.maxEventBytes

variable {d d' : Dispatcher} {limits : Limits}

theorem new_bounded (limits : Limits) : (new limits.maxEventBytes).Bounded limits :=
  ⟨rfl, .inl (Nat.zero_le _)⟩

theorem Bounded.dispatch (h : d.Bounded limits) : d.dispatch.2.Bounded limits := by
  unfold Dispatcher.dispatch
  split
  · exact ⟨h.limit, h.data⟩
  · exact ⟨h.limit, .inl (Nat.zero_le _)⟩

/-- The sum saturates only at the largest `usize`. -/
theorem saturated_le {a b max : Nat} (h : ¬ saturatingAdd (saturatingAdd a b) 1 > max) :
    a + b + 1 ≤ max ∨ usizeMax ≤ max := by
  unfold saturatingAdd at h
  omega

theorem Bounded.processField (h : d.Bounded limits)
    (hfield : d.processField name value = .ok (frame, d')) : d'.Bounded limits := by
  unfold Dispatcher.processField at hfield
  split at hfield
  · cases hfield
    exact ⟨h.limit, h.data⟩
  · split at hfield
    · split at hfield
      · cases hfield
      · rename_i hroom
        cases hfield
        refine ⟨h.limit, ?_⟩
        rw [← h.limit]
        rcases saturated_le hroom with hfits | hmax
        · left
          have hnewline : (d.pendingData ++ value ++ ['\n']).len =
              d.pendingData.len + value.len + 1 := by
            simp [Text.len, Char.utf8Size]
            omega
          rw [hnewline]
          exact hfits
        · exact .inr hmax
    · split at hfield
      · split at hfield <;> cases hfield
        · exact h
        · exact ⟨h.limit, h.data⟩
      · split at hfield <;> cases hfield <;> exact h

end Dispatcher

namespace Parser

variable {limits : Limits} {p q : Parser} {room : Nat}

/-- A parser that holds at most its bounds, two bytes, and `room` bytes more. -/
structure Bounded (limits : Limits) (room : Nat) (p : Parser) : Prop where
  sound : p.lineSplitter.Sound
  limit : p.lineSplitter.maxLineBytes = limits.maxLineBytes
  held : p.lineSplitter.buf.length ≤ limits.maxLineBytes + room + 2
  dispatcher : p.dispatcher.Bounded limits

/-- A parser that has stopped and let go of what it held. -/
structure Abandoned (p : Parser) : Prop where
  closed : p.closed = true
  buf : p.lineSplitter.buf = []
  cursor : p.lineSplitter.scanFrom = 0
  data : p.dispatcher.pendingData = []

theorem withLimits_bounded (limits : Limits) : (withLimits limits).Bounded limits 0 :=
  ⟨LineSplitter.new_sound _, rfl, Nat.zero_le _, Dispatcher.new_bounded limits⟩

theorem abandon_abandoned (p : Parser) : p.abandon.Abandoned := ⟨rfl, rfl, rfl, rfl⟩

theorem acceptLine_bounded {d d' : Dispatcher} {frames frames' : List Frame} (h : d.Bounded limits)
    (haccept : acceptLine d frames line = .ok (d', frames')) : d'.Bounded limits := by
  unfold acceptLine at haccept
  split at haccept
  · cases haccept
    exact h.dispatch
  · cases haccept
    exact h
  · split at haccept
    · rename_i hfield
      cases haccept
      exact h.processField hfield
    · cases haccept

theorem Bounded.nextLine (h : p.Bounded limits room) :
    Bounded limits room { p with lineSplitter := p.lineSplitter.nextLine.2 } := by
  obtain ⟨hsound, hlimit, hshorter, -⟩ := h.sound.nextLine
  exact ⟨hsound, hlimit.trans h.limit, Nat.le_trans hshorter h.held, h.dispatcher⟩

/-- One turn of `drain_lines` keeps the bounds. -/
theorem Bounded.turn {frames : List Frame} (h : p.Bounded limits room)
    (htaken : p.lineSplitter.nextLine = (.ok (some line), s))
    (haccepted : acceptLine p.dispatcher p.queue line = .ok (d, frames)) :
    Bounded limits room { p with lineSplitter := s, dispatcher := d, queue := frames } := by
  have hnext := h.nextLine
  rw [htaken] at hnext
  exact ⟨hnext.sound, hnext.limit, hnext.held, acceptLine_bounded h.dispatcher haccepted⟩

theorem Bounded.drainPoint (h : p.Bounded limits room) (hpoint : DrainPoint p q) :
    q.Bounded limits room := by
  induction hpoint with
  | entered p => exact h
  | bomResolved p =>
    refine ⟨h.sound.resolveBom, ?_, ?_, h.dispatcher⟩
    · exact (LineSplitter.resolveBom_cases p.lineSplitter).1.trans h.limit
    · exact Nat.le_trans (LineSplitter.resolveBom_length p.lineSplitter) h.held
  | lineTaken p => exact h.nextLine
  | lineAccepted taken accepted later ih => exact ih (h.turn taken accepted)

/-- A drain that ends well leaves no more than a line, a held CR and an unresolved mark. -/
theorem Bounded.drainLines (h : p.Bounded limits room) (hdrained : p.drainLines = (.ok (), q)) :
    q.Bounded limits 0 := by
  fun_induction Parser.drainLines p with
  | case1 p overflow s htaken => cases hdrained
  | case2 p s htaken =>
    cases hdrained
    obtain ⟨hsound, hlimit, -, hwaiting⟩ := h.sound.nextLine
    rw [htaken] at hsound hlimit hwaiting
    have hheld := hwaiting rfl
    rw [h.limit] at hheld
    exact ⟨hsound, hlimit.trans h.limit, hheld, h.dispatcher⟩
  | case3 p line s htaken overflow haccept => cases hdrained
  | case4 p line s htaken d queue haccept ih => exact ih (h.turn htaken haccept) hdrained

theorem mem_pieces_length {piece : List α} (n : Nat) (hn : 0 < n) (xs : List α)
    (h : piece ∈ pieces n xs) : piece.length ≤ n := by
  induction xs using pieces.induct n with
  | case1 => simp [pieces] at h
  | case2 x rest ih =>
    rw [pieces] at h
    rcases List.mem_cons.mp h with rfl | h
    · rw [List.length_cons, List.length_take]
      omega
    · exact ih h

theorem Bounded.copy (h : p.Bounded limits 0) {piece : List UInt8} {n : Nat}
    (hn : piece.length ≤ n) :
    Bounded limits n { p with lineSplitter := p.lineSplitter.feed piece } := by
  have hheld := h.held
  refine ⟨h.sound.feed piece, ?_, ?_, h.dispatcher⟩
  · show (p.lineSplitter.feed piece).maxLineBytes = _
    unfold LineSplitter.feed
    split <;> exact h.limit
  · show (p.lineSplitter.feed piece).buf.length ≤ _
    unfold LineSplitter.feed
    split
    · omega
    · rw [List.length_append]
      omega

theorem Bounded.feedPoint {chunks : List (List UInt8)} {n : Nat} (h : p.Bounded limits 0)
    (hn : ∀ piece ∈ chunks, piece.length ≤ n) (hpoint : FeedPoint p chunks q) :
    q.Bounded limits n := by
  induction hpoint with
  | draining point => exact (h.copy (hn _ (List.mem_cons_self ..))).drainPoint point
  | nextPiece drained later ih =>
    have hcopied := h.copy (hn _ (List.mem_cons_self ..))
    exact ih (hcopied.drainLines drained) fun piece hmem => hn piece (List.mem_cons_of_mem _ hmem)

/-- What a call leaves: the bounds when it reports none exceeded, nothing when it does. -/
def Outcome (limits : Limits) (out : Except Overflow Unit × Parser) : Prop :=
  (out.1 = .ok () → out.2.Bounded limits 0) ∧ (out.1 ≠ .ok () → out.2.Abandoned)

theorem Bounded.feedPieces (h : p.Bounded limits 0) (chunks : List (List UInt8)) :
    Outcome limits (p.feedPieces chunks) := by
  induction chunks generalizing p with
  | nil => exact ⟨fun _ => h, fun hne => absurd rfl hne⟩
  | cons piece rest ih =>
    rw [Parser.feedPieces]
    split
    · refine ⟨fun hok => ?_, fun _ => abandon_abandoned _⟩
      cases hok
    · rename_i next hdrained
      exact ih ((h.copy (Nat.le_refl _)).drainLines hdrained)

/-- Between calls a parser is within its bounds or has let go of everything. -/
def Settled (limits : Limits) (p : Parser) : Prop := p.Bounded limits 0 ∨ p.Abandoned

theorem Settled.feed (h : p.Settled limits) (chunk : List UInt8) :
    (p.feed chunk).2.Settled limits ∧ ((p.feed chunk).1 ≠ .ok () → (p.feed chunk).2.Abandoned) := by
  unfold Parser.feed
  split
  · exact ⟨h, fun hne => absurd rfl hne⟩
  · rename_i hopen
    rcases h with h | h
    · have hout := h.feedPieces (pieces feedPieceBytes chunk)
      refine ⟨?_, hout.2⟩
      by_cases hok : (p.feedPieces (pieces feedPieceBytes chunk)).1 = .ok ()
      · exact .inl (hout.1 hok)
      · exact .inr (hout.2 hok)
    · exact absurd h.closed hopen

theorem Settled.end (h : p.Settled limits) :
    p.end.2.Settled limits ∧ (p.end.1 ≠ .ok () → p.end.2.Abandoned) := by
  unfold Parser.end
  split
  · exact ⟨h, fun hne => absurd rfl hne⟩
  · rename_i hopen
    rcases h with h | h
    · have hended : Bounded limits 0 { p with lineSplitter := p.lineSplitter.end } :=
        ⟨h.sound.end, h.limit, h.held, h.dispatcher⟩
      split
      · exact ⟨.inr ⟨rfl, rfl, rfl, rfl⟩, fun _ => ⟨rfl, rfl, rfl, rfl⟩⟩
      · rename_i hdrained
        have hbounded := hended.drainLines hdrained
        exact ⟨.inl ⟨hbounded.sound, hbounded.limit, hbounded.held, hbounded.dispatcher⟩,
          fun hne => absurd rfl hne⟩
    · exact absurd h.closed hopen

theorem Settled.nextFrame (h : p.Settled limits) : p.nextFrame.2.Settled limits := by
  unfold Parser.nextFrame
  split
  · exact h
  · rcases h with h | h
    · exact .inl ⟨h.sound, h.limit, h.held, h.dispatcher⟩
    · exact .inr ⟨h.closed, h.buf, h.cursor, h.data⟩

/-- Nothing is taken in again after an overflow. -/
theorem Abandoned.apply {s : Session} (h : s.parser.Abandoned) (op : Op) :
    (s.apply op).parser.Abandoned := by
  cases op with
  | feed chunk =>
    have hfeed : s.parser.feed chunk = (.ok (), s.parser) := by rw [Parser.feed, if_pos h.closed]
    rw [Session.apply, hfeed]
    exact h
  | next =>
    show s.parser.nextFrame.2.Abandoned
    unfold Parser.nextFrame
    split
    · exact h
    · exact ⟨h.closed, h.buf, h.cursor, h.data⟩
  | «end» =>
    have hend : s.parser.end = (.ok (), s.parser) := by rw [Parser.end, if_pos h.closed]
    rw [Session.apply, hend]
    exact h

end Parser

namespace Session

variable {limits : Limits}

theorem note_cases (s : Session) (out : Except Overflow Unit × Parser) :
    (s.note out).parser = out.2 ∧
      ((s.note out).overflow ≠ none → s.overflow ≠ none ∨ out.1 ≠ .ok ()) := by
  obtain ⟨result, p⟩ := out
  cases result with
  | ok _ => exact ⟨rfl, fun h => .inl h⟩
  | error overflow => exact ⟨rfl, fun _ => .inr (by rintro ⟨⟩)⟩

/-- Every call keeps the parser settled, and abandoned once an overflow was reported. -/
theorem apply_settled {s : Session} (h : s.parser.Settled limits)
    (hover : s.overflow ≠ none → s.parser.Abandoned) (op : Op) :
    (s.apply op).parser.Settled limits ∧
      ((s.apply op).overflow ≠ none → (s.apply op).parser.Abandoned) := by
  by_cases hold : s.overflow = none
  · cases op with
    | feed chunk =>
      obtain ⟨hparser, hcause⟩ := s.note_cases (s.parser.feed chunk)
      rw [Session.apply, hparser]
      refine ⟨(h.feed chunk).1, fun hreported => (h.feed chunk).2 ?_⟩
      exact (hcause hreported).resolve_left fun hne => hne hold
    | next => exact ⟨h.nextFrame, fun hreported => absurd hold hreported⟩
    | «end» =>
      obtain ⟨hparser, hcause⟩ := s.note_cases s.parser.end
      rw [Session.apply, hparser]
      refine ⟨h.end.1, fun hreported => h.end.2 ?_⟩
      exact (hcause hreported).resolve_left fun hne => hne hold
  · have hnext := (hover hold).apply op
    exact ⟨.inr hnext, fun _ => hnext⟩

theorem run_settled (limits : Limits) (ops : List Op) :
    (run limits ops).parser.Settled limits ∧
      ((run limits ops).overflow ≠ none → (run limits ops).parser.Abandoned) := by
  have hfold : ∀ s : Session, s.parser.Settled limits →
      (s.overflow ≠ none → s.parser.Abandoned) →
      (ops.foldl apply s).parser.Settled limits ∧
        ((ops.foldl apply s).overflow ≠ none → (ops.foldl apply s).parser.Abandoned) := by
    induction ops with
    | nil => exact fun s h hover => ⟨h, hover⟩
    | cons op ops ih =>
      intro s h hover
      obtain ⟨hnext, hreported⟩ := apply_settled h hover op
      exact ih (s.apply op) hnext hreported
  exact hfold (start limits) (.inl (Parser.withLimits_bounded limits)) fun h => absurd rfl h

end Session

/-- At every point of every run of `feed`, `next_frame` and `end` the cursor is in the
buffer with no terminator before it, the buffer holds at most the line bound, one piece
and two bytes, and the event data is within its bound (every string is within
`usize::MAX`). After a `feed` that returned `Ok` the buffer holds at most the line bound
and two bytes, and from a reported overflow on it and the event data are empty. -/
theorem parser_memory_bound (limits : Limits) :
    (∀ p, RunPoint limits p →
      p.lineSplitter.scanFrom ≤ p.lineSplitter.buf.length ∧
      (∀ b ∈ p.lineSplitter.buf.take p.lineSplitter.scanFrom, b ≠ LF ∧ b ≠ CR) ∧
      p.lineSplitter.buf.length ≤ limits.maxLineBytes + 64 * 1024 + 2 ∧
      (p.dispatcher.pendingData.len ≤ limits.maxEventBytes ∨ usizeMax ≤ limits.maxEventBytes)) ∧
    (∀ ops chunk, ((Session.run limits ops).parser.feed chunk).1 = .ok () →
      ((Session.run limits ops).parser.feed chunk).2.lineSplitter.buf.length ≤
        limits.maxLineBytes + 2) ∧
    ∀ ops, (Session.run limits ops).overflow ≠ none →
      (Session.run limits ops).parser.lineSplitter.buf = [] ∧
        (Session.run limits ops).parser.dispatcher.pendingData = [] := by
  refine ⟨fun p hpoint => ?_, fun ops chunk hok => ?_, fun ops hover => ?_⟩
  · have hbounded : p.Bounded limits (64 * 1024) ∨ p.Abandoned := by
      cases hpoint with
      | between ops =>
        rcases (Session.run_settled limits ops).1 with h | h
        · have hheld := h.held
          exact .inl ⟨h.sound, h.limit, by omega, h.dispatcher⟩
        · exact .inr h
      | feeding ops chunk running point =>
        rcases (Session.run_settled limits ops).1 with h | h
        · exact .inl (h.feedPoint (fun piece hmem => Parser.mem_pieces_length _ (by decide) _ hmem)
            point)
        · rw [h.closed] at running
          cases running
      | ending ops running point =>
        rcases (Session.run_settled limits ops).1 with h | h
        · have hheld := h.held
          have hended : Parser.Bounded limits (64 * 1024)
              { (Session.run limits ops).parser with
                lineSplitter := (Session.run limits ops).parser.lineSplitter.end } :=
            ⟨h.sound.end, h.limit, Nat.le_trans hheld (by omega), h.dispatcher⟩
          exact .inl (hended.drainPoint point)
        · rw [h.closed] at running
          cases running
    rcases hbounded with h | h
    · exact ⟨h.sound.cursor, h.sound.plain, h.held, h.dispatcher.data⟩
    · refine ⟨?_, ?_, ?_, .inl ?_⟩
      · rw [h.cursor]
        exact Nat.zero_le _
      · rw [h.buf, List.take_nil]
        exact plain_nil
      · rw [h.buf]
        exact Nat.zero_le _
      · rw [h.data]
        exact Nat.zero_le _
  · rcases ((Session.run_settled limits ops).1.feed chunk).1 with h | h
    · exact h.held
    · rw [h.buf]
      exact Nat.zero_le _
  · have h := (Session.run_settled limits ops).2 hover
    exact ⟨h.buf, h.data⟩

end Aviso.Finesse
