import Aviso.Finesse.EventStream
import Aviso.Proofs.Sessions
import Mathlib.Data.List.TakeWhile

namespace Aviso.Finesse.EventStream

theorem not_mem_decode {bytes : List UInt8} {b : UInt8} {c : Char} (hb : b ∉ bytes)
    (hc : c.toNat = b.toNat) (ha : b.toNat ≤ 0x7F) : c ∉ Lib.Utf8.decode bytes := by
  intro hm
  obtain ⟨b', hb', heq⟩ := Lib.Utf8.mem_decode hm (by omega)
  have hsame : b = b' := UInt8.toNat_inj.mp (by omega)
  exact hb (hsame ▸ hb')

theorem plain_decode {bytes : List UInt8} (h : Plain bytes) :
    ∀ c ∈ Lib.Utf8.decode bytes, c ≠ '\n' ∧ c ≠ '\r' := by
  have hlf : '\n' ∉ Lib.Utf8.decode bytes :=
    not_mem_decode (b := LF) (fun hm => (h LF hm).1 rfl) rfl (by decide)
  have hcr : '\r' ∉ Lib.Utf8.decode bytes :=
    not_mem_decode (b := CR) (fun hm => (h CR hm).2 rfl) rfl (by decide)
  exact fun c hc => ⟨fun heq => hlf (heq ▸ hc), fun heq => hcr (heq ▸ hc)⟩

/-- Decoding the lines of a byte string gives the lines of its text. -/
theorem splitLines_decode (cur rest : List UInt8) (hcur : Plain cur) :
    Lib.splitLines '\r' '\n' [] (Lib.Utf8.decode (cur ++ rest)) =
      (Lib.splitLines CR LF cur rest).map (·.map Lib.Utf8.decode) Lib.Utf8.decode := by
  have hne : CR ≠ LF := by decide
  have hne' : '\r' ≠ '\n' := by decide
  have hlf : Char.ofNat LF.toNat = '\n' := rfl
  have hcr : Char.ofNat CR.toNat = '\r' := rfl
  induction cur, rest using Lib.lines_induct CR LF with
  | nil cur =>
    have happ : Lib.splitLines '\r' '\n' [] (Lib.Utf8.decode cur ++ []) = _ :=
      Lib.splitLines_append [] _ [] (plain_decode hcur)
    simpa [Lib.splitLines_nil] using happ
  | lf_end cur rest ih =>
    rw [Lib.Utf8.decode_ascii _ _ _ (by decide), hlf, Lib.splitLines_append _ _ _ (plain_decode hcur),
      List.nil_append, Lib.splitLines_lf, Lib.splitLines_lf]
    rw [List.nil_append] at ih
    rw [ih plain_nil]
    rfl
  | crlf_end cur rest ih =>
    rw [Lib.Utf8.decode_ascii _ _ _ (by decide), Lib.Utf8.decode_cons_ascii _ _ (by decide), hlf, hcr,
      Lib.splitLines_append _ _ _ (plain_decode hcur), List.nil_append, Lib.splitLines_crlf hne',
      Lib.splitLines_crlf hne]
    rw [List.nil_append] at ih
    rw [ih plain_nil]
    rfl
  | cr_end cur rest hr ih =>
    have hhead : (Lib.Utf8.decode rest).head? ≠ some '\n' := fun h =>
      hr ((Lib.Utf8.head_decode rest (b := LF) (by decide)).mp h)
    rw [Lib.Utf8.decode_ascii _ _ _ (by decide), hcr, Lib.splitLines_append _ _ _ (plain_decode hcur),
      List.nil_append, Lib.splitLines_cr hne' _ hhead, Lib.splitLines_cr hne _ hr]
    rw [List.nil_append] at ih
    rw [ih plain_nil]
    rfl
  | plain cur b rest hl hc ih =>
    rw [Lib.splitLines_plain hl hc, ← ih (plain_append_one hcur hl hc)]
    simp

/-- The buffers of a dispatcher, as the format names them. -/
def buffers (d : Dispatcher) : Buffers := ⟨d.pendingEvent, d.pendingData, d.lastEventId⟩

theorem decimal_eq (value : Text) : decimal value = Buffers.number value := by
  unfold decimal Buffers.number
  rw [List.foldr_reverse]
  congr 1
  funext n c
  omega

theorem parseRetry_eq (value : Text) : Dispatcher.parseRetry value = Buffers.retryTime value := by
  unfold Dispatcher.parseRetry Buffers.retryTime
  rw [decimal_eq]
  cases value.isEmpty <;> cases value.all Char.isDigit <;> rfl

/-- A field does to the dispatcher what it does to the buffers, unless it takes
the event past its bound. -/
theorem processField_eq (d : Dispatcher) (name value : Text)
    (hfit : ((buffers d).field name value).1.data.len ≤ d.maxEventBytes) :
    ∃ d', d.processField name value = .ok (((buffers d).field name value).2, d') ∧
      buffers d' = ((buffers d).field name value).1 ∧ d'.maxEventBytes = d.maxEventBytes := by
  unfold Dispatcher.processField
  unfold Buffers.field at hfit ⊢
  by_cases hevent : name = "event".toList
  · rw [if_pos hevent, if_pos hevent]
    exact ⟨_, rfl, rfl, rfl⟩
  · rw [if_neg hevent] at hfit ⊢
    rw [if_neg hevent]
    by_cases hdata : name = "data".toList
    · rw [if_pos hdata] at hfit ⊢
      rw [if_pos hdata]
      have hlen : d.pendingData.len + value.len + 1 ≤ d.maxEventBytes := by
        have hlf : '\n'.utf8Size = 1 := by decide
        simpa [buffers, Text.len, hlf, Nat.add_assoc] using hfit
      have hsat : ¬ saturatingAdd (saturatingAdd d.pendingData.len value.len) 1 > d.maxEventBytes := by
        unfold saturatingAdd
        omega
      rw [if_neg hsat]
      exact ⟨_, rfl, rfl, rfl⟩
    · rw [if_neg hdata] at hfit ⊢
      rw [if_neg hdata]
      by_cases hid : name = "id".toList
      · rw [if_pos hid, if_pos hid]
        by_cases hnul : '\x00' ∈ value
        · exact ⟨d, by simp [hnul], by simp [hnul], rfl⟩
        · exact ⟨{ d with lastEventId := some value }, by simp [hnul], by simp [hnul, buffers], rfl⟩
      · rw [if_neg hid, if_neg hid]
        by_cases hretry : name = "retry".toList
        · rw [if_pos hretry, if_pos hretry, parseRetry_eq]
          exact ⟨d, rfl, rfl, rfl⟩
        · rw [if_neg hretry, if_neg hretry]
          exact ⟨d, rfl, rfl, rfl⟩

theorem dispatch_eq (d : Dispatcher) :
    d.dispatch.1 = (buffers d).blank.2 ∧ buffers d.dispatch.2 = (buffers d).blank.1 ∧
      d.dispatch.2.maxEventBytes = d.maxEventBytes := by
  unfold Dispatcher.dispatch Buffers.blank buffers
  by_cases hdata : d.pendingData = []
  · simp [hdata]
  · simp [hdata]

theorem stripSpace_decode (value : List UInt8) :
    Lib.Utf8.decode (if value.head? = some space then value.tail else value) =
      Buffers.stripSpace (Lib.Utf8.decode value) := by
  have hiff := Lib.Utf8.head_decode value (b := space) (by decide)
  have hsp : Char.ofNat space.toNat = ' ' := rfl
  rw [hsp] at hiff
  unfold Buffers.stripSpace
  by_cases hv : value.head? = some space
  · obtain ⟨rest, rfl⟩ : ∃ rest, value = space :: rest := by
      cases value with
      | nil => simp at hv
      | cons b rest => exact ⟨rest, by simpa using hv⟩
    rw [if_pos hv, if_pos (hiff.mpr hv), Lib.Utf8.decode_cons_ascii _ _ (by decide)]
    rfl
  · rw [if_neg hv, if_neg (fun h => hv (hiff.mp h))]

/-- Reading the field of a line before decoding its parts gives the parts of
the decoded line. -/
theorem splitField_decode (line : List UInt8) :
    Lib.Utf8.decode (splitField line).1 = (Lib.Utf8.decode line).takeWhile (· ≠ ':') ∧
      Lib.Utf8.decode (splitField line).2 =
        Buffers.stripSpace (((Lib.Utf8.decode line).dropWhile (· ≠ ':')).drop 1) := by
  unfold splitField
  have hname : ∀ {name : List UInt8}, colon ∉ name →
      ∀ c ∈ Lib.Utf8.decode name, decide (c ≠ ':') = true := by
    intro name hn c hc
    have hno := not_mem_decode (c := ':') hn rfl (by decide)
    exact decide_eq_true (fun heq => hno (heq ▸ hc))
  cases hpos : line.idxOf? colon with
  | none =>
    have hall := hname (List.idxOf?_eq_none_iff.mp hpos)
    refine ⟨(List.takeWhile_eq_self_iff.mpr hall).symm, ?_⟩
    rw [List.dropWhile_eq_nil_iff.mpr hall]
    rfl
  | some pos =>
    obtain ⟨hlt, hat, hbefore⟩ := List.idxOf?_eq_some_iff.mp hpos
    have hsplit : line = line.take pos ++ colon :: line.drop (pos + 1) := by
      rw [← hat, ← List.drop_eq_getElem_cons hlt, List.take_append_drop]
    have hfree : colon ∉ line.take pos := by
      intro hm
      obtain ⟨j, hj, heq⟩ := List.mem_take_iff_getElem.mp hm
      exact hbefore j (by omega) heq
    have hall := hname hfree
    have hdecode : Lib.Utf8.decode line =
        Lib.Utf8.decode (line.take pos) ++ ':' :: Lib.Utf8.decode (line.drop (pos + 1)) := by
      conv => lhs; rw [hsplit]
      exact Lib.Utf8.decode_ascii _ _ _ (by decide)
    rw [hdecode, List.takeWhile_append_of_pos hall, List.dropWhile_append_of_pos hall]
    refine ⟨by simp, ?_⟩
    rw [List.dropWhile_cons_of_neg (by simp)]
    exact stripSpace_decode _

/-- Accepting a line is interpreting its text. -/
theorem acceptLine_eq (d : Dispatcher) (queue : List Frame) (line : List UInt8)
    (hfit : ((buffers d).line (Lib.Utf8.decode line)).1.data.len ≤ d.maxEventBytes) :
    ∃ d', Parser.acceptLine d queue line =
        .ok (d', queue ++ ((buffers d).line (Lib.Utf8.decode line)).2.toList) ∧
      buffers d' = ((buffers d).line (Lib.Utf8.decode line)).1 ∧
      d'.maxEventBytes = d.maxEventBytes := by
  unfold Parser.acceptLine classifyLine
  unfold Buffers.line at hfit ⊢
  by_cases hnil : line = []
  · obtain ⟨hframe, hbuf, hmax⟩ := dispatch_eq d
    subst hnil
    exact ⟨d.dispatch.2, by simp [Lib.Utf8.decode_nil, hframe], by simp [Lib.Utf8.decode_nil, hbuf], hmax⟩
  · have htext : Lib.Utf8.decode line ≠ [] := fun h => hnil (Lib.Utf8.decode_eq_nil.mp h)
    have hiff := Lib.Utf8.head_decode line (b := colon) (by decide)
    rw [show Char.ofNat colon.toNat = ':' from rfl] at hiff
    have hempty : ¬ line.isEmpty = true := by simpa using hnil
    rw [if_neg htext] at hfit ⊢
    rw [if_neg hempty]
    by_cases hcolon : line.head? = some colon
    · rw [if_pos hcolon, if_pos (hiff.mpr hcolon)]
      exact ⟨d, by simp, rfl, rfl⟩
    · have hcolon' : ¬ (Lib.Utf8.decode line).head? = some ':' := fun h => hcolon (hiff.mp h)
      obtain ⟨hname, hvalue⟩ := splitField_decode line
      rw [if_neg hcolon'] at hfit ⊢
      rw [if_neg hcolon, ← hname, ← hvalue]
      rw [← hname, ← hvalue] at hfit
      obtain ⟨d', hfield, hbuf, hmax⟩ := processField_eq d _ _ hfit
      exact ⟨d', by simp [hfield], hbuf, hmax⟩

/-- Every line a reader will complete fits its bound, and so does every event
the lines build up. -/
structure Fits (max : Nat) (d : Dispatcher) (split : List (List UInt8) × List UInt8) : Prop where
  lines : ∀ line ∈ split.1, line.length ≤ max
  tail : split.2.length ≤ max
  events : ∀ k, ((buffers d).lines ((split.1.map Lib.Utf8.decode).take k)).1.data.len ≤
    d.maxEventBytes

/-- Once its first line is accepted, the lines that remain still fit. -/
theorem Fits.rest {max : Nat} {d d' : Dispatcher} {line : List UInt8}
    {split : List (List UInt8) × List UInt8} (h : Fits max d (split.map (line :: ·) id))
    (hbuf : buffers d' = ((buffers d).line (Lib.Utf8.decode line)).1)
    (hmax : d'.maxEventBytes = d.maxEventBytes) : Fits max d' split := by
  refine ⟨fun l hl => h.lines l (by simp [hl]), h.tail, fun k => ?_⟩
  have hk := h.events (k + 1)
  simp only [Prod.map_fst, List.map_cons, List.take_succ_cons, Buffers.lines, ← hbuf] at hk
  rwa [hmax]

theorem Fits.first {max : Nat} {d : Dispatcher} {line : List UInt8}
    {split : List (List UInt8) × List UInt8} (h : Fits max d (split.map (line :: ·) id)) :
    ((buffers d).line (Lib.Utf8.decode line)).1.data.len ≤ d.maxEventBytes := by
  have hone := h.events 1
  simpa [Buffers.lines] using hone

/-- What reading the rest of the stream gives a reader whose line so far is `cur`. -/
def Yields (d : Dispatcher) (frames : List Frame)
    (split : List (List UInt8) × List UInt8) (out : Except Stopped ByteReader) : Prop :=
  ∃ r, out = .ok r ∧
    r.frames = frames ++ ((buffers d).lines (split.1.map Lib.Utf8.decode)).2

/-- Completing a line writes the frames of its text. -/
theorem yields_line {max : Nat} {d : Dispatcher} {frames : List Frame} {cur : List UInt8}
    {held : Bool} {split : List (List UInt8) × List UInt8}
    {next : ByteReader → Except Stopped ByteReader}
    (hfits : Fits max d (split.map (cur :: ·) id))
    (hnext : ∀ d' frames', Fits max d' split →
      Yields d' frames' split (next (.fresh d' frames'))) :
    Yields d frames (split.map (cur :: ·) id)
      ((ByteReader.mk false cur held d frames).completeLine >>= next) := by
  obtain ⟨d', haccept, hbuf, hmax⟩ := acceptLine_eq d frames cur hfits.first
  obtain ⟨r, hr, hframes⟩ := hnext d' (frames ++ ((buffers d).line (Lib.Utf8.decode cur)).2.toList)
    (hfits.rest hbuf hmax)
  refine ⟨r, by simp [ByteReader.completeLine, haccept, ok_bind, hr], ?_⟩
  rw [hframes, hbuf]
  simp [Buffers.lines]

/-- A CR that no LF follows ends its line before the next byte is read, or at
the end of the stream. -/
theorem read_cr (max : Nat) (d : Dispatcher) (frames : List Frame) (cur rest : List UInt8)
    (hr : rest.head? ≠ some LF) :
    (rest.foldlM (ByteReader.readContent max) ⟨false, cur, true, d, frames⟩ >>=
        ByteReader.finish max) =
      (ByteReader.mk false cur true d frames).completeLine >>= fun r =>
        rest.foldlM (ByteReader.readContent max) r >>= ByteReader.finish max := by
  have hdone : ∀ d' frames', ByteReader.finish max (.fresh d' frames') = .ok (.fresh d' frames') :=
    fun _ _ => rfl
  cases rest with
  | nil =>
    unfold ByteReader.completeLine
    cases haccept : Parser.acceptLine d frames cur with
    | error overflow =>
      simp [ByteReader.finish, ByteReader.completeLine, haccept, pure, Except.pure, ok_bind, error_bind]
    | ok out =>
      simp [ByteReader.finish, ByteReader.completeLine, haccept, pure, Except.pure, ok_bind,
        ByteReader.fresh]
  | cons b after =>
    have hb : b ≠ LF := fun heq => hr (by simp [heq])
    rw [List.foldlM_cons, ByteReader.readContent_held max _ b rfl hb]
    simp only [bind_assoc, List.foldlM_cons]

/-- Reading a stream one byte at a time interprets its lines. -/
theorem read_lines (max : Nat) (cur rest : List UInt8) (d : Dispatcher) (frames : List Frame)
    (hfits : Fits max d (Lib.splitLines CR LF cur rest)) :
    Yields d frames (Lib.splitLines CR LF cur rest)
      (rest.foldlM (ByteReader.readContent max) ⟨false, cur, false, d, frames⟩ >>=
        ByteReader.finish max) := by
  have hne : CR ≠ LF := by decide
  induction cur, rest using Lib.lines_induct CR LF generalizing d frames with
  | nil cur => exact ⟨⟨false, cur, false, d, frames⟩, rfl, by simp [Lib.splitLines_nil, Buffers.lines]⟩
  | lf_end cur rest ih =>
    rw [Lib.splitLines_lf] at hfits ⊢
    rw [List.foldlM_cons, bind_assoc]
    exact yields_line hfits (fun d' frames' hf => ih d' frames' hf)
  | crlf_end cur rest ih =>
    rw [Lib.splitLines_crlf hne] at hfits ⊢
    have hcr : ByteReader.readContent max ⟨false, cur, false, d, frames⟩ CR =
        .ok ⟨false, cur, true, d, frames⟩ := rfl
    have hlf : ByteReader.readContent max ⟨false, cur, true, d, frames⟩ LF =
        (ByteReader.mk false cur true d frames).completeLine := by
      simp only [ByteReader.readContent, if_true]
      exact bind_pure _
    rw [List.foldlM_cons, hcr, ok_bind, List.foldlM_cons, hlf, bind_assoc]
    exact yields_line hfits (fun d' frames' hf => ih d' frames' hf)
  | cr_end cur rest hr ih =>
    rw [Lib.splitLines_cr hne cur hr] at hfits ⊢
    have hcr : ByteReader.readContent max ⟨false, cur, false, d, frames⟩ CR =
        .ok ⟨false, cur, true, d, frames⟩ := rfl
    rw [List.foldlM_cons, hcr, ok_bind, read_cr max d frames cur rest hr]
    exact yields_line hfits (fun d' frames' hf => ih d' frames' hf)
  | plain cur b rest hl hc ih =>
    rw [Lib.splitLines_plain hl hc] at hfits ⊢
    obtain ⟨line, hm, hpre⟩ := Lib.splitLines_extends hne (cur ++ [b]) rest
    have hlen : cur.length + 1 ≤ max := by
      have hline : line.length ≤ max := hm.elim (hfits.lines line) (fun h => h ▸ hfits.tail)
      have hle := hpre.length_le
      simp only [List.length_append, List.length_singleton] at hle
      omega
    have hstep : ByteReader.readContent max ⟨false, cur, false, d, frames⟩ b =
        .ok ⟨false, cur ++ [b], false, d, frames⟩ := by
      have hfit : ¬ cur.length + 1 > max := by omega
      simp [ByteReader.readContent, ByteReader.readFresh, hl, hc, hfit]
    rw [List.foldlM_cons, hstep, ok_bind]
    exact ih d frames hfits

/-- A stream read to its end is its content read to its end: the mark plays no
further part. -/
theorem read_content (limits : Limits) (bytes : List UInt8) :
    (bytes.foldlM (ByteReader.readByte limits.maxLineBytes) (ByteReader.start limits) >>=
        ByteReader.finish limits.maxLineBytes) =
      (stripBom bytes).foldlM (ByteReader.readContent limits.maxLineBytes)
          (.fresh (.new limits.maxEventBytes) []) >>=
        ByteReader.finish limits.maxLineBytes := by
  have hmark := ByteReader.read_mark limits.maxLineBytes (.new limits.maxEventBytes) [] [] bytes
    List.nil_prefix (by simp)
  rw [ByteReader.start, hmark, List.nil_append]
  unfold ByteReader.marked stripBom
  by_cases hbom : BOM.isPrefixOf bytes
  · rw [if_pos hbom, if_pos hbom]
    rfl
  · rw [if_neg hbom, if_neg hbom]
    by_cases hpre : bytes.isPrefixOf BOM
    · rw [if_pos hpre, ok_bind]
      simp only [ByteReader.finish, ByteReader.decide, if_true]
      cases hread : bytes.foldlM (ByteReader.readContent limits.maxLineBytes)
          (.fresh (.new limits.maxEventBytes) []) with
      | error stopped => rfl
      | ok r =>
        have hdecided := ByteReader.fold_decided hread rfl
        simp [ByteReader.finish, ok_bind, hdecided]
    · rw [if_neg hpre]

theorem readAll_frames (limits : Limits) (bytes : List UInt8) (h : Within limits bytes) :
    ByteReader.readAll limits bytes = (frames bytes, none) := by
  have hlines : textLines bytes =
      (Lib.splitLines CR LF [] (stripBom bytes)).1.map Lib.Utf8.decode := by
    have hsplit := splitLines_decode [] (stripBom bytes) plain_nil
    rw [List.nil_append] at hsplit
    rw [textLines, hsplit]
    rfl
  have hfits : Fits limits.maxLineBytes (.new limits.maxEventBytes)
      (Lib.splitLines CR LF [] (stripBom bytes)) := by
    refine ⟨h.lines, h.tail, fun k => ?_⟩
    have hk := h.events k
    rw [hlines] at hk
    exact hk
  obtain ⟨r, hr, hframes⟩ := read_lines _ [] _ _ [] hfits
  unfold ByteReader.readAll
  rw [read_content, ByteReader.fresh, hr]
  simp only [hframes, frames, hlines, List.nil_append]
  rfl

/-- However a stream is cut and drained, a parser whose limits it stays within
yields the frames of the event-stream format. -/
theorem parser_conforms (limits : Limits) (steps : List (Option (List UInt8)))
    (h : Within limits steps.reduceOption.flatten) :
    (Session.run limits (Session.calls steps)).frames = frames steps.reduceOption.flatten ∧
      (Session.run limits (Session.calls steps)).overflow = none := by
  have hrun := Session.run_calls limits steps
  rw [readAll_frames limits _ h] at hrun
  exact ⟨congrArg Prod.fst hrun, congrArg Prod.snd hrun⟩

theorem parser_conforms_event :
    (Session.run ⟨8, 8⟩ (Session.calls
        [some [0x64, 0x61, 0x74, 0x61], none, some [0x3A, 0x61, 0x0D, 0x0A, 0x0A]])).frames =
      [.message ⟨[], ['a'], none⟩] := by
  have hwithin : Within ⟨8, 8⟩ [0x64, 0x61, 0x74, 0x61, 0x3A, 0x61, 0x0D, 0x0A, 0x0A] := by
    have hlines : textLines [0x64, 0x61, 0x74, 0x61, 0x3A, 0x61, 0x0D, 0x0A, 0x0A] =
        ["data:a".toList, []] := by decide
    refine ⟨by decide, by decide, fun k => ?_⟩
    rw [hlines, List.take_eq_take_min]
    have hk : min k 2 = 0 ∨ min k 2 = 1 ∨ min k 2 = 2 := by omega
    rcases hk with hk | hk | hk <;> simp only [List.length_cons, List.length_nil, hk] <;> decide
  exact (parser_conforms ⟨8, 8⟩ [some [0x64, 0x61, 0x74, 0x61], none,
    some [0x3A, 0x61, 0x0D, 0x0A, 0x0A]] hwithin).1.trans (by decide)

end Aviso.Finesse.EventStream
