import Flashclaw.Agents.BlockChunker

/-!
# A drain of streamed text

Each round of a drain takes a part of the buffer: a chunk, or blanks that are left out.
-/

namespace Flashclaw.Agents

open Utf16 Ranges MarkdownCore

/-- A chunk: some content, and the fences that it opens again and closes. -/
structure Emission where
  reopen : Option FenceSpan
  content : Utf16
  close : Option FenceSpan

def Emission.render (emission : Emission) : Utf16 :=
  let rawChunk := reopenPrefix emission.reopen ++ emission.content
  emission.close.elim rawChunk (closedChunk rawChunk)

/-- A chunk whose content is a range of a text. -/
structure Piece where
  reopen : Option FenceSpan
  range : Range
  close : Option FenceSpan

def Piece.emission (source : Utf16) (piece : Piece) : Emission :=
  ⟨piece.reopen, slice source piece.range.start piece.range.stop, piece.close⟩

/-- Blanks up to where the next round starts. -/
structure BlankUpTo (source : Utf16) (stop next : ℕ) : Prop where
  le : stop ≤ next
  le_length : next ≤ source.length
  blank : Between (BlankAt source) stop next

/-- Newlines up to a position, or the whole rest of a text. -/
def StripsLines (source : Utf16) (start next : ℕ) : Prop :=
  next = source.length ∨ Between (fun i => source[i]? = some NEWLINE) start next

/-- A round that leaves out a blank part of a text. -/
structure Skips (source : Utf16) (fenceSpans : List FenceSpan) (reach : ℕ)
    (reopenFence : Option FenceSpan) (start : ℕ) (consumed : Consumed) (stop : ℕ)
    (fenceSplit : Option FenceSpan) : Prop where
  breakAt : BreakAt source fenceSpans reach start stop fenceSplit
  blankPrefix : ∀ c ∈ reopenPrefix reopenFence, isWhiteSpace c = true
  blank : Between (BlankAt source) start stop
  chunk : consumed.chunk = none
  reopen : consumed.reopenFence = none
  next : BlankUpTo source stop consumed.start

/-- A round that emits a chunk. -/
structure Emits (source : Utf16) (fenceSpans : List FenceSpan) (reach : ℕ)
    (reopenFence : Option FenceSpan) (start : ℕ) (consumed : Consumed) (stop : ℕ)
    (fenceSplit : Option FenceSpan) : Prop where
  breakAt : BreakAt source fenceSpans reach start stop fenceSplit
  chunk : consumed.chunk =
    some (Piece.emission source ⟨reopenFence, ⟨start, stop⟩, fenceSplit⟩).render
  reopen : consumed.reopenFence = fenceSplit
  next : BlankUpTo source stop consumed.start
  split : fenceSplit ≠ none → consumed.start = stop

/-- What a round can do. -/
def RoundOf (source : Utf16) (fenceSpans : List FenceSpan) (reach : ℕ)
    (reopenFence : Option FenceSpan) (start : ℕ) (consumed : Consumed) : Prop :=
  ∃ stop fenceSplit, Skips source fenceSpans reach reopenFence start consumed stop fenceSplit ∨
    Emits source fenceSpans reach reopenFence start consumed stop fenceSplit

section Round

variable {source : Utf16} {fenceSpans : List FenceSpan} {reach start stop : ℕ}
  {reopenFence : Option FenceSpan}

theorem blankAt_newline {i : ℕ} (h : source[i]? = some NEWLINE) : BlankAt source i := by
  rw [BlankAt, h, Option.any_some]
  exact blank_newline

/-- Newlines behind blanks. -/
theorem blankUpTo_skip {middle : ℕ} (h : BlankUpTo source stop middle) :
    BlankUpTo source stop (skipLeadingNewlines source middle) where
  le := h.le.trans (le_skipWhile _ _ _)
  le_length := skipWhile_le_length h.le_length
  blank i hi hlt := by
    rcases Nat.lt_or_ge i middle with hbefore | hbehind
    · exact h.blank i hi hbefore
    · obtain ⟨c, hc, hnewline⟩ := exists_of_lt_skipWhile hbehind hlt
      rw [of_decide_eq_true hnewline] at hc
      exact blankAt_newline hc

theorem stripsLines_skip (source : Utf16) (start : ℕ) :
    StripsLines source start (skipLeadingNewlines source start) := by
  right
  intro i hi hlt
  obtain ⟨c, hc, hnewline⟩ := exists_of_lt_skipWhile hi hlt
  rw [hc, of_decide_eq_true hnewline]

theorem blankUpTo_self (h : stop ≤ source.length) : BlankUpTo source stop stop :=
  ⟨Nat.le_refl _, h, Between.self _ _⟩

/-- A chunk that is trimmed away is blank. -/
theorem blank_of_trim_chunk (hle : stop ≤ source.length)
    (h : trim (reopenPrefix reopenFence ++ slice source start stop) = []) :
    (∀ c ∈ reopenPrefix reopenFence, isWhiteSpace c = true) ∧
      Between (BlankAt source) start stop := by
  have hblank := blank_of_trim h
  refine ⟨fun c hc => hblank c (List.mem_append_left _ hc), fun i hi hlt => ?_⟩
  have hunit : source[i]? = some source[i] := List.getElem?_eq_getElem (by omega)
  rw [BlankAt, hunit, Option.any_some]
  apply hblank
  apply List.mem_append_right
  apply List.mem_iff_getElem?.mpr
  refine ⟨i - start, ?_⟩
  rw [getElem?_slice, if_pos (by omega), Nat.add_sub_cancel' hi, hunit]

theorem roundOf_emitBreakResult {result : BreakResult}
    (h : BreakAt source fenceSpans reach start (start + result.index) result.fenceSplit)
    (goesOn : Bool) :
    RoundOf source fenceSpans reach reopenFence start
      { emitBreakResult source reopenFence start result with goesOn := goesOn } := by
  refine ⟨start + result.index, result.fenceSplit, ?_⟩
  rw [emitBreakResult]
  dsimp only
  by_cases htrim : trim (reopenPrefix reopenFence ++ slice source start (start + result.index)) = []
  · left
    obtain ⟨hprefix', hblank⟩ := blank_of_trim_chunk h.le_length htrim
    rw [if_pos htrim]
    exact ⟨h, hprefix', hblank, rfl, rfl, blankUpTo_skip (blankUpTo_self h.le_length)⟩
  · right
    rw [if_neg htrim]
    cases hsplit : result.fenceSplit with
    | some fence =>
      rw [hsplit] at h
      exact ⟨h, rfl, rfl, blankUpTo_self h.le_length, fun _ => rfl⟩
    | none =>
      rw [hsplit] at h
      refine ⟨h, rfl, rfl, blankUpTo_skip ?_, fun hne => absurd rfl hne⟩
      split_ifs with hspace
      · refine ⟨Nat.le_succ _, ?_, fun i hi hlt => ?_⟩
        · obtain ⟨c, hc, -⟩ := (Option.any_eq_true _ _).mp hspace
          exact (List.getElem?_eq_some_iff.mp hc).1
        · obtain rfl : i = start + result.index := by omega
          exact hspace
      · exact blankUpTo_self h.le_length

variable {chunking : BlockReplyChunking} {force : Bool} {consumed : Consumed}

theorem least_pos (chunking : BlockReplyChunking) : 0 < chunking.least := by
  rw [BlockReplyChunking.least]
  omega

theorem roundOf_flushedParagraph
    (h : flushedParagraph chunking source fenceSpans reopenFence start = some consumed) :
    RoundOf source fenceSpans reach reopenFence start consumed := by
  obtain ⟨found, hfound, rfl⟩ := Option.map_eq_some_iff.mp h
  obtain ⟨hprogress, hsafe, hlength, hblank⟩ :=
    of_findNextParagraphBreak (Nat.le_refl start) (Option.filter_eq_some_iff.mp hfound).1
  have := least_pos chunking
  have hbreak : BreakAt source fenceSpans reach start found.index none :=
    ⟨by omega, by omega, fun _ => hsafe, fun _ hnone => (by cases hnone)⟩
  have hnext : BlankUpTo source found.index
      (skipLeadingNewlines source (found.index + found.length)) :=
    blankUpTo_skip ⟨Nat.le_add_right _ _, hlength, hblank⟩
  refine ⟨found.index, none, ?_⟩
  by_cases htrim : trim (reopenPrefix reopenFence ++ slice source start found.index) = []
  · left
    obtain ⟨hprefix', hblank'⟩ := blank_of_trim_chunk hbreak.le_length htrim
    exact ⟨hbreak, hprefix', hblank', if_pos htrim, rfl, hnext⟩
  · right
    exact ⟨hbreak, if_neg htrim, rfl, hnext, fun hne => absurd rfl hne⟩

theorem roundOf_sizedBreak (fenced : FencedText) (hlt : start < fenced.text.length)
    (h : sizedBreak chunking force fenced.text fenced.spans reopenFence start = some consumed) :
    RoundOf fenced.text fenced.spans chunking.maxChars.toNat reopenFence start consumed := by
  rw [sizedBreak] at h
  dsimp only at h
  split at h
  · split_ifs at h
    obtain rfl := Option.some.inj h
    refine ⟨fenced.text.length, none, .inr ⟨?_, ?_, rfl, blankUpTo_self (Nat.le_refl _),
      fun hne => absurd rfl hne⟩⟩
    · exact ⟨hlt, Nat.le_refl _, fun _ => findFenceSpanAt_length fenced,
        fun _ hnone => (by cases hnone)⟩
    · show some _ = some (reopenPrefix reopenFence ++ slice fenced.text start fenced.text.length)
      rw [slice_of_length_le (Nat.le_refl _)]
  · rename_i result hresult
    obtain rfl := Option.some.inj h
    apply roundOf_emitBreakResult
    split at hresult
    · obtain ⟨index, hindex, rfl⟩ := Option.map_eq_some_iff.mp hresult
      exact breakAt_pickSoftBreakIndex hindex
    · exact breakAt_pickBreakIndex fenced.spanOf hresult

theorem roundOf_drainRound (fenced : FencedText) (hlt : start < fenced.text.length)
    (h : drainRound chunking force fenced.text fenced.spans reopenFence start = some consumed) :
    RoundOf fenced.text fenced.spans chunking.maxChars.toNat reopenFence start consumed := by
  rw [drainRound] at h
  split at h
  · cases h
  split at h
  · split at h
    · rename_i hflushed
      obtain rfl := Option.some.inj h
      exact roundOf_flushedParagraph hflushed
    · split at h
      · cases h
      · exact roundOf_sizedBreak fenced hlt h
  · exact roundOf_sizedBreak fenced hlt h

theorem lt_start_of_round (h : RoundOf source fenceSpans reach reopenFence start consumed) :
    start < consumed.start := by
  obtain ⟨stop, fenceSplit, hskips | hemits⟩ := h
  · exact hskips.breakAt.progress.trans_le hskips.next.le
  · exact hemits.breakAt.progress.trans_le hemits.next.le

theorem le_length_of_round (h : RoundOf source fenceSpans reach reopenFence start consumed) :
    consumed.start ≤ source.length := by
  obtain ⟨stop, fenceSplit, hskips | hemits⟩ := h
  · exact hskips.next.le_length
  · exact hemits.next.le_length

end Round

/-- What the loop has emitted, and where it stops. -/
structure DrainLoop where
  chunks : List Utf16
  reopenFence : Option FenceSpan
  start : ℕ

/-- The loop of `drain`. -/
def drainFrom (chunking : BlockReplyChunking) (force : Bool) (fenced : FencedText)
    (reopenFence : Option FenceSpan) (start : ℕ) : DrainLoop :=
  if _hstart : start < fenced.text.length then
    match _hround : drainRound chunking force fenced.text fenced.spans reopenFence start with
    | none => ⟨[], reopenFence, start⟩
    | some consumed =>
      if consumed.goesOn then
        let rest := drainFrom chunking force fenced consumed.reopenFence consumed.start
        { rest with chunks := consumed.chunk.toList ++ rest.chunks }
      else ⟨consumed.chunk.toList, consumed.reopenFence, consumed.start⟩
  else ⟨[], reopenFence, start⟩
termination_by fenced.text.length - start
decreasing_by
  have := lt_start_of_round (roundOf_drainRound fenced _hstart _hround)
  omega

def stripLeadingNewlines (value : Utf16) : Utf16 := value.drop (skipLeadingNewlines value 0)

/-- The chunks of a drain, the fence that it leaves open, and what is left of the buffer. -/
structure Drained where
  chunks : List Utf16
  reopenFence : Option FenceSpan
  rest : Utf16

def Drained.buffer (drained : Drained) : Utf16 := reopenPrefix drained.reopenFence ++ drained.rest

def drain (chunking : BlockReplyChunking) (force : Bool) (buffer : Utf16) : Drained :=
  if buffer.length < chunking.least && !force then ⟨[], none, buffer⟩
  else if force && buffer.length ≤ chunking.most then ⟨(emitted buffer).toList, none, []⟩
  else
    let drained := drainFrom chunking force (FencedText.parse buffer) none 0
    let rest := buffer.drop drained.start
    ⟨drained.chunks, drained.reopenFence,
      if drained.reopenFence.isSome then rest else stripLeadingNewlines rest⟩

/-- The pieces of a drain from a position on, the fence that it leaves open, and where it stops. -/
inductive Rounds (source : Utf16) (fenceSpans : List FenceSpan) (reach : ℕ) :
    Option FenceSpan → ℕ → List Piece → Option FenceSpan → ℕ → Prop where
  | done {reopenFence : Option FenceSpan} {start next : ℕ} (hnext : BlankUpTo source start next)
    (hsame : reopenFence ≠ none → next = start) (hlines : StripsLines source start next) :
    Rounds source fenceSpans reach reopenFence start [] reopenFence next
  | skip {start stop next stopped : ℕ} {fenceSplit left : Option FenceSpan} {pieces : List Piece}
    (hbreak : BreakAt source fenceSpans reach start stop fenceSplit)
    (hblank : Between (BlankAt source) start stop) (hnext : BlankUpTo source stop next)
    (hrest : Rounds source fenceSpans reach none next pieces left stopped) :
    Rounds source fenceSpans reach none start pieces left stopped
  | emit {reopenFence : Option FenceSpan} {start stop next stopped : ℕ}
    {fenceSplit left : Option FenceSpan} {pieces : List Piece}
    (hbreak : BreakAt source fenceSpans reach start stop fenceSplit)
    (hnext : BlankUpTo source stop next) (hsplit : fenceSplit ≠ none → next = stop)
    (hrest : Rounds source fenceSpans reach fenceSplit next pieces left stopped) :
    Rounds source fenceSpans reach reopenFence start
      (⟨reopenFence, ⟨start, stop⟩, fenceSplit⟩ :: pieces) left stopped

section Rounds

variable {chunking : BlockReplyChunking} {force : Bool} {fenced : FencedText} {start : ℕ}
  {reopenFence : Option FenceSpan}

/-- An opening line is not blank. -/
theorem exists_unit_of_openLine {text : Utf16} {span : FenceSpan} (h : SpanOf text span) :
    ∃ c ∈ span.openLine, isWhiteSpace c = false := by
  obtain ⟨trailing, hmarks⟩ := h.opens.marks
  obtain ⟨c, hc⟩ := List.exists_mem_of_length_pos (by have := hmarks.three; omega : 0 < span.marker.length)
  refine ⟨c, ?_, ?_⟩
  · rw [← hmarks.split]
    exact List.mem_append_right _ (List.mem_append_left _ hc)
  · have hmarker := hmarks.markers c hc
    rw [isFenceMarker, Bool.or_eq_true, decide_eq_true_eq, decide_eq_true_eq] at hmarker
    rcases hmarker with rfl | rfl
    · decide
    · decide

theorem eq_none_of_blankPrefix (hopen : ∀ fence, reopenFence = some fence → fence ∈ fenced.spans)
    (hblank : ∀ c ∈ reopenPrefix reopenFence, isWhiteSpace c = true) : reopenFence = none := by
  cases reopenFence with
  | none => rfl
  | some fence =>
    obtain ⟨c, hc, hunit⟩ := exists_unit_of_openLine (fenced.spanOf fence (hopen fence rfl))
    rw [hblank c (List.mem_append_left _ hc)] at hunit
    cases hunit

/-- A round in front of the rounds that follow. -/
theorem exists_rounds_cons {consumed : Consumed} {left : Option FenceSpan} {stopped : ℕ}
    {pieces : List Piece} {reach : ℕ}
    (hopen : ∀ fence, reopenFence = some fence → fence ∈ fenced.spans)
    (hround : RoundOf fenced.text fenced.spans reach reopenFence start consumed)
    (hrest : Rounds fenced.text fenced.spans reach consumed.reopenFence consumed.start pieces left
      stopped) :
    ∃ pieces', Rounds fenced.text fenced.spans reach reopenFence start pieces' left stopped ∧
      pieces'.map (fun piece => (piece.emission fenced.text).render) =
        consumed.chunk.toList ++ pieces.map fun piece => (piece.emission fenced.text).render := by
  obtain ⟨stop, fenceSplit, hskips | hemits⟩ := hround
  · obtain rfl := eq_none_of_blankPrefix hopen hskips.blankPrefix
    rw [hskips.reopen] at hrest
    refine ⟨pieces, .skip hskips.breakAt hskips.blank hskips.next hrest, ?_⟩
    rw [hskips.chunk]
    rfl
  · rw [hemits.reopen] at hrest
    refine ⟨_, .emit hemits.breakAt hemits.next hemits.split hrest, ?_⟩
    rw [hemits.chunk]
    rfl

theorem open_of_round {consumed : Consumed} {reach : ℕ}
    (hround : RoundOf fenced.text fenced.spans reach reopenFence start consumed) :
    ∀ fence, consumed.reopenFence = some fence → fence ∈ fenced.spans := by
  intro fence hfence
  obtain ⟨stop, fenceSplit, hskips | hemits⟩ := hround
  · rw [hskips.reopen] at hfence
    cases hfence
  · exact (hemits.breakAt.split fence (hemits.reopen.symm.trans hfence)).1

theorem drainFrom_of_none (hstart : start < fenced.text.length)
    (hround : drainRound chunking force fenced.text fenced.spans reopenFence start = none) :
    drainFrom chunking force fenced reopenFence start = ⟨[], reopenFence, start⟩ := by
  rw [drainFrom, dif_pos hstart, hround]

theorem drainFrom_of_goesOn {consumed : Consumed} (hstart : start < fenced.text.length)
    (hround : drainRound chunking force fenced.text fenced.spans reopenFence start = some consumed)
    (hgoes : consumed.goesOn = true) :
    drainFrom chunking force fenced reopenFence start =
      { drainFrom chunking force fenced consumed.reopenFence consumed.start with
        chunks := consumed.chunk.toList ++
          (drainFrom chunking force fenced consumed.reopenFence consumed.start).chunks } := by
  rw [drainFrom, dif_pos hstart, hround]
  exact if_pos hgoes

theorem drainFrom_of_stops {consumed : Consumed} (hstart : start < fenced.text.length)
    (hround : drainRound chunking force fenced.text fenced.spans reopenFence start = some consumed)
    (hstops : ¬consumed.goesOn = true) :
    drainFrom chunking force fenced reopenFence start =
      ⟨consumed.chunk.toList, consumed.reopenFence, consumed.start⟩ := by
  rw [drainFrom, dif_pos hstart, hround]
  exact if_neg hstops

theorem drainFrom_of_end (hend : ¬start < fenced.text.length) :
    drainFrom chunking force fenced reopenFence start = ⟨[], reopenFence, start⟩ := by
  rw [drainFrom, dif_neg hend]

theorem drainFrom_start_le (hle : start ≤ fenced.text.length) :
    (drainFrom chunking force fenced reopenFence start).start ≤ fenced.text.length := by
  induction reopenFence, start using drainFrom.induct chunking force fenced with
  | case1 reopenFence start hstart hround =>
    rw [drainFrom_of_none hstart hround]
    exact hle
  | case2 reopenFence start hstart consumed hround hgoes ih =>
    rw [drainFrom_of_goesOn hstart hround hgoes]
    exact ih (le_length_of_round (roundOf_drainRound fenced hstart hround))
  | case3 reopenFence start hstart consumed hround hgoes =>
    rw [drainFrom_of_stops hstart hround hgoes]
    exact le_length_of_round (roundOf_drainRound fenced hstart hround)
  | case4 reopenFence start hstart =>
    rw [drainFrom_of_end hstart]
    exact hle

/-- Every run of the loop has rounds; behind its end, blanks may be left out. -/
theorem exists_rounds_drainFrom
    (hopen : ∀ fence, reopenFence = some fence → fence ∈ fenced.spans) {stopped : ℕ}
    (hend : BlankUpTo fenced.text (drainFrom chunking force fenced reopenFence start).start stopped)
    (hsame : (drainFrom chunking force fenced reopenFence start).reopenFence ≠ none →
      stopped = (drainFrom chunking force fenced reopenFence start).start)
    (hlines : StripsLines fenced.text (drainFrom chunking force fenced reopenFence start).start
      stopped) :
    ∃ pieces, Rounds fenced.text fenced.spans chunking.maxChars.toNat reopenFence start pieces
        (drainFrom chunking force fenced reopenFence start).reopenFence stopped ∧
      pieces.map (fun piece => (piece.emission fenced.text).render) =
        (drainFrom chunking force fenced reopenFence start).chunks := by
  induction reopenFence, start using drainFrom.induct chunking force fenced with
  | case1 reopenFence start hstart hround =>
    rw [drainFrom_of_none hstart hround] at hend hsame hlines ⊢
    exact ⟨[], .done hend hsame hlines, rfl⟩
  | case2 reopenFence start hstart consumed hround hgoes ih =>
    rw [drainFrom_of_goesOn hstart hround hgoes] at hend hsame hlines ⊢
    have hconsumed := roundOf_drainRound fenced hstart hround
    obtain ⟨pieces, hrounds, hchunks⟩ := ih (open_of_round hconsumed) hend hsame hlines
    obtain ⟨pieces', hrounds', hchunks'⟩ := exists_rounds_cons hopen hconsumed hrounds
    refine ⟨pieces', hrounds', ?_⟩
    rw [hchunks', hchunks]
  | case3 reopenFence start hstart consumed hround hgoes =>
    rw [drainFrom_of_stops hstart hround hgoes] at hend hsame hlines ⊢
    have hconsumed := roundOf_drainRound fenced hstart hround
    obtain ⟨pieces, hrounds, hchunks⟩ := exists_rounds_cons hopen hconsumed (.done hend hsame hlines)
    refine ⟨pieces, hrounds, ?_⟩
    rw [hchunks]
    exact List.append_nil _
  | case4 reopenFence start hstart =>
    rw [drainFrom_of_end hstart] at hend hsame hlines ⊢
    exact ⟨[], .done hend hsame hlines, rfl⟩

theorem drop_stripLeadingNewlines (value : Utf16) (start : ℕ) :
    stripLeadingNewlines (value.drop start) = value.drop (skipLeadingNewlines value start) := by
  rw [stripLeadingNewlines, skipLeadingNewlines, skipLeadingNewlines, skipWhile, skipWhile,
    List.drop_zero, Nat.zero_add, List.drop_drop]

/-- Every drain has rounds. -/
theorem exists_rounds_drain (chunking : BlockReplyChunking) (force : Bool) (buffer : Utf16) :
    ∃ pieces stopped, Rounds buffer (parseFenceSpans buffer) chunking.maxChars.toNat none 0 pieces
        (drain chunking force buffer).reopenFence stopped ∧
      (drain chunking force buffer).chunks =
        pieces.map (fun piece => (piece.emission buffer).render) ∧
      (drain chunking force buffer).rest = buffer.drop stopped := by
  rw [drain]
  split_ifs with hfew hshort
  · exact ⟨[], 0, .done (blankUpTo_self (Nat.zero_le _)) (fun _ => rfl) (.inr (Between.self _ _)),
      rfl, rfl⟩
  · have hwhole : slice buffer 0 buffer.length = buffer := slice_zero_length buffer
    rw [emitted]
    split_ifs with htrim
    · refine ⟨[], buffer.length, .done ⟨Nat.zero_le _, Nat.le_refl _, ?_⟩
        (fun hne => absurd rfl hne) (.inl rfl), rfl, List.drop_length.symm⟩
      exact (@blank_of_trim_chunk buffer 0 buffer.length none (Nat.le_refl _) (by rwa [hwhole])).2
    · have hpos : 0 < buffer.length := by
        apply List.length_pos_of_ne_nil
        rintro rfl
        exact htrim rfl
      refine ⟨[⟨none, ⟨0, buffer.length⟩, none⟩], buffer.length, ?_, ?_, List.drop_length.symm⟩
      · have hbreak : BreakAt buffer (parseFenceSpans buffer) chunking.maxChars.toNat 0
            buffer.length none :=
          ⟨hpos, Nat.le_refl _, fun _ => findFenceSpanAt_length (FencedText.parse buffer),
            fun _ hnone => (by cases hnone)⟩
        apply Rounds.emit hbreak (blankUpTo_self (Nat.le_refl _)) fun _ => rfl
        exact .done (blankUpTo_self (Nat.le_refl _)) (fun _ => rfl) (.inl rfl)
      · exact congrArg (fun chunk => [chunk]) hwhole.symm
  · dsimp only
    have hle := @drainFrom_start_le chunking force (FencedText.parse buffer) 0 none (Nat.zero_le _)
    have hrounds := @exists_rounds_drainFrom chunking force (FencedText.parse buffer) 0 none
      fun _ hnone => (by cases hnone)
    generalize drainFrom chunking force (FencedText.parse buffer) none 0 = drained at hle hrounds ⊢
    cases hreopen : drained.reopenFence with
    | some fence =>
      obtain ⟨pieces, hpieces, hchunks⟩ := hrounds (blankUpTo_self hle) (fun _ => rfl)
        (.inr (Between.self _ _))
      rw [hreopen] at hpieces
      exact ⟨pieces, drained.start, hpieces, hchunks.symm, rfl⟩
    | none =>
      obtain ⟨pieces, hpieces, hchunks⟩ := hrounds (blankUpTo_skip (blankUpTo_self hle))
        (fun hne => absurd hreopen hne) (stripsLines_skip _ _)
      rw [hreopen] at hpieces
      refine ⟨pieces, skipLeadingNewlines buffer drained.start, hpieces, hchunks.symm, ?_⟩
      exact drop_stripLeadingNewlines buffer drained.start

end Rounds

end Flashclaw.Agents
