import Flashclaw.AutoReply.MarkdownText
import Mathlib.Data.List.Chain

/-!
# Outbound chunks as parts of their text

Each chunk is a range of the text, between a line that opens a fence again and one that closes
it. What lies between two ranges is blank.
-/

namespace Flashclaw.AutoReply

open Utf16 Ranges MarkdownCore

/-- A chunk: a range of the text, and the fences that it opens again and closes. -/
structure Piece where
  reopen : Option FenceSpan
  range : Range
  close : Option FenceSpan

def Piece.render (text : Utf16) (piece : Piece) : Utf16 :=
  cutChunk text piece.reopen piece.range.start ⟨piece.range.stop, piece.close⟩

/-- The pieces of the chunks from a position on. -/
inductive Cuts (fenced : FencedText) (limit : ℕ) : Option FenceSpan → ℕ → List Piece → Prop where
  | done {reopenFence : Option FenceSpan} {start : ℕ} (hdone : start = fenced.text.length) :
    Cuts fenced limit reopenFence start []
  | final {reopenFence : Option FenceSpan} {start : ℕ} (hstart : start < fenced.text.length)
    (hfinal : fenced.text.length - start ≤ contentLimit limit reopenFence) :
    Cuts fenced limit reopenFence start [⟨reopenFence, ⟨start, fenced.text.length⟩, none⟩]
  | cut {reopenFence : Option FenceSpan} {start : ℕ} {cut : MarkdownBreak} {pieces : List Piece}
    (hcut : CutAt fenced.text fenced.spans start (contentLimit limit reopenFence) cut)
    (hsafe : splitsPair fenced.text cut.breakIdx = false)
    (hbreak : cut =
      markdownBreak fenced.text fenced.spans start (contentLimit limit reopenFence))
    (hlt : start + contentLimit limit reopenFence < fenced.text.length)
    (hrest : Cuts fenced limit cut.fenceToSplit (nextStart fenced.text cut) pieces) :
    Cuts fenced limit reopenFence start
      (⟨reopenFence, ⟨start, cut.breakIdx⟩, cut.fenceToSplit⟩ :: pieces)

theorem nextStart_le (text : Utf16) (cut : MarkdownBreak) : nextStart text cut ≤ text.length := by
  rw [nextStart]
  split
  · exact Nat.min_le_left _ _
  · exact skipWhile_le_length (Nat.min_le_left _ _)

/-- Every run of the loop has pieces. -/
theorem exists_cuts (fenced : FencedText) (limit : ℕ) {reopenFence : Option FenceSpan} {start : ℕ}
    (hle : start ≤ fenced.text.length) :
    ∃ pieces, Cuts fenced limit reopenFence start pieces ∧
      markdownChunksFrom fenced limit reopenFence start =
        pieces.map (Piece.render fenced.text) := by
  induction reopenFence, start using markdownChunksFrom.induct fenced limit with
  | case1 reopenFence start hstart hfinal finalChunk hpos =>
    refine ⟨_, .final hstart hfinal, ?_⟩
    rw [markdownChunksFrom, dif_pos hstart, dif_pos hfinal, if_pos hpos,
      ← slice_of_length_le (Nat.le_refl fenced.text.length)]
    rfl
  | case2 reopenFence start hstart hfinal finalChunk hpos =>
    exfalso
    apply hpos
    rw [List.length_append, List.length_drop]
    omega
  | case3 reopenFence start hstart hfinal cut hempty =>
    obtain ⟨hcut, -⟩ := @cutAt_markdownBreak fenced.text fenced.spans start
      (contentLimit limit reopenFence) fenced.ordered fenced.spanOf (Nat.le_max_left 1 _) (by omega)
    have hlength := congrArg List.length hempty
    rw [length_slice hcut.le_length, List.length_nil] at hlength
    have := hcut.progress
    omega
  | case4 reopenFence start hstart hfinal cut hne ih =>
    obtain ⟨hcut, hsafe⟩ := @cutAt_markdownBreak fenced.text fenced.spans start
      (contentLimit limit reopenFence) fenced.ordered fenced.spanOf (Nat.le_max_left 1 _) (by omega)
    obtain ⟨pieces, hpieces, hchunks⟩ := ih (nextStart_le _ _)
    refine ⟨_, .cut hcut hsafe rfl (by omega) hpieces, ?_⟩
    rw [markdownChunksFrom, dif_pos hstart, dif_neg hfinal, if_neg hne, hchunks]
    rfl
  | case5 reopenFence start hstart =>
    refine ⟨[], .done (by omega), ?_⟩
    rw [markdownChunksFrom, dif_neg hstart]
    rfl

/-- A position in a fence, its opening line included. -/
def Fenced (spans : List FenceSpan) (i : ℕ) : Prop :=
  ∃ span ∈ spans, span.start ≤ i ∧ i < span.stop

/-- Newlines behind a position outside of fences are outside of fences. -/
theorem not_fenced_of_newlines {fenced : FencedText} {index i : ℕ}
    (hsafe : findFenceSpanAt fenced.spans index = none) (hlt : index < i)
    (hnewlines : ∀ j, index < j → j ≤ i → fenced.text[j]? = some NEWLINE) :
    ¬Fenced fenced.spans i := by
  rintro ⟨span, hmem, hstart, hstop⟩
  have hopens := (fenced.spanOf span hmem).opens
  have hmark : ∀ k < 3, fenced.text[span.start + k]? ≠ some NEWLINE := by
    intro k hk hnewline
    obtain ⟨c, hc, hmarker⟩ := hopens.unit_at (hk.trans_le hopens.three_le)
    obtain rfl := Option.some.inj (hc.symm.trans hnewline)
    exact (not_low_of_marker hmarker).2.2 rfl
  rcases Nat.lt_trichotomy span.start index with hbefore | hsame | hbehind
  · exact (findFenceSpanAt_eq_none fenced.ordered).mp hsafe span hmem ⟨hbefore, by omega⟩
  · apply hmark 1 (by decide)
    exact hnewlines (span.start + 1) (by omega) (by omega)
  · apply hmark 0 (by decide)
    exact hnewlines (span.start + 0) (by omega) (by omega)

/-- What lies between a cut and the next chunk: a blank at the cut, or newlines outside. -/
theorem between_nextStart {fenced : FencedText} {cut : MarkdownBreak}
    (hfence : cut.fenceToSplit = findFenceSpanAt fenced.spans cut.breakIdx) :
    Between (fun i => BlankAt fenced.text i ∧ (Fenced fenced.spans i → cut.breakIdx = i))
      cut.breakIdx (nextStart fenced.text cut) := by
  intro i hi hlt
  rw [nextStart] at hlt
  generalize hbroke : (decide (cut.breakIdx < fenced.text.length) &&
    fenced.text[cut.breakIdx]?.any isWhiteSpace) = brokeOnSeparator at hlt
  generalize hnext : min fenced.text.length
    (cut.breakIdx + if brokeOnSeparator = true then 1 else 0) = next at hlt
  have hnewlines : ∀ {j}, next ≤ j → j ≤ i → cut.fenceToSplit = none ∧
      fenced.text[j]? = some NEWLINE := by
    intro j hj hji
    split_ifs at hlt with hsome
    · omega
    · refine ⟨Option.not_isSome_iff_eq_none.mp hsome, ?_⟩
      obtain ⟨c, hc, hnewline⟩ := exists_of_lt_skipWhile hj (hji.trans_lt hlt)
      rw [hc, of_decide_eq_true hnewline]
  have hblank : ∀ {j}, fenced.text[j]? = some NEWLINE → BlankAt fenced.text j := by
    intro j hj
    rw [BlankAt, hj, Option.any_some]
    decide
  rcases Nat.eq_or_lt_of_le hi with rfl | hbehind
  · refine ⟨?_, fun _ => rfl⟩
    cases brokeOnSeparator with
    | true => exact (Bool.and_eq_true_iff.mp hbroke).2
    | false =>
      apply hblank
      exact (hnewlines (by rw [← hnext]; exact Nat.min_le_right _ _) (Nat.le_refl _)).2
  · have hstep : next ≤ cut.breakIdx + 1 := by
      rw [← hnext]
      split_ifs
      · exact Nat.min_le_right _ _
      · exact (Nat.min_le_right _ _).trans (Nat.le_succ _)
    obtain ⟨hnone, hnewline⟩ := hnewlines (hstep.trans hbehind) (Nat.le_refl _)
    refine ⟨hblank hnewline, fun hfenced => absurd hfenced ?_⟩
    apply not_fenced_of_newlines (hfence.symm.trans hnone) hbehind
    intro j hj hji
    exact (hnewlines (hstep.trans hj) hji).2

/-- A position that no piece has: a blank, and in a fence only where a piece is cut. -/
def Missing (fenced : FencedText) (pieces : List Piece) (i : ℕ) : Prop :=
  BlankAt fenced.text i ∧ (Fenced fenced.spans i → ∃ piece ∈ pieces, piece.range.stop = i)

section Cuts

variable {fenced : FencedText} {limit start : ℕ} {reopenFence : Option FenceSpan}
  {pieces : List Piece}

theorem gapped_of_cuts (h : Cuts fenced limit reopenFence start pieces) {all : List Piece}
    (hall : ∀ piece ∈ pieces, piece ∈ all) :
    Gapped (Missing fenced all) start (pieces.map Piece.range) fenced.text.length := by
  induction h with
  | done hdone =>
    subst hdone
    exact ⟨Nat.le_refl _, Between.self _ _⟩
  | @final reopenFence start hstart hfinal =>
    exact ⟨Nat.le_refl _, Between.self _ _, hstart, Nat.le_refl _, Between.self _ _⟩
  | @cut reopenFence start cut pieces hcut _ _ _ _ ih =>
    obtain ⟨hfirst, hrest⟩ := List.forall_mem_cons.mp hall
    refine ⟨Nat.le_refl _, Between.self _ _, hcut.progress, ?_⟩
    apply (ih hrest).behind (le_nextStart hcut.le_length)
    intro i hi hlt
    obtain ⟨hblank, hinside⟩ := between_nextStart hcut.fence i hi hlt
    exact ⟨hblank, fun hfenced => ⟨_, hfirst, hinside hfenced⟩⟩

/-- Every piece opens again what the one in front of it closes. -/
theorem isChain_of_cuts (h : Cuts fenced limit reopenFence start pieces) :
    (∀ piece ∈ pieces.head?, piece.reopen = reopenFence) ∧
      pieces.IsChain fun piece next => next.reopen = piece.close := by
  induction h with
  | done => exact ⟨fun _ h => (by cases h), .nil⟩
  | final =>
    refine ⟨fun piece hpiece => ?_, .singleton _⟩
    obtain rfl := Option.some.inj hpiece
    rfl
  | cut _ _ _ _ _ ih =>
    refine ⟨fun piece hpiece => ?_, List.isChain_cons.mpr ih⟩
    obtain rfl := Option.some.inj hpiece
    rfl

end Cuts

section Room

variable {text : Utf16} {spans : List FenceSpan} {start contentLimit : ℕ}

theorem of_sameFenceAt {index : ℕ} {fence found : FenceSpan}
    (h : sameFenceAt spans index fence = some found) :
    found ∈ spans ∧ found.Contains index ∧ found.start = fence.start := by
  obtain ⟨hfind, hsame⟩ := Option.filter_eq_some_iff.mp h
  obtain ⟨hmem, hinside⟩ := of_searchFenceSpan hfind
  exact ⟨hmem, hinside, of_decide_eq_true hsame⟩

/-- A window has room for the opening line of a fence, one unit, a newline and the closing line. -/
def Roomy (fence : FenceSpan) (start contentLimit : ℕ) : Prop :=
  fence.start + fence.openLine.length + 2 + (closeLine fence).length < start + contentLimit

/-- A break that leaves room for the closing line, and for its newline where it needs one. -/
def LeavesRoom (text : Utf16) (fence : FenceSpan) (start contentLimit index : ℕ) : Prop :=
  text[index - 1]? = some NEWLINE ∧ index + (closeLine fence).length ≤ start + contentLimit ∨
    index + (closeLine fence).length + 1 ≤ start + contentLimit

theorem leavesRoom_fenceBreak {fence : FenceSpan} {windowEnd : ℕ}
    (hroomy : Roomy fence start contentLimit) (hlimit : (closeLine fence).length + 2 < contentLimit)
    (hlt : start + contentLimit < text.length) :
    LeavesRoom text fence start contentLimit
      (fenceBreak text spans fence start contentLimit windowEnd) ∧
      (text[fenceBreak text spans fence start contentLimit windowEnd - 1]? = some NEWLINE ∨
        start + 1 < fenceBreak text spans fence start contentLimit windowEnd) := by
  rw [Roomy] at hroomy
  rw [fenceBreak, if_neg (by omega)]
  dsimp only
  cases hpick : pickNewline text spans fence start
      (min text.length (max (start + 1) (fence.start + fence.openLine.length + 2)))
      (max start (start + (contentLimit - (closeLine fence).length) - 1)) with
  | some index =>
    obtain ⟨-, hle, hnewline, -⟩ := of_pickNewline hpick
    refine ⟨.inl ⟨hnewline, ?_⟩, .inl hnewline⟩
    show index + _ ≤ _
    omega
  | none =>
    dsimp only
    rw [if_neg (by omega)]
    exact ⟨.inr (by omega), .inr (by omega)⟩

theorem leavesRoom_rawBreak {fence : FenceSpan} (hordered : Ordered spans)
    (hlt : start + contentLimit < text.length)
    (hfence : (rawBreak text spans start contentLimit).fenceToSplit = some fence)
    (hroomy : Roomy fence start contentLimit)
    (hlimit : (closeLine fence).length + 2 < contentLimit) :
    LeavesRoom text fence start contentLimit
        (rawBreak text spans start contentLimit).breakIdx ∧
      (text[(rawBreak text spans start contentLimit).breakIdx - 1]? = some NEWLINE ∨
        start + 1 < (rawBreak text spans start contentLimit).breakIdx) := by
  rw [rawBreak] at hfence ⊢
  dsimp only at hfence ⊢
  generalize (pickSafeBreakIndex text start (min text.length (start + contentLimit)) spans).getD
    (min text.length (start + contentLimit)) = index at hfence ⊢
  cases hfind : findFenceSpanAt spans index with
  | none =>
    rw [hfind] at hfence
    cases hfence
  | some initialFence =>
    rw [hfind] at hfence
    obtain ⟨hmem, -, hsame⟩ := of_sameFenceAt hfence
    obtain rfl := hordered.eq_of_start hmem (of_searchFenceSpan hfind).1 hsame
    exact leavesRoom_fenceBreak hroomy hlimit hlt

theorem leavesRoom_markdownBreak {fence : FenceSpan} (hordered : Ordered spans)
    (hlt : start + contentLimit < text.length)
    (hfence : (markdownBreak text spans start contentLimit).fenceToSplit = some fence)
    (hroomy : Roomy fence start contentLimit)
    (hlimit : (closeLine fence).length + 2 < contentLimit) :
    LeavesRoom text fence start contentLimit
      (markdownBreak text spans start contentLimit).breakIdx := by
  have hraw := @leavesRoom_rawBreak text spans start contentLimit fence hordered hlt
  have hcut := @cutAt_rawBreak text spans start contentLimit hordered (by omega) hlt
  rw [markdownBreak] at hfence ⊢
  generalize rawBreak text spans start contentLimit = raw at hraw hcut hfence ⊢
  cases hsplits : splitsPair text raw.breakIdx with
  | false =>
    rw [avoid_of_not_splits hsplits, if_neg (fun h => h rfl)] at hfence ⊢
    exact (hraw hfence hroomy hlimit).1
  | true =>
    have hmoved := avoid_of_splits hcut.progress hsplits
    obtain ⟨c, -, hc, hhigh, -⟩ := splitsPair_iff.mp hsplits
    have hnewline : text[raw.breakIdx - 1]? ≠ some NEWLINE := by
      intro hnewline
      obtain rfl := Option.some.inj (hc.symm.trans hnewline)
      rw [not_high_of_blank blank_newline] at hhigh
      cases hhigh
    rw [if_pos (by rw [hmoved]; split_ifs <;> omega)] at hfence ⊢
    obtain ⟨initialFence, hinitial, hmovedFence⟩ := Option.bind_eq_some_iff.mp hfence
    obtain ⟨hmem, -, hsame⟩ := of_sameFenceAt hmovedFence
    have hmem' := (of_searchFenceSpan (hcut.fence.symm.trans hinitial)).1
    obtain rfl := hordered.eq_of_start hmem hmem' hsame
    obtain ⟨hroom, hprogress⟩ := hraw hinitial hroomy hlimit
    have hwide := hprogress.resolve_left hnewline
    have hneed := hroom.resolve_left fun h => hnewline h.1
    right
    show avoidTrailingHighSurrogateBreak text start raw.breakIdx + _ + 1 ≤ _
    rw [hmoved, if_pos (by omega)]
    omega

end Room

theorem length_closedChunk (chunk : Utf16) (fence : FenceSpan) :
    (closedChunk chunk fence).length =
      chunk.length + (closeLine fence).length + if chunk.getLast? = some NEWLINE then 0 else 1 := by
  rw [closedChunk]
  split_ifs
  · rw [List.length_append]
    rfl
  · rw [List.length_append, List.length_cons]
    omega

theorem getLast?_append_slice {front text : Utf16} {start stop : ℕ} (hlt : start < stop)
    (hle : stop ≤ text.length) : (front ++ slice text start stop).getLast? = text[stop - 1]? := by
  have hlast : (slice text start stop).getLast? = text[stop - 1]? := by
    rw [List.getLast?_eq_getElem?, length_slice hle, getElem?_slice, if_pos (by omega)]
    congr 1
    omega
  have hsome : text[stop - 1]? = some text[stop - 1] := List.getElem?_eq_getElem (by omega)
  rw [List.getLast?_append, hlast, hsome, Option.some_or]

/-- A fence that a piece opens: the one that it opens again, or one that starts in it. -/
def Piece.Opens (piece : Piece) (fence : FenceSpan) : Prop :=
  piece.reopen = some fence ∨ piece.range.start ≤ fence.start ∧ fence.start < piece.range.stop

/-- A limit that any opening line fits in, with any closing line and four units. -/
def Ample (spans : List FenceSpan) (limit : ℕ) : Prop :=
  1 < limit ∧ ∀ opened ∈ spans, ∀ closed ∈ spans,
    opened.openLine.length + (closeLine closed).length + 4 ≤ limit

/-- A piece that is over its limit: the fence that it closes starts too late in it. -/
structure Late (fenced : FencedText) (limit : ℕ) (piece : Piece) (fence : FenceSpan) : Prop where
  close : piece.close = some fence
  cramped : ¬Roomy fence piece.range.start (contentLimit limit piece.reopen)
  starts : 2 * fence.openLine.length + (closeLine fence).length + 4 ≤ limit →
    piece.range.start < fence.start
  bounded : (piece.render fenced.text).length ≤ limit + (closeLine fence).length + 1

structure PieceOf (fenced : FencedText) (limit : ℕ) (piece : Piece) : Prop where
  safe : splitsPair fenced.text piece.range.start = false ∧
    splitsPair fenced.text piece.range.stop = false
  close : piece.close = findFenceSpanAt fenced.spans piece.range.stop
  closed : ∀ fence ∈ fenced.spans, piece.Opens fence →
    fence.stop ≤ piece.range.stop ∨ piece.close = some fence
  fits : Ample fenced.spans limit →
    (piece.render fenced.text).length ≤ limit ∨ ∃ fence, Late fenced limit piece fence

/-- A fence that is open at a position. -/
def OpenAt (spans : List FenceSpan) (reopenFence : Option FenceSpan) (start : ℕ) : Prop :=
  ∀ fence, reopenFence = some fence → fence ∈ spans ∧ fence.start < start ∧ start ≤ fence.stop

section PieceOf

variable {fenced : FencedText} {limit start : ℕ} {reopenFence : Option FenceSpan}
  {cut : MarkdownBreak}

theorem length_reopenPrefix (hopen : OpenAt fenced.spans reopenFence start)
    (hample : Ample fenced.spans limit) :
    (reopenPrefix reopenFence).length + contentLimit limit reopenFence = limit ∧
      1 < contentLimit limit reopenFence ∧
      ∀ fence ∈ fenced.spans, (closeLine fence).length + 2 < contentLimit limit reopenFence := by
  rw [contentLimit]
  cases reopenFence with
  | none =>
    have := hample.1
    show 0 + max 1 (limit - 0) = limit ∧ 1 < max 1 (limit - 0) ∧
      ∀ fence ∈ fenced.spans, (closeLine fence).length + 2 < max 1 (limit - 0)
    refine ⟨by omega, by omega, fun fence hmem => ?_⟩
    have := hample.2 fence hmem fence hmem
    omega
  | some opened =>
    have hmem := (hopen opened rfl).1
    have hlength : (reopenPrefix (some opened)).length = opened.openLine.length + 1 :=
      List.length_append
    rw [hlength]
    have := hample.2 opened hmem opened hmem
    refine ⟨by omega, by omega, fun fence hmem' => ?_⟩
    · have := hample.2 opened hmem fence hmem'
      omega

/-- A fence that is open at a position starts at most there. -/
theorem eq_of_openAt (hordered : Ordered fenced.spans)
    (hopen : OpenAt fenced.spans reopenFence start) {fence : FenceSpan} {index : ℕ}
    (hmem : fence ∈ fenced.spans) (hinside : fence.Contains index) (hlt : start < index)
    (hle : fence.start ≤ start) : reopenFence = none ∨ reopenFence = some fence := by
  cases reopenFence with
  | none => exact .inl rfl
  | some opened =>
    obtain ⟨hopened, hstart, hstop⟩ := hopen opened rfl
    obtain ⟨hbefore, hbehind⟩ := hinside
    rcases hordered.eq_or_apart hopened hmem with rfl | happart
    · exact .inr rfl
    · omega

/-- The room in a chunk that starts in a fence, or with it. -/
theorem roomy_of_le (hordered : Ordered fenced.spans) (hopen : OpenAt fenced.spans reopenFence start)
    {fence : FenceSpan} {index : ℕ} (hmem : fence ∈ fenced.spans) (hinside : fence.Contains index)
    (hlt : start < index) (hle : fence.start ≤ start)
    (hlimit : 2 * fence.openLine.length + (closeLine fence).length + 4 ≤ limit) :
    Roomy fence start (contentLimit limit reopenFence) := by
  have hshort : (reopenPrefix reopenFence).length ≤ fence.openLine.length + 1 := by
    rcases eq_of_openAt hordered hopen hmem hinside hlt hle with rfl | rfl
    · exact Nat.zero_le _
    · exact List.length_append.le
  rw [Roomy, contentLimit]
  omega

theorem length_render_cut (hlt : start < cut.breakIdx) (hle : cut.breakIdx ≤ fenced.text.length) :
    (cutChunk fenced.text reopenFence start cut).length =
      (reopenPrefix reopenFence).length + (cut.breakIdx - start) +
        cut.fenceToSplit.elim 0 fun fence => (closeLine fence).length +
          if fenced.text[cut.breakIdx - 1]? = some NEWLINE then 0 else 1 := by
  rw [cutChunk]
  cases cut.fenceToSplit with
  | none =>
    show (reopenPrefix reopenFence ++ slice fenced.text start cut.breakIdx).length = _ + 0
    rw [List.length_append, length_slice hle, Nat.add_zero]
  | some fence =>
    show (closedChunk _ fence).length = _ + (_ + _)
    rw [length_closedChunk, getLast?_append_slice hlt hle, List.length_append, length_slice hle,
      Nat.add_assoc (_ + _)]

theorem fits_cut
    (hopen : OpenAt fenced.spans reopenFence start)
    (hcut : CutAt fenced.text fenced.spans start (contentLimit limit reopenFence) cut)
    (hbreak : cut = markdownBreak fenced.text fenced.spans start (contentLimit limit reopenFence))
    (hlt : start + contentLimit limit reopenFence < fenced.text.length)
    (hample : Ample fenced.spans limit) :
    (cutChunk fenced.text reopenFence start cut).length ≤ limit ∨
      ∃ fence, Late fenced limit ⟨reopenFence, ⟨start, cut.breakIdx⟩, cut.fenceToSplit⟩ fence := by
  obtain ⟨hlimit, hwide, hclose⟩ := length_reopenPrefix hopen hample
  have hlength := @length_render_cut fenced start reopenFence cut hcut.progress hcut.le_length
  have hprogress := hcut.progress
  have hle : cut.breakIdx ≤ start + contentLimit limit reopenFence := by
    apply hcut.le_limit.resolve_right
    omega
  cases hfence : cut.fenceToSplit with
  | none =>
    rw [hfence, Option.elim_none] at hlength
    left
    omega
  | some fence =>
    obtain ⟨hmem, hinside⟩ := of_searchFenceSpan (hcut.fence.symm.trans hfence)
    rw [hfence, Option.elim_some] at hlength
    by_cases hroomy : Roomy fence start (contentLimit limit reopenFence)
    · left
      have hroom : LeavesRoom fenced.text fence start (contentLimit limit reopenFence)
          cut.breakIdx := by
        rw [hbreak] at hfence ⊢
        exact leavesRoom_markdownBreak fenced.ordered hlt hfence hroomy (hclose fence hmem)
      rcases hroom with ⟨hnewline, hroom⟩ | hroom
      · rw [if_pos hnewline] at hlength
        omega
      · split_ifs at hlength
        · omega
        · omega
    · right
      refine ⟨fence, rfl, hroomy, fun hlimit' => ?_, ?_⟩
      · apply Nat.lt_of_not_le
        intro hle'
        exact hroomy (roomy_of_le fenced.ordered hopen hmem hinside hprogress hle' hlimit')
      · show (cutChunk _ _ _ ⟨cut.breakIdx, some fence⟩).length ≤ _
        rw [← hfence, hlength]
        split_ifs
        · omega
        · omega

theorem closed_piece (hordered : Ordered fenced.spans)
    (hopen : OpenAt fenced.spans reopenFence start) {stop : ℕ} {close : Option FenceSpan}
    (hlt : start < stop) (hclose : close = findFenceSpanAt fenced.spans stop) {fence : FenceSpan}
    (hmem : fence ∈ fenced.spans) (hopens : Piece.Opens ⟨reopenFence, ⟨start, stop⟩, close⟩ fence) :
    fence.stop ≤ stop ∨ close = some fence := by
  rcases Nat.lt_or_ge stop fence.stop with hbehind | hbefore
  · right
    rw [hclose]
    apply (findFenceSpanAt_eq_some hordered).mpr
    refine ⟨hmem, ?_, hbehind⟩
    rcases hopens with hreopen | ⟨-, hstart⟩
    · exact (hopen fence hreopen).2.1.trans hlt
    · exact hstart
  · exact .inl hbefore

/-- A fence that is cut is open where the text goes on. -/
theorem openAt_nextStart (hle : cut.breakIdx ≤ fenced.text.length)
    (hfence : cut.fenceToSplit = findFenceSpanAt fenced.spans cut.breakIdx) :
    OpenAt fenced.spans cut.fenceToSplit (nextStart fenced.text cut) := by
  intro fence hsplit
  obtain ⟨hmem, hstart, hstop⟩ := of_searchFenceSpan (hfence.symm.trans hsplit)
  have hnext : nextStart fenced.text cut ≤ cut.breakIdx + 1 := by
    rw [nextStart, if_pos (Option.isSome_iff_exists.mpr ⟨fence, hsplit⟩)]
    split_ifs
    · exact Nat.min_le_right _ _
    · exact (Nat.min_le_right _ _).trans (Nat.le_succ _)
  exact ⟨hmem, hstart.trans_le (le_nextStart hle), hnext.trans hstop⟩

theorem safe_nextStart (hsafe : splitsPair fenced.text cut.breakIdx = false)
    (hle : cut.breakIdx ≤ fenced.text.length)
    (hfence : cut.fenceToSplit = findFenceSpanAt fenced.spans cut.breakIdx) :
    splitsPair fenced.text (nextStart fenced.text cut) = false := by
  rcases Nat.eq_or_lt_of_le (le_nextStart hle) with hsame | hlt
  · rwa [← hsame]
  · apply BehindBlank.safe
    obtain ⟨hblank, -⟩ := between_nextStart hfence (nextStart fenced.text cut - 1)
      (by omega) (by omega)
    obtain ⟨c, hc, hspace⟩ := (Option.any_eq_true _ _).mp hblank
    exact ⟨by omega, c, hc, hspace⟩

theorem safe_length (text : Utf16) : splitsPair text text.length = false := by
  rw [Bool.eq_false_iff]
  intro hsplits
  exact Nat.lt_irrefl _ (lt_of_splitsPair hsplits)

theorem pieceOf_final (hopen : OpenAt fenced.spans reopenFence start)
    (hsafe : splitsPair fenced.text start = false) (hlt : start < fenced.text.length)
    (hfinal : Ample fenced.spans limit →
      (reopenPrefix reopenFence).length + (fenced.text.length - start) ≤ limit) :
    PieceOf fenced limit ⟨reopenFence, ⟨start, fenced.text.length⟩, none⟩ where
  safe := ⟨hsafe, safe_length _⟩
  close := (findFenceSpanAt_length fenced).symm
  closed _ hmem hopens :=
    closed_piece fenced.ordered hopen hlt (findFenceSpanAt_length fenced).symm hmem hopens
  fits hample := by
    left
    show (reopenPrefix reopenFence ++ slice fenced.text start fenced.text.length).length ≤ limit
    rw [List.length_append, length_slice (Nat.le_refl _)]
    exact hfinal hample

/-- Step by step, what holds of every piece. -/
theorem pieceOf_of_cuts {pieces : List Piece} (h : Cuts fenced limit reopenFence start pieces)
    (hopen : OpenAt fenced.spans reopenFence start)
    (hsafe : splitsPair fenced.text start = false) :
    ∀ piece ∈ pieces, PieceOf fenced limit piece := by
  induction h with
  | done => exact fun _ h => (List.not_mem_nil h).elim
  | final hstart hfinal =>
    intro piece hpiece
    obtain rfl := List.mem_singleton.mp hpiece
    apply pieceOf_final hopen hsafe hstart
    intro hample
    obtain ⟨hlimit, -⟩ := length_reopenPrefix hopen hample
    omega
  | @cut reopenFence start cut pieces hcut hsafe' hbreak hlt _ ih =>
    have hnext := openAt_nextStart hcut.le_length hcut.fence
    have hrest := ih hnext (safe_nextStart hsafe' hcut.le_length hcut.fence)
    refine List.forall_mem_cons.mpr ⟨?_, hrest⟩
    exact
      { safe := ⟨hsafe, hsafe'⟩
        close := hcut.fence
        closed := fun _ hmem hopens =>
          closed_piece fenced.ordered hopen hcut.progress hcut.fence hmem hopens
        fits := fits_cut hopen hcut hbreak hlt }

end PieceOf

/-- Chunks of a text: ranges in order, fences that are cut closed and opened again. -/
structure Chunked (fenced : FencedText) (limit : ℕ) (pieces : List Piece) : Prop where
  gaps : Gapped (Missing fenced pieces) 0 (pieces.map Piece.range) fenced.text.length
  first : ∀ piece ∈ pieces.head?, piece.reopen = none
  next : pieces.IsChain fun piece next => next.reopen = piece.close
  pieceOf : ∀ piece ∈ pieces, PieceOf fenced limit piece

section Whole

variable {fenced : FencedText} {limit : ℕ}

theorem safe_zero (text : Utf16) : splitsPair text 0 = false := by
  rw [Bool.eq_false_iff]
  intro hsplits
  obtain ⟨c, d, hc, hhigh, hd, hlow⟩ := splitsPair_iff.mp hsplits
  obtain rfl := Option.some.inj (hc.symm.trans hd)
  rw [low_of_high hhigh] at hlow
  cases hlow

theorem openAt_none (spans : List FenceSpan) (start : ℕ) : OpenAt spans none start :=
  fun _ hnone => (by cases hnone)

theorem chunked_of_cuts {pieces : List Piece} (h : Cuts fenced limit none 0 pieces) :
    Chunked fenced limit pieces where
  gaps := gapped_of_cuts h fun _ hpiece => hpiece
  first := (isChain_of_cuts h).1
  next := (isChain_of_cuts h).2
  pieceOf := pieceOf_of_cuts h (openAt_none _ _) (safe_zero _)

/-- A text that is one chunk. -/
theorem chunked_whole (hne : fenced.text ≠ [])
    (hfits : Ample fenced.spans limit → fenced.text.length ≤ limit) :
    Chunked fenced limit [⟨none, ⟨0, fenced.text.length⟩, none⟩] where
  gaps := ⟨Nat.le_refl _, Between.self _ _, List.length_pos_iff.mpr hne, Nat.le_refl _,
    Between.self _ _⟩
  first piece hpiece := by
    obtain rfl := Option.some.inj hpiece
    rfl
  next := .singleton _
  pieceOf piece hpiece := by
    obtain rfl := List.mem_singleton.mp hpiece
    apply pieceOf_final (openAt_none _ _) (safe_zero _) (List.length_pos_iff.mpr hne)
    intro hample
    show 0 + (fenced.text.length - 0) ≤ limit
    have := hfits hample
    omega

end Whole

/-- A limit of twice an opening line, with its closing line and four units, for every fence. -/
def TwiceOpening (spans : List FenceSpan) (limit : ℕ) : Prop :=
  1 < limit ∧ ∀ span ∈ spans, 2 * span.openLine.length + (closeLine span).length + 4 ≤ limit

instance (spans : List FenceSpan) (limit : ℕ) : Decidable (TwiceOpening spans limit) :=
  inferInstanceAs (Decidable (_ ∧ _))

theorem ample_of_twice (fenced : FencedText) {limit : ℕ} (h : TwiceOpening fenced.spans limit) :
    Ample fenced.spans limit := by
  refine ⟨h.1, fun opened hopened closed hclosed => ?_⟩
  have := h.2 opened hopened
  have := h.2 closed hclosed
  have hshort : (closeLine closed).length ≤ closed.openLine.length := by
    obtain ⟨trailing, hmarks⟩ := (fenced.spanOf closed hclosed).opens.marks
    rw [closeLine, ← hmarks.split, ← List.append_assoc]
    exact (List.prefix_append _ _).length_le
  omega

/-- The chunks of a text are pieces of it: nothing but blanks is missing, a fence that is cut is
closed and opened again, and a chunk is over its limit only where a fence starts late in it. -/
theorem chunkMarkdownText_pieces (text : Utf16) (limit : ℕ) :
    (∃ pieces, chunkMarkdownText text limit = pieces.map (Piece.render text) ∧
      Chunked (FencedText.parse text) limit pieces) ∧
    (TwiceOpening (parseFenceSpans text) limit → Ample (parseFenceSpans text) limit) := by
  refine ⟨?_, ample_of_twice (FencedText.parse text)⟩
  rw [chunkMarkdownText]
  split_ifs with hempty hzero hshort
  · subst hempty
    exact ⟨[], rfl, chunked_of_cuts (.done rfl)⟩
  · refine ⟨[_], ?_, chunked_whole hempty fun hample => absurd hample.1 (by omega)⟩
    exact congrArg (fun chunk => [chunk]) (slice_zero_length text).symm
  · refine ⟨[_], ?_, chunked_whole hempty fun _ => hshort⟩
    exact congrArg (fun chunk => [chunk]) (slice_zero_length text).symm
  · obtain ⟨pieces, hpieces, hchunks⟩ := @exists_cuts (FencedText.parse text) limit none 0
      (Nat.zero_le _)
    exact ⟨pieces, hchunks, chunked_of_cuts hpieces⟩

/-- The parenthesis leaves no soft break, and the fence starts too late to be cut inside. -/
theorem chunkMarkdownText_over_limit :
    ¬∀ (text : Utf16) (limit : ℕ), TwiceOpening (parseFenceSpans text) limit →
      ∀ chunk ∈ chunkMarkdownText text limit, chunk.length ≤ limit := by
  intro hfits
  have hlate := hfits (ofString "(aaaaaaa\n```\nbcdef\n```") 13
  revert hlate
  decide +kernel

end Flashclaw.AutoReply
