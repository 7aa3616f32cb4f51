import Flashclaw.MarkdownCore.ChunkText
import Flashclaw.MarkdownCore.FenceText

/-!
# Chunks of an outbound Markdown text

`chunkMarkdownText` of `src/auto-reply/chunk.ts`: chunks up to a limit, where a fence that is cut
is closed, and opened again in the next chunk.
-/

namespace Flashclaw.AutoReply

open Utf16 Ranges MarkdownCore

def skipLeadingNewlines (value : Utf16) (start : ℕ) : ℕ :=
  skipWhile (fun c => c = NEWLINE) value start

def pickSafeBreakIndex (text : Utf16) (start stop : ℕ) (spans : List FenceSpan) : Option ℕ :=
  let points := scanParenAwareBreakpoints (isSafeFenceBreak spans) text start stop
  (points.lastNewline.filter (start < ·)).or (points.lastWhitespace.filter (start < ·))

/-- The line that closes a fence. -/
def closeLine (fence : FenceSpan) : Utf16 := fence.indent ++ fence.marker

/-- The break behind the last newline in a fence that leaves room, from `upTo` down. Behind the
first unit of a text there is no opening line, so that the search does not start over. -/
def pickNewline (text : Utf16) (spans : List FenceSpan) (fence : FenceSpan)
    (start minProgressIdx upTo : ℕ) : Option ℕ :=
  match _hfound : lastIndexOf text NEWLINE upTo with
  | none => none
  | some lastNewline =>
    if lastNewline < start then none
    else if lastNewline + 1 < minProgressIdx then none
    else if (findFenceSpanAt spans (lastNewline + 1)).any fun candidate =>
        candidate.start = fence.start then some (lastNewline + 1)
    else if _hzero : lastNewline = 0 then none
    else pickNewline text spans fence start minProgressIdx (lastNewline - 1)
termination_by upTo
decreasing_by
  have := (of_lastIndexOf _hfound).1
  omega

/-- The break in a fence, which leaves room for the line that closes it where there is some. -/
def fenceBreak (text : Utf16) (spans : List FenceSpan) (fence : FenceSpan)
    (start contentLimit windowEnd : ℕ) : ℕ :=
  let maxIdxIfNeedNewline := start + (contentLimit - ((closeLine fence).length + 1))
  if maxIdxIfNeedNewline ≤ start then windowEnd
  else
    let minProgressIdx :=
      min text.length (max (start + 1) (fence.start + fence.openLine.length + 2))
    let maxIdxIfAlreadyNewline := start + (contentLimit - (closeLine fence).length)
    match pickNewline text spans fence start minProgressIdx
        (max start (maxIdxIfAlreadyNewline - 1)) with
    | some candidateBreak => candidateBreak
    | none =>
      if maxIdxIfAlreadyNewline < minProgressIdx then windowEnd
      else max minProgressIdx maxIdxIfNeedNewline

/-- The fence at a position, where it is a given one. -/
def sameFenceAt (spans : List FenceSpan) (index : ℕ) (fence : FenceSpan) : Option FenceSpan :=
  (findFenceSpanAt spans index).filter fun fenceAtBreak => fenceAtBreak.start = fence.start

structure MarkdownBreak where
  breakIdx : ℕ
  fenceToSplit : Option FenceSpan
deriving DecidableEq

/-- The break before it is moved out of a pair of surrogates. -/
def rawBreak (text : Utf16) (spans : List FenceSpan) (start contentLimit : ℕ) : MarkdownBreak :=
  let windowEnd := min text.length (start + contentLimit)
  let breakIdx := (pickSafeBreakIndex text start windowEnd spans).getD windowEnd
  match findFenceSpanAt spans breakIdx with
  | none => ⟨breakIdx, none⟩
  | some initialFence =>
    let breakIdx := fenceBreak text spans initialFence start contentLimit windowEnd
    ⟨breakIdx, sameFenceAt spans breakIdx initialFence⟩

def markdownBreak (text : Utf16) (spans : List FenceSpan) (start contentLimit : ℕ) :
    MarkdownBreak :=
  let raw := rawBreak text spans start contentLimit
  let safeBreakIdx := avoidTrailingHighSurrogateBreak text start raw.breakIdx
  if safeBreakIdx ≠ raw.breakIdx then
    ⟨safeBreakIdx, raw.fenceToSplit.bind (sameFenceAt spans safeBreakIdx)⟩
  else raw

/-- The line that opens a fence again, with its end. -/
def reopenPrefix (reopenFence : Option FenceSpan) : Utf16 :=
  reopenFence.elim [] fun fence => fence.openLine ++ [NEWLINE]

def contentLimit (limit : ℕ) (reopenFence : Option FenceSpan) : ℕ :=
  max 1 (limit - (reopenPrefix reopenFence).length)

/-- A chunk that is cut in a fence, with the line that closes it. -/
def closedChunk (chunk : Utf16) (fence : FenceSpan) : Utf16 :=
  if chunk.getLast? = some NEWLINE then chunk ++ closeLine fence
  else chunk ++ NEWLINE :: closeLine fence

/-- Where the text goes on behind a break. -/
def nextStart (text : Utf16) (cut : MarkdownBreak) : ℕ :=
  let brokeOnSeparator := cut.breakIdx < text.length && text[cut.breakIdx]?.any isWhiteSpace
  let next := min text.length (cut.breakIdx + if brokeOnSeparator then 1 else 0)
  if cut.fenceToSplit.isSome then next else skipLeadingNewlines text next

section Break

variable {text : Utf16} {spans : List FenceSpan} {start : ℕ}

theorem of_pickSafeBreakIndex {stop index : ℕ}
    (h : pickSafeBreakIndex text start stop spans = some index) :
    start < index ∧ index < stop ∧ findFenceSpanAt spans index = none := by
  have hpoints := pointsAt_scanParenAwareBreakpoints (isSafeFenceBreak spans) text start stop
  rw [pickSafeBreakIndex, Option.or_eq_some_iff] at h
  have hfound : start < index ∧ BreaksAt (isSafeFenceBreak spans) text start stop index := by
    rcases h with h | ⟨-, h⟩
    · obtain ⟨hindex, hlt⟩ := Option.filter_eq_some_iff.mp h
      exact ⟨of_decide_eq_true hlt, hpoints.1 index hindex⟩
    · obtain ⟨hindex, hlt⟩ := Option.filter_eq_some_iff.mp h
      exact ⟨of_decide_eq_true hlt, hpoints.2 index hindex⟩
  exact ⟨hfound.1, hfound.2.lt_stop, Option.isNone_iff_eq_none.mp hfound.2.allowed⟩

theorem of_pickNewline {fence : FenceSpan} {minProgressIdx upTo index : ℕ}
    (h : pickNewline text spans fence start minProgressIdx upTo = some index) :
    start < index ∧ index ≤ upTo + 1 ∧ text[index - 1]? = some NEWLINE ∧
      ∃ candidate, findFenceSpanAt spans index = some candidate ∧
        candidate.start = fence.start := by
  induction upTo using pickNewline.induct text spans fence start minProgressIdx with
  | case1 upTo hfound =>
    rw [pickNewline, hfound] at h
    cases h
  | case2 upTo lastNewline hfound hlt =>
    rw [pickNewline, hfound] at h
    dsimp only at h
    rw [if_pos hlt] at h
    cases h
  | case3 upTo lastNewline hfound hlt hprogress =>
    rw [pickNewline, hfound] at h
    dsimp only at h
    rw [if_neg hlt, if_pos hprogress] at h
    cases h
  | case4 upTo lastNewline hfound hlt hprogress hsame =>
    rw [pickNewline, hfound] at h
    dsimp only at h
    rw [if_neg hlt, if_neg hprogress, if_pos hsame] at h
    obtain rfl := Option.some.inj h
    obtain ⟨hle, hnewline⟩ := of_lastIndexOf hfound
    obtain ⟨candidate, hcandidate, hstart⟩ := (Option.any_eq_true _ _).mp hsame
    exact ⟨by omega, by omega, hnewline, candidate, hcandidate, of_decide_eq_true hstart⟩
  | case5 upTo hfound hlt hprogress hsame =>
    rw [pickNewline, hfound] at h
    dsimp only at h
    rw [if_neg hlt, if_neg hprogress, if_neg hsame] at h
    cases h
  | case6 upTo lastNewline hfound hlt hprogress hsame hzero ih =>
    rw [pickNewline, hfound] at h
    dsimp only at h
    rw [if_neg hlt, if_neg hprogress, if_neg hsame, dif_neg hzero] at h
    obtain ⟨hstart, hle, hrest⟩ := ih h
    have := (of_lastIndexOf hfound).1
    exact ⟨hstart, by omega, hrest⟩

/-- A fence that contains the end of a window is cut inside. -/
theorem fenceBreak_inside {fence : FenceSpan} {contentLimit : ℕ} (hordered : Ordered spans)
    (hfence : fence ∈ spans) (hpos : 0 < contentLimit) (hlt : start + contentLimit < text.length)
    (hinside : fence.Contains (start + contentLimit)) :
    start < fenceBreak text spans fence start contentLimit (start + contentLimit) ∧
      fenceBreak text spans fence start contentLimit (start + contentLimit) ≤
        start + contentLimit ∧
      fence.Contains (fenceBreak text spans fence start contentLimit (start + contentLimit)) := by
  obtain ⟨hstart, hstop⟩ := hinside
  have hwindow : start < start + contentLimit ∧ start + contentLimit ≤ start + contentLimit ∧
      fence.Contains (start + contentLimit) := ⟨by omega, Nat.le_refl _, hstart, hstop⟩
  rw [fenceBreak]
  by_cases hroom : start + (contentLimit - ((closeLine fence).length + 1)) ≤ start
  · rw [if_pos hroom]
    exact hwindow
  rw [if_neg hroom]
  dsimp only
  cases hpick : pickNewline text spans fence start
      (min text.length (max (start + 1) (fence.start + fence.openLine.length + 2)))
      (max start (start + (contentLimit - (closeLine fence).length) - 1)) with
  | some index =>
    obtain ⟨hlt', hle, -, candidate, hcandidate, hsame⟩ := of_pickNewline hpick
    obtain ⟨hmem, hcontains⟩ := of_searchFenceSpan hcandidate
    obtain rfl := hordered.eq_of_start hmem hfence hsame
    refine ⟨hlt', ?_, hcontains⟩
    show index ≤ start + contentLimit
    omega
  | none =>
    dsimp only
    split_ifs with hprogress
    · exact hwindow
    · exact ⟨by omega, by omega, by omega, by omega⟩

theorem sameFenceAt_self (hordered : Ordered spans) {fence : FenceSpan} (hmem : fence ∈ spans)
    {index : ℕ} (hinside : fence.Contains index) : sameFenceAt spans index fence = some fence := by
  rw [sameFenceAt, (findFenceSpanAt_eq_some hordered).mpr ⟨hmem, hinside⟩, Option.filter_some,
    if_pos (decide_eq_true rfl)]

/-- Where a window is cut, and whether in a fence. -/
structure CutAt (text : Utf16) (spans : List FenceSpan) (start contentLimit : ℕ)
    (cut : MarkdownBreak) : Prop where
  progress : start < cut.breakIdx
  le_length : cut.breakIdx ≤ text.length
  le_limit : cut.breakIdx ≤ start + contentLimit ∨
    contentLimit = 1 ∧ cut.breakIdx = start + 2
  fence : cut.fenceToSplit = findFenceSpanAt spans cut.breakIdx

theorem cutAt_rawBreak {contentLimit : ℕ} (hordered : Ordered spans) (hpos : 0 < contentLimit)
    (hlt : start + contentLimit < text.length) :
    CutAt text spans start contentLimit (rawBreak text spans start contentLimit) := by
  have hwindow : min text.length (start + contentLimit) = start + contentLimit := by omega
  rw [rawBreak, hwindow]
  cases hsoft : pickSafeBreakIndex text start (start + contentLimit) spans with
  | some index =>
    obtain ⟨hprogress, hbound, hsafe⟩ := of_pickSafeBreakIndex hsoft
    rw [Option.getD_some, hsafe]
    exact ⟨hprogress, by dsimp only; omega, .inl hbound.le, hsafe.symm⟩
  | none =>
    rw [Option.getD_none]
    cases hfind : findFenceSpanAt spans (start + contentLimit) with
    | none =>
      exact ⟨by dsimp only; omega, hlt.le, .inl (Nat.le_refl _), hfind.symm⟩
    | some fence =>
      obtain ⟨hmem, hinside⟩ := of_searchFenceSpan hfind
      obtain ⟨hprogress, hbound, hcontains⟩ := fenceBreak_inside hordered hmem hpos hlt hinside
      refine ⟨hprogress, hbound.trans hlt.le, .inl hbound, ?_⟩
      show sameFenceAt spans _ fence = _
      rw [sameFenceAt_self hordered hmem hcontains]
      exact ((findFenceSpanAt_eq_some hordered).mpr ⟨hmem, hcontains⟩).symm

/-- A pair of surrogates is either inside of a fence or outside. -/
theorem contains_of_near (hspans : ∀ span ∈ spans, SpanOf text span) {index near : ℕ}
    (hsplits : splitsPair text index = true) (hnear : near = index - 1 ∨ near = index + 1)
    (hpos : 0 < index) {span : FenceSpan} (hmem : span ∈ spans) (hinside : span.Contains near) :
    span.Contains index := by
  obtain ⟨hstart, hstop⟩ := hinside
  obtain ⟨hsafeStart, -, hsafeStop⟩ := (hspans span hmem).safe
  have hne : index ≠ span.start := by
    rintro rfl
    rw [hsafeStart] at hsplits
    cases hsplits
  have hne' : index ≠ span.stop := by
    rintro rfl
    rw [hsafeStop] at hsplits
    cases hsplits
  exact ⟨by omega, by omega⟩

theorem cutAt_markdownBreak {contentLimit : ℕ} (hordered : Ordered spans)
    (hspans : ∀ span ∈ spans, SpanOf text span) (hpos : 0 < contentLimit)
    (hlt : start + contentLimit < text.length) :
    CutAt text spans start contentLimit (markdownBreak text spans start contentLimit) ∧
      splitsPair text (markdownBreak text spans start contentLimit).breakIdx = false := by
  have hraw := @cutAt_rawBreak text spans start contentLimit hordered hpos hlt
  rw [markdownBreak]
  generalize rawBreak text spans start contentLimit = raw at hraw ⊢
  have hprogress := hraw.progress
  cases hsplits : splitsPair text raw.breakIdx with
  | false =>
    rw [avoid_of_not_splits hsplits, if_neg (fun h => h rfl)]
    exact ⟨hraw, hsplits⟩
  | true =>
    have havoided := avoided hprogress hraw.le_length
    have hnear := avoid_of_splits hprogress hsplits
    generalize hresult : avoidTrailingHighSurrogateBreak text start raw.breakIdx = result
      at havoided hnear ⊢
    have hcases : (result = raw.breakIdx - 1 ∧ start < raw.breakIdx - 1) ∨
        (result = raw.breakIdx + 1 ∧ ¬start < raw.breakIdx - 1) := by
      by_cases hroom : start < raw.breakIdx - 1
      · exact .inl ⟨hnear.trans (if_pos hroom), hroom⟩
      · exact .inr ⟨hnear.trans (if_neg hroom), hroom⟩
    have hne : result ≠ raw.breakIdx := by omega
    rw [if_pos hne]
    refine ⟨⟨havoided.progress, havoided.le_length, ?_, ?_⟩, havoided.safe⟩
    · have := hraw.le_limit
      show result ≤ start + contentLimit ∨ contentLimit = 1 ∧ result = start + 2
      omega
    · show raw.fenceToSplit.bind (sameFenceAt spans result) = findFenceSpanAt spans result
      rw [hraw.fence]
      cases hfind : findFenceSpanAt spans result with
      | some fence =>
        obtain ⟨hmem, hinside⟩ := of_searchFenceSpan hfind
        have hbefore := contains_of_near hspans hsplits (hcases.imp And.left And.left) (by omega)
          hmem hinside
        rw [(findFenceSpanAt_eq_some hordered).mpr ⟨hmem, hbefore⟩, Option.bind_some,
          sameFenceAt_self hordered hmem hinside]
      | none =>
        rw [Option.bind_eq_none_iff]
        intro fence _
        rw [sameFenceAt, hfind, Option.filter_none]

end Break

theorem le_nextStart {text : Utf16} {cut : MarkdownBreak} (h : cut.breakIdx ≤ text.length) :
    cut.breakIdx ≤ nextStart text cut := by
  rw [nextStart]
  split
  · exact Nat.le_min.mpr ⟨h, Nat.le_add_right _ _⟩
  · exact (Nat.le_min.mpr ⟨h, Nat.le_add_right _ _⟩).trans (le_skipWhile _ _ _)

/-- The chunk in front of a cut. -/
def cutChunk (text : Utf16) (reopenFence : Option FenceSpan) (start : ℕ) (cut : MarkdownBreak) :
    Utf16 :=
  let rawChunk := reopenPrefix reopenFence ++ slice text start cut.breakIdx
  cut.fenceToSplit.elim rawChunk (closedChunk rawChunk)

/-- The loop of `chunkMarkdownText`. -/
def markdownChunksFrom (fenced : FencedText) (limit : ℕ) (reopenFence : Option FenceSpan)
    (start : ℕ) : List Utf16 :=
  if _hstart : start < fenced.text.length then
    if _hfinal : fenced.text.length - start ≤ contentLimit limit reopenFence then
      let finalChunk := reopenPrefix reopenFence ++ fenced.text.drop start
      if 0 < finalChunk.length then [finalChunk] else []
    else
      let cut := markdownBreak fenced.text fenced.spans start (contentLimit limit reopenFence)
      if slice fenced.text start cut.breakIdx = [] then []
      else
        cutChunk fenced.text reopenFence start cut ::
          markdownChunksFrom fenced limit cut.fenceToSplit (nextStart fenced.text cut)
  else []
termination_by fenced.text.length - start
decreasing_by
  obtain ⟨hcut, -⟩ := @cutAt_markdownBreak fenced.text fenced.spans start
    (contentLimit limit reopenFence) fenced.ordered fenced.spanOf (Nat.le_max_left 1 _) (by omega)
  have := hcut.progress
  have := le_nextStart hcut.le_length
  omega

def chunkMarkdownText (text : Utf16) (limit : ℕ) : List Utf16 :=
  if text = [] then []
  else if limit = 0 then [text]
  else if text.length ≤ limit then [text]
  else markdownChunksFrom (FencedText.parse text) limit none 0

end Flashclaw.AutoReply
