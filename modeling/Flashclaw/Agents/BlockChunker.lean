import Flashclaw.MarkdownCore.ChunkText
import Flashclaw.MarkdownCore.FenceText

/-!
# Chunks of a streamed reply

`EmbeddedBlockChunker` of `src/agents/embedded-agent-block-chunker.ts`: the text of a reply comes in
parts, and a drain of the buffer emits chunks of it. A fence that is split is closed, and opened
again in the next chunk or in the buffer.
-/

namespace Flashclaw.Agents

open Utf16 Ranges MarkdownCore

inductive BreakPreference where
  | paragraph
  | newline
  | sentence
deriving DecidableEq

structure BlockReplyChunking where
  minChars : ℤ
  maxChars : ℤ
  breakPreference : Option BreakPreference
  flushOnParagraph : Bool

/-- A match of `/[.!?](?=\s|$)/` at a position. -/
def endsSentence (text : Utf16) (position : ℕ) : Bool :=
  text[position]?.any (fun c => c = unit '.' || c = unit '!' || c = unit '?') &&
    text[position + 1]?.all isWhiteSpace

def findSafeSentenceBreakIndex (text : Utf16) (fenceSpans : List FenceSpan) (minChars offset : ℕ) :
    Option ℕ :=
  ((List.range text.length).filter (endsSentence text)).foldl (fun sentenceIdx position =>
    if position < minChars then sentenceIdx
    else if isSafeFenceBreak fenceSpans (offset + (position + 1)) then some (position + 1)
    else sentenceIdx) none

def isParagraphAt (text : Utf16) (index : ℕ) : Bool :=
  text[index]? = some NEWLINE && text[index + 1]? = some NEWLINE

/-- The places of `"\n\n"` from a position on, none of which overlaps the one before. -/
def paragraphsFrom (text : Utf16) (index : ℕ) : List ℕ :=
  if index < text.length then
    if isParagraphAt text index then index :: paragraphsFrom text (index + 2)
    else paragraphsFrom text (index + 1)
  else []
termination_by text.length - index

def findSafeParagraphBreakIndex (text : Utf16) (fenceSpans : List FenceSpan) (minChars : ℕ)
    (reverse : Bool) (offset : ℕ) : Option ℕ :=
  let paragraphs :=
    if reverse then
      ((List.range text.length).filter (isParagraphAt text)).reverse.takeWhile (minChars ≤ ·)
    else paragraphsFrom text 0
  paragraphs.findSome? fun paragraphIdx =>
    [paragraphIdx, paragraphIdx + 1].find? fun candidate =>
      minChars ≤ candidate && candidate < text.length &&
        isSafeFenceBreak fenceSpans (offset + candidate)

def findSafeNewlineBreakIndex (text : Utf16) (fenceSpans : List FenceSpan) (minChars : ℕ)
    (reverse : Bool) (offset : ℕ) : Option ℕ :=
  let newlines := (List.range text.length).filter fun index => text[index]? = some NEWLINE
  (if reverse then newlines.reverse else newlines).find? fun newlineIdx =>
    minChars ≤ newlineIdx && isSafeFenceBreak fenceSpans (offset + newlineIdx)

def findFenceCloseLineStart (buffer : Utf16) (fence : FenceSpan) (offset : ℕ) : Option ℕ :=
  let relativeFenceEnd := min buffer.length (fence.stop - offset)
  if relativeFenceEnd = 0 then none
  else (lastIndexOf buffer NEWLINE (relativeFenceEnd - 1)).map (· + 1)

structure ParagraphBreak where
  index : ℕ
  length : ℕ
deriving DecidableEq

/-- The loop over the matches of `/\n[\t ]*\n+/g`. -/
def findNextParagraphBreak (buffer : Utf16) (fenceSpans : List FenceSpan)
    (startIndex minCharsFromStart lastIndex : ℕ) : Option ParagraphBreak :=
  if _hindex : lastIndex < buffer.length then
    match _hmatch : matchParagraphBreak (buffer.drop lastIndex) with
    | none => findNextParagraphBreak buffer fenceSpans startIndex minCharsFromStart (lastIndex + 1)
    | some length =>
      if startIndex + minCharsFromStart ≤ lastIndex ∧ isSafeFenceBreak fenceSpans lastIndex then
        some ⟨lastIndex, length⟩
      else
        findNextParagraphBreak buffer fenceSpans startIndex minCharsFromStart (lastIndex + length)
  else none
termination_by buffer.length - lastIndex
decreasing_by
  · omega
  · have := (of_matchParagraphBreak _hmatch).1
    omega

/-- Where a chunk ends, and the fence that is split there. -/
structure BreakResult where
  index : ℕ
  fenceSplit : Option FenceSpan
deriving DecidableEq

/-- The breaks that are preferred, best first. -/
def preferredBreakIndex (preference : BreakPreference) (text : Utf16) (fenceSpans : List FenceSpan)
    (minChars : ℕ) (reverse : Bool) (offset : ℕ) : Option ℕ :=
  ((if preference = .paragraph then
      findSafeParagraphBreakIndex text fenceSpans minChars reverse offset
    else none).or
    (if preference = .paragraph ∨ preference = .newline then
      findSafeNewlineBreakIndex text fenceSpans minChars reverse offset
    else none)).or
    (if preference ≠ .newline then findSafeSentenceBreakIndex text fenceSpans minChars offset
    else none)

def pickSoftBreakIndex (chunking : BlockReplyChunking) (buffer : Utf16)
    (fenceSpans : List FenceSpan) (minCharsOverride : Option ℤ) (offset : ℕ) : Option ℕ :=
  let minChars := (max 1 (minCharsOverride.getD chunking.minChars)).toNat
  if buffer.length < minChars then none
  else
    let preference := chunking.breakPreference.getD .paragraph
    preferredBreakIndex preference buffer fenceSpans minChars false offset

/-- The break at the limit, or in front of the last line of a fence. -/
def forcedBreak (buffer : Utf16) (fenceSpans : List FenceSpan) (minChars maxChars offset : ℕ) :
    BreakResult :=
  let firstCodePointWidth := if splitsPair buffer 1 then 2 else 1
  let forcedBreakIndex := (truncateUtf16Safe buffer (max maxChars firstCodePointWidth)).length
  match findFenceSpanAt fenceSpans (offset + forcedBreakIndex) with
  | none => ⟨forcedBreakIndex, none⟩
  | some fence =>
    match (findFenceCloseLineStart buffer fence offset).filter fun closeFenceStart =>
        minChars ≤ closeFenceStart && closeFenceStart < forcedBreakIndex with
    | some closeFenceStart => ⟨closeFenceStart, some fence⟩
    | none => ⟨forcedBreakIndex, some fence⟩

def pickBreakIndex (chunking : BlockReplyChunking) (buffer : Utf16) (fenceSpans : List FenceSpan)
    (minCharsOverride : Option ℤ) (offset : ℕ) : Option BreakResult :=
  let minChars := (max 1 (minCharsOverride.getD chunking.minChars)).toNat
  let maxChars := max minChars chunking.maxChars.toNat
  if buffer.length < minChars then none
  else
    let window := buffer.take maxChars
    let preference := chunking.breakPreference.getD .paragraph
    match preferredBreakIndex preference window fenceSpans minChars true offset with
    | some index => some ⟨index, none⟩
    | none =>
      if preference = .newline ∧ buffer.length < maxChars then none
      else
        match (List.range window.length).reverse.find? fun i => minChars ≤ i &&
            window[i]?.any isWhiteSpace && isSafeFenceBreak fenceSpans (offset + i) with
        | some index => some ⟨index, none⟩
        | none =>
          if maxChars ≤ buffer.length then
            some (forcedBreak buffer fenceSpans minChars maxChars offset)
          else none

def skipLeadingNewlines (value : Utf16) (start : ℕ) : ℕ :=
  skipWhile (fun c => c = NEWLINE) value start

/-- The line that opens a fence again, with its end. -/
def reopenPrefix (reopenFence : Option FenceSpan) : Utf16 :=
  reopenFence.elim [] fun fence => fence.openLine ++ [NEWLINE]

def closeFenceLine (fence : FenceSpan) : Utf16 := fence.indent ++ fence.marker

/-- A chunk that is split in a fence, with the line that closes it. -/
def closedChunk (rawChunk : Utf16) (fence : FenceSpan) : Utf16 :=
  if rawChunk.getLast? = some NEWLINE then rawChunk ++ (closeFenceLine fence ++ [NEWLINE])
  else rawChunk ++ NEWLINE :: (closeFenceLine fence ++ [NEWLINE])

/-- What a round emits, where the next one starts, and whether there is one. -/
structure Consumed where
  chunk : Option Utf16
  start : ℕ
  reopenFence : Option FenceSpan
  goesOn : Bool

/-- A chunk that is not blank. -/
def emitted (chunk : Utf16) : Option Utf16 := if trim chunk = [] then none else some chunk

def emitBreakResult (source : Utf16) (reopenFence : Option FenceSpan) (start : ℕ)
    (breakResult : BreakResult) : Consumed :=
  let absoluteBreakIdx := start + breakResult.index
  let rawChunk := reopenPrefix reopenFence ++ slice source start absoluteBreakIdx
  if trim rawChunk = [] then ⟨none, skipLeadingNewlines source absoluteBreakIdx, none, true⟩
  else
    match breakResult.fenceSplit with
    | some fence => ⟨some (closedChunk rawChunk fence), absoluteBreakIdx, some fence, true⟩
    | none =>
      let nextStart :=
        if source[absoluteBreakIdx]?.any isWhiteSpace then absoluteBreakIdx + 1
        else absoluteBreakIdx
      ⟨some rawChunk, skipLeadingNewlines source nextStart, none, true⟩

def BlockReplyChunking.least (chunking : BlockReplyChunking) : ℕ := (max 1 chunking.minChars).toNat

def BlockReplyChunking.most (chunking : BlockReplyChunking) : ℕ :=
  max chunking.least chunking.maxChars.toNat

/-- The end of a paragraph, where paragraphs are flushed. -/
def flushedParagraph (chunking : BlockReplyChunking) (source : Utf16) (fenceSpans : List FenceSpan)
    (reopenFence : Option FenceSpan) (start : ℕ) : Option Consumed :=
  let paragraphLimit := max 1 (chunking.most - (reopenPrefix reopenFence).length)
  ((findNextParagraphBreak source fenceSpans start chunking.least start).filter
    fun paragraphBreak => paragraphBreak.index - start ≤ paragraphLimit).map fun paragraphBreak =>
      ⟨emitted (reopenPrefix reopenFence ++ slice source start paragraphBreak.index),
        skipLeadingNewlines source (paragraphBreak.index + paragraphBreak.length), none, true⟩

/-- The end of a chunk by its size. -/
def sizedBreak (chunking : BlockReplyChunking) (force : Bool) (source : Utf16)
    (fenceSpans : List FenceSpan) (reopenFence : Option FenceSpan) (start : ℕ) : Option Consumed :=
  let remainingLength := (reopenPrefix reopenFence).length + (source.length - start)
  let view := source.drop start
  let breakResult :=
    if force ∧ remainingLength ≤ chunking.most then
      (pickSoftBreakIndex chunking view fenceSpans (some 1) start).map (⟨·, none⟩)
    else pickBreakIndex chunking view fenceSpans (if force then some 1 else none) start
  match breakResult with
  | none =>
    if force then
      some ⟨some (reopenPrefix reopenFence ++ source.drop start), source.length, none, false⟩
    else none
  | some breakResult =>
    let consumed := emitBreakResult source reopenFence start breakResult
    let nextLength := (reopenPrefix consumed.reopenFence).length + (source.length - consumed.start)
    let goesOn := force || (chunking.least ≤ nextLength &&
      (chunking.flushOnParagraph || chunking.most ≤ nextLength))
    some { consumed with goesOn := goesOn }

/-- A round of the loop of `drain`; no result is where it stops with nothing consumed. -/
def drainRound (chunking : BlockReplyChunking) (force : Bool) (source : Utf16)
    (fenceSpans : List FenceSpan) (reopenFence : Option FenceSpan) (start : ℕ) : Option Consumed :=
  let remainingLength := (reopenPrefix reopenFence).length + (source.length - start)
  if !force && remainingLength < chunking.least then none
  else if chunking.flushOnParagraph && !force then
    match flushedParagraph chunking source fenceSpans reopenFence start with
    | some consumed => some consumed
    | none =>
      if remainingLength < chunking.most then none
      else sizedBreak chunking force source fenceSpans reopenFence start
  else sizedBreak chunking force source fenceSpans reopenFence start

/-- A safe break of a part of a text that starts at an offset. -/
structure SafeBreak (text : Utf16) (fenceSpans : List FenceSpan) (minChars offset index : ℕ) :
    Prop where
  progress : minChars ≤ index
  le_length : index ≤ text.length
  safe : findFenceSpanAt fenceSpans (offset + index) = none

section SafeBreak

variable {text : Utf16} {fenceSpans : List FenceSpan} {minChars offset index : ℕ} {reverse : Bool}

theorem safe_iff : isSafeFenceBreak fenceSpans index = true ↔
    findFenceSpanAt fenceSpans index = none := Option.isNone_iff_eq_none

theorem safeBreak_sentence
    (h : findSafeSentenceBreakIndex text fenceSpans minChars offset = some index) :
    SafeBreak text fenceSpans minChars offset index := by
  have hpositions : ∀ position ∈ (List.range text.length).filter (endsSentence text),
      position < text.length :=
    fun position hmem => List.mem_range.mp (List.mem_of_mem_filter hmem)
  rw [findSafeSentenceBreakIndex] at h
  generalize (List.range text.length).filter (endsSentence text) = positions at h hpositions
  -- the break that is held so far is safe
  suffices hfold : ∀ sentenceIdx : Option ℕ,
      (∀ i, sentenceIdx = some i → SafeBreak text fenceSpans minChars offset i) →
      ∀ i, positions.foldl (fun sentenceIdx position =>
        if position < minChars then sentenceIdx
        else if isSafeFenceBreak fenceSpans (offset + (position + 1)) then some (position + 1)
        else sentenceIdx) sentenceIdx = some i → SafeBreak text fenceSpans minChars offset i from
    hfold none (fun _ hnone => by cases hnone) index h
  clear h
  induction positions with
  | nil => exact fun _ hheld => hheld
  | cons position positions ih =>
    obtain ⟨hlt, hrest⟩ := List.forall_mem_cons.mp hpositions
    intro sentenceIdx hheld
    apply ih hrest
    intro i hi
    dsimp only at hi
    split_ifs at hi with hprogress hsafe
    · exact hheld i hi
    · obtain rfl := Option.some.inj hi
      exact ⟨by omega, hlt, safe_iff.mp hsafe⟩
    · exact hheld i hi

theorem safeBreak_paragraph
    (h : findSafeParagraphBreakIndex text fenceSpans minChars reverse offset = some index) :
    SafeBreak text fenceSpans minChars offset index := by
  obtain ⟨paragraphIdx, -, hfind⟩ := List.exists_of_findSome?_eq_some h
  have hfound := List.find?_some hfind
  rw [Bool.and_eq_true, Bool.and_eq_true, decide_eq_true_eq, decide_eq_true_eq] at hfound
  exact ⟨hfound.1.1, hfound.1.2.le, safe_iff.mp hfound.2⟩

theorem safeBreak_newline
    (h : findSafeNewlineBreakIndex text fenceSpans minChars reverse offset = some index) :
    SafeBreak text fenceSpans minChars offset index := by
  have hfound := List.find?_some h
  rw [Bool.and_eq_true, decide_eq_true_eq] at hfound
  have hmem := List.mem_of_find?_eq_some h
  have hlt : index < text.length := by
    apply List.mem_range.mp
    cases reverse with
    | true => exact List.mem_of_mem_filter (List.mem_reverse.mp hmem)
    | false => exact List.mem_of_mem_filter hmem
  exact ⟨hfound.1, hlt.le, safe_iff.mp hfound.2⟩

theorem safeBreak_preferred {preference : BreakPreference}
    (h : preferredBreakIndex preference text fenceSpans minChars reverse offset = some index) :
    SafeBreak text fenceSpans minChars offset index := by
  rw [preferredBreakIndex, Option.or_eq_some_iff, Option.or_eq_some_iff] at h
  rcases h with (h | ⟨-, h⟩) | ⟨-, h⟩
  · split_ifs at h
    exact safeBreak_paragraph h
  · split_ifs at h
    exact safeBreak_newline h
  · split_ifs at h
    exact safeBreak_sentence h

end SafeBreak

/-- Where a chunk ends: outside of fences, or in the fence that is split, and there behind every
newline in reach. -/
structure BreakAt (source : Utf16) (fenceSpans : List FenceSpan) (reach start : ℕ)
    (stop : ℕ) (fenceSplit : Option FenceSpan) : Prop where
  progress : start < stop
  le_length : stop ≤ source.length
  safe : fenceSplit = none → findFenceSpanAt fenceSpans stop = none
  split : ∀ fence, fenceSplit = some fence →
    fence ∈ fenceSpans ∧ fence.start ≤ stop ∧ stop < fence.stop ∧
      ∀ n, start < n → n ≤ start + reach → source[n - 1]? = some NEWLINE → n ≤ stop

section Forced

variable {source : Utf16} {fenceSpans : List FenceSpan} {offset : ℕ}

theorem length_truncateUtf16Safe {input : Utf16} {limit : ℕ} (hpos : 0 < limit)
    (hle : limit ≤ input.length) : (truncateUtf16Safe input limit).length =
      if splitsPair input limit then limit - 1 else limit := by
  rw [truncateUtf16Safe]
  rcases Nat.eq_or_lt_of_le hle with rfl | hlt
  · rw [if_pos (Nat.le_refl _), if_neg]
    intro hsplits
    exact Nat.lt_irrefl _ (lt_of_splitsPair hsplits)
  · have hlast : (input.take limit).getLast? = input[limit - 1]? := by
      rw [List.getLast?_eq_getElem?, List.length_take_of_le hle, List.getElem?_take_of_lt (by omega)]
    rw [if_neg (Nat.not_le.mpr hlt), hlast, splitsPair]
    rw [List.getElem?_eq_getElem hlt, List.getElem?_eq_getElem (by omega : limit - 1 < input.length)]
    dsimp only [Option.any_some]
    split_ifs
    · exact List.length_take_of_le (by omega)
    · exact List.length_take_of_le hle

/-- The forced break is in front of the limit only where a pair of surrogates is there. -/
theorem forcedBreakIndex_cases {buffer : Utf16} {maxChars forcedBreakIndex : ℕ} (hpos : 0 < maxChars)
    (hle : maxChars ≤ buffer.length)
    (hforced : (truncateUtf16Safe buffer
      (max maxChars (if splitsPair buffer 1 then 2 else 1))).length = forcedBreakIndex) :
    0 < forcedBreakIndex ∧ forcedBreakIndex ≤ buffer.length ∧
      (maxChars ≤ forcedBreakIndex ∨
        forcedBreakIndex + 1 = maxChars ∧ splitsPair buffer maxChars = true) := by
  generalize hwidth : (if splitsPair buffer 1 then 2 else 1) = width at hforced
  have hwide : width = 1 ∧ splitsPair buffer 1 = false ∨
      width = 2 ∧ splitsPair buffer 1 = true := by
    rw [← hwidth]
    cases splitsPair buffer 1 with
    | false => exact .inl ⟨rfl, rfl⟩
    | true => exact .inr ⟨rfl, rfl⟩
  have hroom : max maxChars width ≤ buffer.length := by
    rcases hwide with ⟨rfl, -⟩ | ⟨rfl, hfirst⟩
    · omega
    · have := lt_of_splitsPair hfirst
      omega
  rw [length_truncateUtf16Safe (by omega) hroom] at hforced
  cases hsplits : splitsPair buffer (max maxChars width) with
  | false =>
    rw [hsplits, if_neg Bool.false_ne_true] at hforced
    omega
  | true =>
    rw [hsplits, if_pos rfl] at hforced
    -- no pair is split at its own width
    have hlt : width < max maxChars width := by
      apply Nat.lt_of_le_of_ne (Nat.le_max_right _ _)
      intro hsame
      rw [← hsame] at hsplits
      rcases hwide with ⟨rfl, hfirst⟩ | ⟨rfl, hfirst⟩
      · rw [hfirst] at hsplits
        cases hsplits
      · rw [not_splitsPair_succ hfirst] at hsplits
        cases hsplits
    have hmax : max maxChars width = maxChars := by omega
    rw [hmax] at hforced hsplits
    exact ⟨by omega, by omega, .inr ⟨by omega, hsplits⟩⟩

theorem exists_lastIndexOf {text : Utf16} {c : CodeUnit} {upTo i : ℕ} (hi : i ≤ upTo)
    (hc : text[i]? = some c) : ∃ index, lastIndexOf text c upTo = some index ∧ i ≤ index := by
  induction upTo with
  | zero =>
    obtain rfl := Nat.le_zero.mp hi
    exact ⟨0, by rw [lastIndexOf, if_pos hc], Nat.le_refl _⟩
  | succ upTo ih =>
    rw [lastIndexOf]
    split_ifs with hhere
    · exact ⟨upTo + 1, rfl, hi⟩
    · apply ih
      apply Nat.le_of_lt_succ
      apply Nat.lt_of_le_of_ne hi
      rintro rfl
      exact hhere hc

/-- The last line of a fence starts behind every newline that is in front of its end. -/
theorem of_findFenceCloseLineStart {fence : FenceSpan} {closeFenceStart i : ℕ}
    (h : findFenceCloseLineStart (source.drop offset) fence offset = some closeFenceStart)
    (hi : offset ≤ i) (hstop : i < fence.stop) (hnewline : source[i]? = some NEWLINE) :
    i < offset + closeFenceStart := by
  have hlt := (List.getElem?_eq_some_iff.mp hnewline).1
  have hrelative : (source.drop offset)[i - offset]? = some NEWLINE := by
    rw [List.getElem?_drop, Nat.add_sub_cancel' hi, hnewline]
  rw [findFenceCloseLineStart] at h
  split_ifs at h with hend
  obtain ⟨lastNewline, hlast, rfl⟩ := Option.map_eq_some_iff.mp h
  rw [List.length_drop] at hlast hend
  obtain ⟨index, hindex, hle⟩ := @exists_lastIndexOf (source.drop offset) NEWLINE
    (min (source.length - offset) (fence.stop - offset) - 1) (i - offset) (by omega) hrelative
  obtain rfl := Option.some.inj (hindex.symm.trans hlast)
  omega

theorem breakAt_forced {minChars maxChars : ℕ}
    (hspans : ∀ span ∈ fenceSpans, SpanOf source span) (hmin : 0 < minChars)
    (hpos : 0 < maxChars) (hle : maxChars ≤ (source.drop offset).length) :
    BreakAt source fenceSpans maxChars offset
      (offset + (forcedBreak (source.drop offset) fenceSpans minChars maxChars offset).index)
      (forcedBreak (source.drop offset) fenceSpans minChars maxChars offset).fenceSplit := by
  rw [forcedBreak]
  generalize hforced : (truncateUtf16Safe (source.drop offset)
    (max maxChars (if splitsPair (source.drop offset) 1 then 2 else 1))).length = forcedBreakIndex
  obtain ⟨hprogress, hlength, hreach⟩ := forcedBreakIndex_cases hpos hle hforced
  rw [List.length_drop] at hlength
  -- a newline in reach is in front of the forced break
  have hnewlines : ∀ n, offset < n → n ≤ offset + maxChars → source[n - 1]? = some NEWLINE →
      n ≤ offset + forcedBreakIndex := by
    intro n hlt hn hnewline
    rcases hreach with hreach | ⟨hreach, hsplits⟩
    · omega
    · apply Nat.le_of_lt_succ
      apply Nat.lt_of_le_of_ne (by omega)
      rintro hlast
      obtain ⟨c, -, hc, hhigh, -⟩ := splitsPair_iff.mp hsplits
      rw [List.getElem?_drop] at hc
      have hindex : offset + (maxChars - 1) = n - 1 := by omega
      rw [hindex, hnewline] at hc
      obtain rfl := Option.some.inj hc
      rw [not_high_of_blank blank_newline] at hhigh
      cases hhigh
  cases hfind : findFenceSpanAt fenceSpans (offset + forcedBreakIndex) with
  | none =>
    exact ⟨by dsimp only; omega, by dsimp only; omega, fun _ => hfind,
      fun _ hnone => (by cases hnone)⟩
  | some fence =>
    obtain ⟨hmem, hstart, hstop⟩ := of_searchFenceSpan hfind
    dsimp only
    cases hclose : (findFenceCloseLineStart (source.drop offset) fence offset).filter
        fun closeFenceStart =>
          minChars ≤ closeFenceStart && closeFenceStart < forcedBreakIndex with
    | none =>
      refine ⟨by dsimp only; omega, by dsimp only; omega, fun hnone => (by cases hnone), ?_⟩
      intro fence' hfence
      obtain rfl := Option.some.inj hfence
      exact ⟨hmem, hstart.le, hstop, hnewlines⟩
    | some closeFenceStart =>
      obtain ⟨hfound, hbounds⟩ := Option.filter_eq_some_iff.mp hclose
      rw [Bool.and_eq_true, decide_eq_true_eq, decide_eq_true_eq] at hbounds
      obtain ⟨hleast, hlt⟩ := hbounds
      refine ⟨by dsimp only; omega, by dsimp only; omega, fun hnone => (by cases hnone), ?_⟩
      intro fence' hfence
      obtain rfl := Option.some.inj hfence
      refine ⟨hmem, ?_, by dsimp only; omega, ?_⟩
      · show fence.start ≤ offset + closeFenceStart
        rcases Nat.lt_or_ge offset fence.start with hbehind | hbefore
        · have hfront := (hspans fence hmem).opens.front.resolve_left (by omega)
          have := of_findFenceCloseLineStart hfound (by omega) (by omega) hfront
          omega
        · omega
      · intro n hn hreach' hnewline
        have hforward := hnewlines n hn hreach' hnewline
        have := of_findFenceCloseLineStart hfound (by omega) (by omega) hnewline
        show n ≤ offset + closeFenceStart
        omega

end Forced

section Picked

variable {chunking : BlockReplyChunking} {source : Utf16} {fenceSpans : List FenceSpan}
  {start : ℕ} {override : Option ℤ}

theorem BreakAt.of_reach {reach reach' stop : ℕ} {fenceSplit : Option FenceSpan}
    (h : BreakAt source fenceSpans reach start stop fenceSplit) (hle : reach' ≤ reach) :
    BreakAt source fenceSpans reach' start stop fenceSplit where
  progress := h.progress
  le_length := h.le_length
  safe := h.safe
  split fence hfence := by
    obtain ⟨hmem, hstart, hstop, hnewlines⟩ := h.split fence hfence
    refine ⟨hmem, hstart, hstop, fun n hn hreach => hnewlines n hn ?_⟩
    omega

theorem breakAt_safe {reach minChars index : ℕ} (hpos : 0 < minChars)
    (h : SafeBreak (source.drop start) fenceSpans minChars start index) :
    BreakAt source fenceSpans reach start (start + index) none := by
  obtain ⟨hprogress, hlength, hsafe⟩ := h
  rw [List.length_drop] at hlength
  exact ⟨by omega, by omega, fun _ => hsafe, fun _ hnone => (by cases hnone)⟩

theorem SafeBreak.of_take {text : Utf16} {minChars offset index n : ℕ}
    (h : SafeBreak (text.take n) fenceSpans minChars offset index) :
    SafeBreak text fenceSpans minChars offset index where
  progress := h.progress
  le_length := h.le_length.trans (List.length_take_le' n text)
  safe := h.safe

theorem breakAt_pickSoftBreakIndex {index reach : ℕ}
    (h : pickSoftBreakIndex chunking (source.drop start) fenceSpans override start = some index) :
    BreakAt source fenceSpans reach start (start + index) none := by
  rw [pickSoftBreakIndex] at h
  split_ifs at h
  exact breakAt_safe (by omega) (safeBreak_preferred h)

theorem breakAt_pickBreakIndex {result : BreakResult}
    (hspans : ∀ span ∈ fenceSpans, SpanOf source span)
    (h : pickBreakIndex chunking (source.drop start) fenceSpans override start = some result) :
    BreakAt source fenceSpans chunking.maxChars.toNat start (start + result.index)
      result.fenceSplit := by
  rw [pickBreakIndex] at h
  generalize hmin : (max 1 (override.getD chunking.minChars)).toNat = minChars at h
  have hpos : 0 < minChars := by omega
  dsimp only at h
  split at h
  · cases h
  split at h
  · rename_i index hpreferred
    obtain rfl := Option.some.inj h
    exact breakAt_safe hpos (safeBreak_preferred hpreferred).of_take
  split at h
  · cases h
  split at h
  · rename_i index hblank
    obtain rfl := Option.some.inj h
    have hmem := List.mem_range.mp (List.mem_reverse.mp (List.mem_of_find?_eq_some hblank))
    have hfound := List.find?_some hblank
    rw [Bool.and_eq_true, Bool.and_eq_true, decide_eq_true_eq] at hfound
    exact breakAt_safe hpos (SafeBreak.of_take ⟨hfound.1.1, hmem.le, safe_iff.mp hfound.2⟩)
  split at h
  · rename_i hlong
    obtain rfl := Option.some.inj h
    apply (breakAt_forced hspans hpos (by omega) hlong).of_reach
    exact Nat.le_max_right _ _
  · cases h

end Picked

section Paragraph

variable {text source : Utf16} {fenceSpans : List FenceSpan} {startIndex minChars lastIndex : ℕ}
  {found : ParagraphBreak}

/-- A paragraph break is blank. -/
theorem blank_matchParagraphBreak {length : ℕ} (h : matchParagraphBreak text = some length) :
    ∀ c ∈ text.take length, isWhiteSpace c = true := by
  cases text with
  | nil => cases h
  | cons c rest =>
    rw [matchParagraphBreak] at h
    generalize hblanks : rest.takeWhile (fun d => d = unit '\t' || d = unit ' ') = blanks at h
    generalize hnewlines : (rest.drop blanks.length).takeWhile (fun d => d = NEWLINE) = newlines
      at h
    split_ifs at h with hmatch
    obtain rfl := Option.some.inj h
    have hspaces : ∀ d ∈ blanks, isWhiteSpace d = true := by
      intro d hd
      rw [← hblanks] at hd
      have hblank := List.mem_takeWhile_imp hd
      rw [Bool.or_eq_true, decide_eq_true_eq, decide_eq_true_eq] at hblank
      rcases hblank with rfl | rfl
      · decide
      · decide
    have hends : ∀ d ∈ newlines, isWhiteSpace d = true := by
      intro d hd
      rw [← hnewlines] at hd
      have hnewline := List.mem_takeWhile_imp hd
      rw [of_decide_eq_true hnewline]
      exact blank_newline
    obtain ⟨more, hmore⟩ : newlines <+: rest.drop blanks.length :=
      hnewlines ▸ List.takeWhile_prefix _
    have hrest : blanks ++ (newlines ++ more) = rest := by
      rw [hmore]
      exact List.prefix_iff_eq_append.mp (hblanks ▸ List.takeWhile_prefix _)
    have htake : (c :: rest).take (1 + blanks.length + newlines.length) = c :: (blanks ++ newlines) := by
      rw [← hrest, ← List.append_assoc, Nat.add_assoc, Nat.add_comm 1, List.take_succ_cons]
      congr 1
      exact List.take_left' List.length_append
    rw [htake, hmatch.1]
    refine List.forall_mem_cons.mpr ⟨blank_newline, fun d hd => ?_⟩
    rcases List.mem_append.mp hd with hd | hd
    · exact hspaces d hd
    · exact hends d hd

theorem of_findNextParagraphBreak (hle : startIndex ≤ lastIndex)
    (h : findNextParagraphBreak source fenceSpans startIndex minChars lastIndex = some found) :
    startIndex + minChars ≤ found.index ∧ findFenceSpanAt fenceSpans found.index = none ∧
      found.index + found.length ≤ source.length ∧
      Between (BlankAt source) found.index (found.index + found.length) := by
  induction lastIndex using
    findNextParagraphBreak.induct source fenceSpans startIndex minChars with
  | case1 lastIndex hlt hmatch ih =>
    rw [findNextParagraphBreak, dif_pos hlt, hmatch] at h
    exact ih (by omega) h
  | case2 lastIndex hlt length hmatch hfound =>
    rw [findNextParagraphBreak, dif_pos hlt, hmatch] at h
    dsimp only at h
    rw [if_pos hfound] at h
    obtain rfl := Option.some.inj h
    have hlength := (of_matchParagraphBreak hmatch).le_length
    rw [List.length_drop] at hlength
    refine ⟨hfound.1, safe_iff.mp hfound.2, by dsimp only; omega, fun i hi hlt' => ?_⟩
    have hbehind : lastIndex ≤ i := hi
    have hinside : i < lastIndex + length := hlt'
    have hunit : source[i]? = some source[i] := List.getElem?_eq_getElem (by omega)
    rw [BlankAt, hunit, Option.any_some]
    apply blank_matchParagraphBreak hmatch
    apply List.mem_iff_getElem?.mpr
    refine ⟨i - lastIndex, ?_⟩
    rw [List.getElem?_take_of_lt (by omega), List.getElem?_drop, Nat.add_sub_cancel' hbehind, hunit]
  | case3 lastIndex hlt length hmatch hfound ih =>
    rw [findNextParagraphBreak, dif_pos hlt, hmatch] at h
    dsimp only at h
    rw [if_neg hfound] at h
    exact ih (by omega) h
  | case4 lastIndex hlt =>
    rw [findNextParagraphBreak, dif_neg hlt] at h
    cases h

end Paragraph

end Flashclaw.Agents
