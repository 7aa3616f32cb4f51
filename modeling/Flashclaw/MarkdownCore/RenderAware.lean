import Flashclaw.Lib.Lists
import Flashclaw.MarkdownCore.Ir

/-!
# Chunks under a limit of the rendered size

`packages/markdown-core/src/render-aware-chunking.ts`: a Markdown text is split until each chunk
is small enough when it is rendered, and blank chunks go to their neighbours.
-/

namespace Flashclaw.MarkdownCore

open Utf16 Ranges

/-- The variables of the loop of `findMarkdownIRPreservedSplitIndex`. -/
structure SplitPoints where
  lastOutsideParenNewlineBreak : Option ℕ
  lastOutsideParenWhitespaceBreak : Option ℕ
  lastOutsideParenWhitespaceRunStart : Option ℕ
  lastAnyNewlineBreak : Option ℕ
  lastAnyWhitespaceBreak : Option ℕ
  lastAnyWhitespaceRunStart : Option ℕ
  parenDepth : ℕ
  sawNonWhitespace : Bool
deriving DecidableEq

def SplitPoints.initial : SplitPoints := ⟨none, none, none, none, none, none, 0, false⟩

/-- A newline at an index. -/
def SplitPoints.newline (points : SplitPoints) (index : ℕ) : SplitPoints :=
  { points with
    lastAnyNewlineBreak := some (index + 1)
    lastOutsideParenNewlineBreak :=
      if points.parenDepth = 0 then some (index + 1) else points.lastOutsideParenNewlineBreak }

/-- A blank at an index, in a run of blanks. -/
def SplitPoints.whitespace (points : SplitPoints) (index : ℕ) (runStart : Option ℕ) :
    SplitPoints :=
  { points with
    lastAnyWhitespaceBreak := some (index + 1)
    lastAnyWhitespaceRunStart := runStart
    lastOutsideParenWhitespaceBreak :=
      if points.parenDepth = 0 then some (index + 1) else points.lastOutsideParenWhitespaceBreak
    lastOutsideParenWhitespaceRunStart :=
      if points.parenDepth = 0 then runStart else points.lastOutsideParenWhitespaceRunStart }

def scanSplitPoint (text : Utf16) (start : ℕ) (points : SplitPoints) (index : ℕ)
    (char : CodeUnit) : SplitPoints :=
  if char = unit '(' then
    { points with sawNonWhitespace := true, parenDepth := points.parenDepth + 1 }
  else if char = unit ')' ∧ 0 < points.parenDepth then
    { points with sawNonWhitespace := true, parenDepth := points.parenDepth - 1 }
  else if isWhiteSpace char = false then { points with sawNonWhitespace := true }
  else if points.sawNonWhitespace = false then points
  else if char = NEWLINE then points.newline index
  else
    points.whitespace index <|
      if index = start ∨ text[index - 1]?.any isWhiteSpace = false then some index
      else points.lastAnyWhitespaceRunStart

def scanSplitPoints (text : Utf16) (start : ℕ) (points : SplitPoints) (index : ℕ) :
    Utf16 → SplitPoints
  | [] => points
  | char :: rest =>
    scanSplitPoints text start (scanSplitPoint text start points index char) (index + 1) rest

def resolveWhitespaceBreak (text : Utf16) (start breakIndex : ℕ) (runStart : Option ℕ) : ℕ :=
  match runStart.filter (start < ·) with
  | none => breakIndex
  | some runStart => if text[breakIndex]?.any isWhiteSpace then runStart else breakIndex

def findMarkdownIRPreservedSplitIndex (text : Utf16) (start limit : ℕ) : ℕ :=
  let maxEnd := min text.length (start + limit)
  if text.length ≤ maxEnd then text.length
  else
    let points := scanSplitPoints text start .initial start (slice text start maxEnd)
    match points.lastOutsideParenNewlineBreak.filter (start < ·),
      points.lastOutsideParenWhitespaceBreak.filter (start < ·),
      points.lastAnyNewlineBreak.filter (start < ·),
      points.lastAnyWhitespaceBreak.filter (start < ·) with
    | some index, _, _, _ => index
    | none, some index, _, _ =>
      resolveWhitespaceBreak text start index points.lastOutsideParenWhitespaceRunStart
    | none, none, some index, _ => index
    | none, none, none, some index =>
      resolveWhitespaceBreak text start index points.lastAnyWhitespaceRunStart
    | none, none, none, none => avoidTrailingHighSurrogateBreak text start maxEnd

/-- No break and no start of a run of blanks is behind a position. -/
structure SplitPoints.Inside (points : SplitPoints) (stop : ℕ) : Prop where
  outsideNewline : ∀ index, points.lastOutsideParenNewlineBreak = some index → index ≤ stop
  outsideWhitespace : ∀ index, points.lastOutsideParenWhitespaceBreak = some index → index ≤ stop
  outsideRun : ∀ index, points.lastOutsideParenWhitespaceRunStart = some index → index ≤ stop
  anyNewline : ∀ index, points.lastAnyNewlineBreak = some index → index ≤ stop
  anyWhitespace : ∀ index, points.lastAnyWhitespaceBreak = some index → index ≤ stop
  anyRun : ∀ index, points.lastAnyWhitespaceRunStart = some index → index ≤ stop

section SplitIndex

variable {text : Utf16} {start stop index : ℕ} {points : SplitPoints}

theorem le_of_ite {c : Prop} [Decidable c] {a b : Option ℕ}
    (ha : ∀ index, a = some index → index ≤ stop) (hb : ∀ index, b = some index → index ≤ stop) :
    ∀ index, (if c then a else b) = some index → index ≤ stop := by
  split
  · exact ha
  · exact hb

theorem le_of_some {found : ℕ} (h : found ≤ stop) :
    ∀ index, some found = some index → index ≤ stop := by
  rintro index hindex
  exact Option.some.inj hindex ▸ h

theorem inside_scanSplitPoint (h : points.Inside stop) (hindex : index < stop) (char : CodeUnit) :
    (scanSplitPoint text start points index char).Inside stop := by
  have hnext := le_of_some (Nat.succ_le_of_lt hindex)
  rw [scanSplitPoint]
  by_cases hopen : char = unit '('
  · rw [if_pos hopen]
    exact ⟨h.1, h.2, h.3, h.4, h.5, h.6⟩
  rw [if_neg hopen]
  by_cases hclose : char = unit ')' ∧ 0 < points.parenDepth
  · rw [if_pos hclose]
    exact ⟨h.1, h.2, h.3, h.4, h.5, h.6⟩
  rw [if_neg hclose]
  by_cases hblank : isWhiteSpace char = false
  · rw [if_pos hblank]
    exact ⟨h.1, h.2, h.3, h.4, h.5, h.6⟩
  rw [if_neg hblank]
  by_cases hsaw : points.sawNonWhitespace = false
  · rw [if_pos hsaw]
    exact h
  rw [if_neg hsaw]
  by_cases hnewline : char = NEWLINE
  · rw [if_pos hnewline]
    exact ⟨le_of_ite hnext h.1, h.2, h.3, hnext, h.5, h.6⟩
  · rw [if_neg hnewline]
    have hrun := @le_of_ite stop (index = start ∨ text[index - 1]?.any isWhiteSpace = false) _ _ _
      (le_of_some hindex.le) h.anyRun
    exact ⟨h.1, le_of_ite hnext h.2, le_of_ite hrun h.3, h.4, hnext, hrun⟩

theorem inside_scanSplitPoints {window : Utf16} (h : points.Inside stop)
    (hwindow : index + window.length ≤ stop) :
    (scanSplitPoints text start points index window).Inside stop := by
  induction window generalizing points index with
  | nil => exact h
  | cons char rest ih =>
    rw [List.length_cons] at hwindow
    exact ih (inside_scanSplitPoint h (by omega) char) (by omega)

theorem resolveWhitespaceBreak_inside {breakIndex : ℕ} {runStart : Option ℕ}
    (hstart : start < breakIndex) (hstop : breakIndex ≤ stop)
    (hrun : ∀ index, runStart = some index → index ≤ stop) :
    start < resolveWhitespaceBreak text start breakIndex runStart ∧
      resolveWhitespaceBreak text start breakIndex runStart ≤ stop := by
  rw [resolveWhitespaceBreak]
  cases hfilter : runStart.filter (start < ·) with
  | none => exact ⟨hstart, hstop⟩
  | some run =>
    obtain ⟨hsome, hlt⟩ := Option.filter_eq_some_iff.mp hfilter
    dsimp only
    split_ifs
    · exact ⟨of_decide_eq_true hlt, hrun run hsome⟩
    · exact ⟨hstart, hstop⟩

/-- Where a chunk may end. -/
structure SplitsAt (text : Utf16) (start limit index : ℕ) : Prop where
  progress : start < index
  le_length : index ≤ text.length
  short : start + limit < text.length → splitsPair text (start + limit) = false →
    index ≤ start + limit

theorem splitsAt_findIndex {limit : ℕ} (hlimit : 0 < limit) (hstart : start < text.length) :
    SplitsAt text start limit (findMarkdownIRPreservedSplitIndex text start limit) := by
  rw [findMarkdownIRPreservedSplitIndex]
  by_cases hall : text.length ≤ min text.length (start + limit)
  · rw [if_pos hall]
    exact ⟨hstart, Nat.le_refl _, fun hlt _ => by omega⟩
  rw [if_neg hall]
  have hmax : min text.length (start + limit) = start + limit := by omega
  rw [hmax]
  have hinitial : SplitPoints.initial.Inside (start + limit) :=
    ⟨fun _ h => (by cases h), fun _ h => (by cases h), fun _ h => (by cases h),
      fun _ h => (by cases h), fun _ h => (by cases h), fun _ h => (by cases h)⟩
  have hpoints : (scanSplitPoints text start .initial start
      (slice text start (start + limit))).Inside (start + limit) := by
    apply inside_scanSplitPoints hinitial
    rw [length_slice (by omega)]
    omega
  generalize scanSplitPoints text start .initial start _ = points at hpoints ⊢
  dsimp only
  have hinside : ∀ result, start < result ∧ result ≤ start + limit →
      SplitsAt text start limit result :=
    fun result h => ⟨h.1, by omega, fun _ _ => h.2⟩
  have hfilter : ∀ {point : Option ℕ} {index : ℕ}, point.filter (start < ·) = some index →
      (∀ index, point = some index → index ≤ start + limit) →
      start < index ∧ index ≤ start + limit := by
    intro point index h hle
    obtain ⟨hsome, hlt⟩ := Option.filter_eq_some_iff.mp h
    exact ⟨of_decide_eq_true hlt, hle index hsome⟩
  cases houter : points.lastOutsideParenNewlineBreak.filter (start < ·) with
  | some index => exact hinside index (hfilter houter hpoints.outsideNewline)
  | none =>
    cases hspace : points.lastOutsideParenWhitespaceBreak.filter (start < ·) with
    | some index =>
      obtain ⟨hlt, hle⟩ := hfilter hspace hpoints.outsideWhitespace
      exact hinside _ (resolveWhitespaceBreak_inside hlt hle hpoints.outsideRun)
    | none =>
      cases hany : points.lastAnyNewlineBreak.filter (start < ·) with
      | some index => exact hinside index (hfilter hany hpoints.anyNewline)
      | none =>
        cases hblank : points.lastAnyWhitespaceBreak.filter (start < ·) with
        | some index =>
          obtain ⟨hlt, hle⟩ := hfilter hblank hpoints.anyWhitespace
          exact hinside _ (resolveWhitespaceBreak_inside hlt hle hpoints.anyRun)
        | none =>
          have h := avoided (by omega : start < start + limit) (by omega : start + limit ≤ text.length)
          refine ⟨h.progress, h.le_length, fun _ hsafe => ?_⟩
          show avoidTrailingHighSurrogateBreak text start (start + limit) ≤ start + limit
          rw [avoid_of_not_splits hsafe]

end SplitIndex

/-- The loop of `splitMarkdownIRPreserveWhitespace`. -/
def splitFrom (ir : MarkdownIR) (limit : ℕ) (hlimit : 0 < limit) (cursor : ℕ) : List MarkdownIR :=
  if _hcursor : cursor < ir.text.length then
    sliceMarkdownIR ir cursor (findMarkdownIRPreservedSplitIndex ir.text cursor limit) ::
      splitFrom ir limit hlimit (findMarkdownIRPreservedSplitIndex ir.text cursor limit)
  else []
termination_by ir.text.length - cursor
decreasing_by
  have := (splitsAt_findIndex hlimit _hcursor).progress
  omega

def splitMarkdownIRPreserveWhitespace (ir : MarkdownIR) (limit : ℕ) : List MarkdownIR :=
  if ir.text = [] then []
  else if ir.text.length ≤ max 1 limit then [ir]
  else splitFrom ir (max 1 limit) (by omega) 0

structure TextRange where
  start : ℕ
  stop : ℕ
deriving DecidableEq

def rangesOverlap (left right : TextRange) : Bool :=
  left.start < right.stop && right.start < left.stop

def MarkdownAnnotationSpan.range (span : MarkdownAnnotationSpan) : TextRange :=
  ⟨span.start, span.stop⟩

/-- `findAssistantTranscriptRoleHeaderSpans`: the headers in a line, outside of some ranges. -/
abbrev HeaderFinder := Utf16 → List TextRange → List MarkdownAnnotationSpan

/-- Marks a header of a role in the first line, which starts a message. -/
def annotateAssistantTranscriptRoleMessageBoundary (findHeaders : HeaderFinder) (ir : MarkdownIR) :
    MarkdownIR :=
  let boundaryText := ir.text.takeWhile fun c => c ≠ NEWLINE
  let excludedRanges :=
    (ir.styles.filter fun span =>
      (span.style = .code || span.style = .codeBlock) && span.start < boundaryText.length).map
        fun span => TextRange.mk span.start (min span.stop boundaryText.length)
  match (findHeaders boundaryText excludedRanges).head? with
  | none => ir
  | some boundarySpan =>
    if (ir.annotations.getD []).any fun span => rangesOverlap span.range boundarySpan.range then ir
    else
      { ir with
        links := ir.links.filter fun link => !rangesOverlap ⟨link.start, link.stop⟩ boundarySpan.range
        annotations := some (mergeAnnotationSpans (ir.annotations.getD [] ++ [boundarySpan])) }

section Rendering

variable {TRendered Size : Type*}

/-- A limit that is absent is `Infinity`. -/
structure RenderMarkdownIRChunksWithinLimitOptions (TRendered Size : Type*) where
  ir : MarkdownIR
  limit : Option ℕ
  measureRendered : TRendered → Size
  renderChunk : MarkdownIR → TRendered
  assistantTranscriptRoleMessageBoundaries : Bool

structure RenderedMarkdownChunk (TRendered : Type*) where
  rendered : TRendered
  source : MarkdownIR

structure RenderResolver (TRendered Size : Type*) where
  measureRendered : TRendered → Size
  renderChunk : MarkdownIR → TRendered

def prepareChunkForMessageBoundary (findHeaders : HeaderFinder)
    (options : RenderMarkdownIRChunksWithinLimitOptions TRendered Size) (chunk : MarkdownIR) :
    MarkdownIR :=
  if options.assistantTranscriptRoleMessageBoundaries then
    annotateAssistantTranscriptRoleMessageBoundary findHeaders chunk
  else chunk

variable [LE Size] [DecidableLE Size] [NatCast Size]

/-- A chunk is small enough when it is rendered. -/
def RenderResolver.fits (options : RenderResolver TRendered Size) (renderedLimit : ℕ)
    (chunk : MarkdownIR) : Bool :=
  options.measureRendered (options.renderChunk chunk) ≤ (renderedLimit : Size)

variable (options : RenderResolver TRendered Size) (renderedLimit : ℕ)

/-- The loop of `findLargestChunkTextLengthWithinRenderedLimit`. -/
def largestLengthFrom (chunk : MarkdownIR) : ℕ → ℕ
  | 0 => 0
  | candidateLength + 1 =>
    let safeCandidateLength := avoidTrailingHighSurrogateBreak chunk.text 0 (candidateLength + 1)
    if options.fits renderedLimit (sliceMarkdownIR chunk 0 safeCandidateLength) then
      safeCandidateLength
    else largestLengthFrom chunk candidateLength

def findLargestChunkTextLengthWithinRenderedLimit (chunk : MarkdownIR) : ℕ :=
  if chunk.text.length ≤ 1 then chunk.text.length
  else largestLengthFrom options renderedLimit chunk (chunk.text.length - 1)

def splitMarkdownIRByRenderedLimit (chunk : MarkdownIR) : List MarkdownIR :=
  if chunk.text.length ≤ 1 then [chunk]
  else
    let splitLimit := findLargestChunkTextLengthWithinRenderedLimit options renderedLimit chunk
    if splitLimit = 0 then [chunk]
    else
      let split := splitMarkdownIRPreserveWhitespace chunk splitLimit
      if split.head?.any (options.fits renderedLimit) then split
      else [sliceMarkdownIR chunk 0 splitLimit, sliceMarkdownIR chunk splitLimit chunk.text.length]

end Rendering

end Flashclaw.MarkdownCore
