import Flashclaw.Lib.JsMap
import Flashclaw.MarkdownCore.Ir
import Mathlib.Data.List.Dedup

/-!
# Text with markers

`packages/markdown-core/src/render.ts`: a Markdown text with a marker in front of and behind each
of its spans.  Spans of formatting are cut at the annotations first: what `subtractRanges` and
`splitAtBoundaries` make of a span are pieces that leave out the dominant annotations, and that no
annotation ends inside of.
-/

namespace Flashclaw.MarkdownCore

open Utf16 Ranges

/-- What opens the spans of one kind: one text, or a text made for each. -/
inductive MarkerOpen (σ : Type) where
  | text (marker : Utf16)
  | build (marker : σ → Utf16)

def MarkerOpen.of {σ : Type} (span : σ) : MarkerOpen σ → Utf16
  | .text marker => marker
  | .build marker => marker span

structure RenderStyleMarker where
  opening : MarkerOpen MarkdownStyleSpan
  close : Utf16

structure RenderAnnotationMarker where
  opening : MarkerOpen MarkdownAnnotationSpan
  close : Utf16
  suppressNestedFormatting : Bool

structure RenderLink where
  start : ℕ
  stop : ℕ
  opening : Utf16
  close : Utf16

inductive MarkdownLinkOrigin where
  | authored
  | linkify
deriving DecidableEq

def getMarkdownLinkOrigin (link : MarkdownLinkSpan) : MarkdownLinkOrigin :=
  if link.autoLinked then .linkify else .authored

/-- The markers of a renderer.  Annotations are of one type. -/
structure RenderOptions where
  styleMarkers : MarkdownStyle → Option RenderStyleMarker
  annotationMarker : Option RenderAnnotationMarker
  escapeText : Utf16 → Utf16
  buildLink : Option (MarkdownLinkSpan → Utf16 → MarkdownLinkOrigin → Option RenderLink)

def STYLE_ORDER : List MarkdownStyle :=
  [.blockquote, .codeBlock, .code, .heading1, .heading2, .heading3, .heading4, .heading5,
    .heading6, .bold, .italic, .strikethrough, .spoiler]

def styleRank (style : MarkdownStyle) : ℕ := STYLE_ORDER.idxOf style

def STRUCTURAL_STYLES : List MarkdownStyle :=
  [.blockquote, .heading1, .heading2, .heading3, .heading4, .heading5, .heading6]

def outerStyleFirst (a b : MarkdownStyleSpan) : Prop :=
  b.stop < a.stop ∨ a.stop = b.stop ∧ styleRank a.style ≤ styleRank b.style

instance : DecidableRel outerStyleFirst := fun _ _ => inferInstanceAs (Decidable (_ ∨ _))

def styleSpanFirst (a b : MarkdownStyleSpan) : Prop :=
  a.start < b.start ∨ a.start = b.start ∧ outerStyleFirst a b

instance : DecidableRel styleSpanFirst := fun _ _ => inferInstanceAs (Decidable (_ ∨ _))

def sortStyleSpans (spans : List MarkdownStyleSpan) : List MarkdownStyleSpan :=
  spans.insertionSort styleSpanFirst

def annotationSpanFirst (a b : MarkdownAnnotationSpan) : Prop :=
  a.start < b.start ∨ a.start = b.start ∧ b.stop ≤ a.stop

instance : DecidableRel annotationSpanFirst := fun _ _ => inferInstanceAs (Decidable (_ ∨ _))

def sortAnnotationSpans (spans : List MarkdownAnnotationSpan) : List MarkdownAnnotationSpan :=
  spans.insertionSort annotationSpanFirst

def rangeFirst (a b : Range) : Prop := a.start < b.start ∨ a.start = b.start ∧ a.stop ≤ b.stop

instance : DecidableRel rangeFirst := fun _ _ => inferInstanceAs (Decidable (_ ∨ _))

def mergeRange (previous range : Range) : Option Range :=
  if range.start ≤ previous.stop then some { previous with stop := max previous.stop range.stop }
  else none

def mergeRanges (ranges : List Range) : List Range :=
  mergeAdjacent mergeRange (ranges.insertionSort rangeFirst)

def firstOverlappingRangeIndex (ranges : List Range) (start : ℕ) : ℕ :=
  bisect (fun middle => ranges[middle]?.any fun range => range.stop ≤ start) 0 ranges.length

/-- The rounds of `subtractRanges` from a range on. -/
def subtractFrom (span : Range) (cursor : ℕ) : List Range → List Range
  | [] => if cursor < span.stop then [⟨cursor, span.stop⟩] else []
  | range :: ranges =>
    if span.stop ≤ range.start then if cursor < span.stop then [⟨cursor, span.stop⟩] else []
    else
      let rangeStart := max span.start range.start
      let rangeEnd := min span.stop range.stop
      (if cursor < rangeStart then [⟨cursor, rangeStart⟩] else []) ++
        subtractFrom span (max cursor rangeEnd) ranges

/-- The pieces of a span that are in no range. -/
def subtractRanges (span : Range) (ranges : List Range) : List Range :=
  let overlapping := ranges.drop (firstOverlappingRangeIndex ranges span.start)
  match overlapping with
  | [] => [span]
  | firstRange :: _ =>
    if span.stop ≤ firstRange.start then [span] else subtractFrom span span.start overlapping

/-- The rounds of `splitAtBoundaries` from a boundary on. -/
def splitSpanFrom (span : Range) (cursor : ℕ) : List ℕ → List Range
  | [] => [⟨cursor, span.stop⟩]
  | boundary :: boundaries =>
    if span.stop ≤ boundary then [⟨cursor, span.stop⟩]
    else ⟨cursor, boundary⟩ :: splitSpanFrom span boundary boundaries

/-- The pieces of a span between the boundaries that are inside of it. -/
def splitAtBoundaries (span : Range) (boundaries : List ℕ) : List Range :=
  let low := bisect (fun middle => boundaries[middle]?.any fun boundary => boundary ≤ span.start) 0
    boundaries.length
  match boundaries.drop low with
  | [] => [span]
  | boundary :: rest =>
    if span.stop ≤ boundary then [span] else splitSpanFrom span span.start (boundary :: rest)

/-- `[...new Set(numbers)].toSorted((a, b) => a - b)` -/
def sortedSet (numbers : List ℕ) : List ℕ := numbers.dedup.insertionSort (· ≤ ·)

def MarkdownStyleSpan.bounds (span : MarkdownStyleSpan) : Range := ⟨span.start, span.stop⟩

def MarkdownLinkSpan.bounds (link : MarkdownLinkSpan) : Range := ⟨link.start, link.stop⟩

def MarkdownAnnotationSpan.bounds (span : MarkdownAnnotationSpan) : Range := ⟨span.start, span.stop⟩

def RenderLink.bounds (link : RenderLink) : Range := ⟨link.start, link.stop⟩

section Plan

variable (ir : MarkdownIR) (options : RenderOptions)

def annotated : List MarkdownAnnotationSpan :=
  sortAnnotationSpans ((ir.annotations.getD []).filter fun _ => options.annotationMarker.isSome)

def dominantAnnotations : List MarkdownAnnotationSpan :=
  (annotated ir options).filter fun _ =>
    options.annotationMarker.any fun marker => marker.suppressNestedFormatting

def dominantAnnotationRanges : List Range :=
  mergeRanges ((dominantAnnotations ir options).map MarkdownAnnotationSpan.bounds)

def annotationBoundaries : List ℕ :=
  sortedSet ((annotated ir options).flatMap fun span => [span.start, span.stop])

/-- The pieces of a span of formatting. -/
def formatPieces (span : Range) : List Range :=
  (subtractRanges span (dominantAnnotationRanges ir options)).flatMap fun piece =>
    splitAtBoundaries piece (annotationBoundaries ir options)

def styled : List MarkdownStyleSpan :=
  sortStyleSpans <| (ir.styles.filter fun span => (options.styleMarkers span.style).isSome).flatMap
    fun span =>
      if span.style ∈ STRUCTURAL_STYLES then [span]
      else (formatPieces ir options span.bounds).map fun piece =>
        { span with start := piece.start, stop := piece.stop }

def linkPieces : List MarkdownLinkSpan :=
  ir.links.flatMap fun span => (formatPieces ir options span.bounds).map fun piece =>
    { span with start := piece.start, stop := piece.stop }

/-- The links that the renderer accepts. -/
def renderedLinks : List RenderLink :=
  match options.buildLink with
  | none => []
  | some buildLink => ((linkPieces ir options).filter fun link => link.start ≠ link.stop).filterMap
      fun link => buildLink link ir.text (getMarkdownLinkOrigin link)

def shownStyles : List MarkdownStyleSpan := (styled ir options).filter fun span =>
  span.start ≠ span.stop

def shownAnnotations : List MarkdownAnnotationSpan := (annotated ir options).filter fun span =>
  span.start ≠ span.stop

def shownRanges : List Range :=
  (shownStyles ir options).map MarkdownStyleSpan.bounds ++
    (shownAnnotations ir options).map MarkdownAnnotationSpan.bounds ++
      (renderedLinks ir options).map RenderLink.bounds

/-- The boundaries of all that is shown, in order. -/
def points : List ℕ :=
  sortedSet <| 0 :: ir.text.length ::
    (shownRanges ir options).flatMap fun range => [range.start, range.stop]

/-- Elements under their starts, in order. -/
def buckets {σ : Type} (start : σ → ℕ) (spans : List σ) : JsMap ℕ (List σ) :=
  spans.foldl (fun starts span => starts.push (start span) span) .empty

def startsAt : JsMap ℕ (List MarkdownStyleSpan) :=
  (buckets MarkdownStyleSpan.start (shownStyles ir options)).mapValues
    fun spans => spans.insertionSort outerStyleFirst

def annotationStarts : JsMap ℕ (List MarkdownAnnotationSpan) :=
  buckets MarkdownAnnotationSpan.start (shownAnnotations ir options)

def linkStarts : JsMap ℕ (List RenderLink) := buckets RenderLink.start (renderedLinks ir options)

inductive OpeningKind where
  | annotationSpan
  | link
  | style (style : MarkdownStyle)
deriving DecidableEq

structure OpeningItem where
  stop : ℕ
  opening : Utf16
  close : Utf16
  kind : OpeningKind
  index : ℕ

def OpeningItem.structural (item : OpeningItem) : Bool :=
  match item.kind with
  | .style style => style ∈ STRUCTURAL_STYLES
  | _ => false

def kindRank : OpeningKind → ℤ
  | .annotationSpan => 0
  | .link => 1
  | .style _ => 2

def OpeningItem.rank (item : OpeningItem) : ℤ := if item.structural then -1 else kindRank item.kind

/-- What is compared of two items of one kind and rank. -/
def OpeningItem.order (item : OpeningItem) : ℕ :=
  match item.kind with
  | .style style => styleRank style
  | _ => item.index

/-- The item that ends last is opened first; of those that end together, the containers first. -/
def openedFirst (a b : OpeningItem) : Prop :=
  if a.stop ≠ b.stop then b.stop < a.stop
  else if a.structural ≠ b.structural ∨ kindRank a.kind ≠ kindRank b.kind then a.rank ≤ b.rank
  else a.order ≤ b.order

instance : DecidableRel openedFirst := fun _ _ => inferInstanceAs (Decidable (ite _ _ _))

def openingItems (pos : ℕ) : List OpeningItem :=
  let annotations := ((annotationStarts ir options).getAll pos).zipIdx.filterMap
    fun (span, index) => options.annotationMarker.map fun marker =>
      (⟨span.stop, marker.opening.of span, marker.close, .annotationSpan, index⟩ : OpeningItem)
  let links := ((linkStarts ir options).getAll pos).zipIdx.map
    fun (link, index) => (⟨link.stop, link.opening, link.close, .link, index⟩ : OpeningItem)
  let styles := ((startsAt ir options).getAll pos).zipIdx.filterMap
    fun (span, index) => (options.styleMarkers span.style).map fun marker =>
      (⟨span.stop, marker.opening.of span, marker.close, .style span.style, index⟩ : OpeningItem)
  (annotations ++ links ++ styles).insertionSort openedFirst

end Plan

structure Frame where
  close : Utf16
  stop : ℕ

/-- Closes what ends at a position, as long as it is on top. -/
def closeFrames (pos : ℕ) : List Frame → Utf16 → List Frame × Utf16
  | [], out => ([], out)
  | frame :: stack, out =>
    if frame.stop = pos then closeFrames pos stack (out ++ frame.close) else (frame :: stack, out)

def openFrames : List OpeningItem → List Frame → Utf16 → List Frame × Utf16
  | [], stack, out => (stack, out)
  | item :: items, stack, out =>
    openFrames items (⟨item.close, item.stop⟩ :: stack) (out ++ item.opening)

/-- The rounds of the loop over the boundaries, with the stack that is left in the end. -/
def renderPoints (opening : ℕ → List OpeningItem) (escapeText : Utf16 → Utf16) (text : Utf16) :
    List ℕ → List Frame → Utf16 → List Frame × Utf16
  | [], stack, out => (stack, out)
  | pos :: points, stack, out =>
    let closed := closeFrames pos stack out
    let opened := openFrames (opening pos) closed.1 closed.2
    match points with
    | [] => opened
    | next :: _ =>
      renderPoints opening escapeText text points opened.1
        (if pos < next then opened.2 ++ escapeText (slice text pos next) else opened.2)

def renderRun (ir : MarkdownIR) (options : RenderOptions) : List Frame × Utf16 :=
  renderPoints (openingItems ir options) options.escapeText ir.text (points ir options) [] []

def renderMarkdownWithMarkers (ir : MarkdownIR) (options : RenderOptions) : Utf16 :=
  if ir.text = [] then [] else (renderRun ir options).2

instance : IsTrans Range rangeFirst := ⟨by
  intro a b c hab hbc
  rw [rangeFirst] at hab hbc ⊢
  omega⟩

instance : Std.Total rangeFirst := ⟨by
  intro a b
  rw [rangeFirst, rangeFirst]
  omega⟩

/-- Ranges apart from each other that cover what others cover, with ends of theirs. -/
structure Merged (ranges merged : List Range) : Prop where
  apart : merged.Pairwise fun a b => a.stop < b.start
  le : ∀ range ∈ merged, range.start ≤ range.stop
  start : ∀ range ∈ merged, ∃ other ∈ ranges, range.start = other.start
  stop : ∀ range ∈ merged, ∃ other ∈ ranges, range.stop = other.stop
  covered : ∀ i, Covered merged i ↔ Covered ranges i

section Merging

variable {ranges : List Range} {previous range : Range} {i : ℕ}

theorem covered_cons : Covered (range :: ranges) i ↔
    (range.start ≤ i ∧ i < range.stop) ∨ Covered ranges i := List.exists_mem_cons_iff _ _ _

theorem merged_mergeInto (hsorted : (previous :: ranges).Pairwise fun a b => a.start ≤ b.start)
    (hle : ∀ range ∈ previous :: ranges, range.start ≤ range.stop) :
    Merged (previous :: ranges) (mergeInto mergeRange previous ranges) ∧
      ∀ range ∈ mergeInto mergeRange previous ranges, previous.start ≤ range.start := by
  induction ranges generalizing previous with
  | nil =>
    refine ⟨⟨List.pairwise_singleton _ _, hle, fun range hrange => ⟨range, hrange, rfl⟩,
      fun range hrange => ⟨range, hrange, rfl⟩, fun _ => Iff.rfl⟩, ?_⟩
    rintro range hrange
    rw [List.mem_singleton.mp hrange]
  | cons range ranges ih =>
    obtain ⟨hfirst, hsorted⟩ := List.pairwise_cons.mp hsorted
    obtain ⟨hprevious, hle⟩ := List.forall_mem_cons.mp hle
    have hstart := hfirst range List.mem_cons_self
    have hrange := hle range List.mem_cons_self
    rw [mergeInto, mergeRange]
    by_cases htouch : range.start ≤ previous.stop
    · -- the two ranges become one, which starts where the first one does
      rw [if_pos htouch]
      dsimp only
      obtain ⟨hmerged, hfrom⟩ := @ih ⟨previous.start, max previous.stop range.stop⟩
        (List.pairwise_cons.mpr ⟨fun other hother => hfirst other (List.mem_cons_of_mem _ hother),
          (List.pairwise_cons.mp hsorted).2⟩)
        (List.forall_mem_cons.mpr ⟨hprevious.trans (Nat.le_max_left _ _),
          (List.forall_mem_cons.mp hle).2⟩)
      refine ⟨⟨hmerged.apart, hmerged.le, ?_, ?_, ?_⟩, hfrom⟩
      · intro other hother
        obtain ⟨from', hfrom', heq⟩ := hmerged.start other hother
        rcases List.mem_cons.mp hfrom' with rfl | hmem
        · exact ⟨previous, List.mem_cons_self, heq⟩
        · exact ⟨from', List.mem_cons_of_mem _ (List.mem_cons_of_mem _ hmem), heq⟩
      · intro other hother
        obtain ⟨upTo, hupTo, heq⟩ := hmerged.stop other hother
        rcases List.mem_cons.mp hupTo with rfl | hmem
        · rcases Nat.le_total previous.stop range.stop with h | h
          · exact ⟨range, List.mem_cons_of_mem _ List.mem_cons_self,
              heq.trans (Nat.max_eq_right h)⟩
          · exact ⟨previous, List.mem_cons_self, heq.trans (Nat.max_eq_left h)⟩
        · exact ⟨upTo, List.mem_cons_of_mem _ (List.mem_cons_of_mem _ hmem), heq⟩
      · intro i
        rw [hmerged.covered, covered_cons, covered_cons, covered_cons, ← or_assoc]
        apply or_congr_left
        show previous.start ≤ i ∧ i < max previous.stop range.stop ↔ _
        omega
    · rw [if_neg htouch]
      dsimp only
      obtain ⟨hmerged, hfrom⟩ := ih hsorted hle
      refine ⟨⟨List.pairwise_cons.mpr ⟨fun other hother => ?_, hmerged.apart⟩,
        List.forall_mem_cons.mpr ⟨hprevious, hmerged.le⟩, ?_, ?_, ?_⟩,
        List.forall_mem_cons.mpr ⟨Nat.le_refl _, fun other hother => hstart.trans (hfrom other hother)⟩⟩
      · have := hfrom other hother
        omega
      · refine List.forall_mem_cons.mpr ⟨⟨previous, List.mem_cons_self, rfl⟩, fun other hother => ?_⟩
        obtain ⟨from', hfrom', heq⟩ := hmerged.start other hother
        exact ⟨from', List.mem_cons_of_mem _ hfrom', heq⟩
      · refine List.forall_mem_cons.mpr ⟨⟨previous, List.mem_cons_self, rfl⟩, fun other hother => ?_⟩
        obtain ⟨upTo, hupTo, heq⟩ := hmerged.stop other hother
        exact ⟨upTo, List.mem_cons_of_mem _ hupTo, heq⟩
      · intro i
        rw [covered_cons, covered_cons, hmerged.covered]

theorem merged_mergeRanges (hle : ∀ range ∈ ranges, range.start ≤ range.stop) :
    Merged ranges (mergeRanges ranges) := by
  have hperm := List.perm_insertionSort rangeFirst ranges
  have hsorted : (ranges.insertionSort rangeFirst).Pairwise fun a b => a.start ≤ b.start := by
    apply (List.pairwise_insertionSort rangeFirst ranges).imp
    intro a b hab
    rw [rangeFirst] at hab
    omega
  have hle' : ∀ range ∈ ranges.insertionSort rangeFirst, range.start ≤ range.stop :=
    fun range hrange => hle range (hperm.mem_iff.mp hrange)
  have hcovered : ∀ i, Covered (ranges.insertionSort rangeFirst) i ↔ Covered ranges i :=
    fun i => exists_congr fun range => and_congr_left fun _ => hperm.mem_iff
  have hmerged : Merged (ranges.insertionSort rangeFirst) (mergeRanges ranges) := by
    rw [mergeRanges]
    cases hspans : ranges.insertionSort rangeFirst with
    | nil =>
      exact ⟨.nil, fun _ h => (List.not_mem_nil h).elim, fun _ h => (List.not_mem_nil h).elim,
        fun _ h => (List.not_mem_nil h).elim, fun _ => Iff.rfl⟩
    | cons range rest => exact (merged_mergeInto (hspans ▸ hsorted) (hspans ▸ hle')).1
  refine ⟨hmerged.apart, hmerged.le, ?_, ?_, fun i => (hmerged.covered i).trans (hcovered i)⟩
  · intro range hrange
    obtain ⟨other, hother, heq⟩ := hmerged.start range hrange
    exact ⟨other, hperm.mem_iff.mp hother, heq⟩
  · intro range hrange
    obtain ⟨other, hother, heq⟩ := hmerged.stop range hrange
    exact ⟨other, hperm.mem_iff.mp hother, heq⟩

end Merging

section Subtracting

variable {span : Range} {ranges : List Range} {cursor : ℕ} {P : ℕ → Prop}

/-- What the rounds of `subtractRanges` know of the ranges that are left. -/
structure Ahead (cursor : ℕ) (ranges : List Range) : Prop where
  apart : ranges.Pairwise fun a b => a.stop < b.start
  le : ∀ range ∈ ranges, range.start ≤ range.stop
  ahead : ∀ range ∈ ranges, cursor < range.stop

theorem Ahead.tail {range : Range} (h : Ahead cursor (range :: ranges)) (span : Range) :
    Ahead (max cursor (min span.stop range.stop)) ranges where
  apart := (List.pairwise_cons.mp h.apart).2
  le := (List.forall_mem_cons.mp h.le).2
  ahead other hother := by
    have hbehind := (List.pairwise_cons.mp h.apart).1 other hother
    have hother := h.le other (List.mem_cons_of_mem range hother)
    have hrange := h.ahead range List.mem_cons_self
    omega

/-- The last piece. -/
theorem gapped_last (hstop : cursor ≤ span.stop) (hfree : ∀ i, cursor ≤ i → i < span.stop → ¬P i) :
    Gapped P cursor (if cursor < span.stop then [⟨cursor, span.stop⟩] else []) span.stop ∧
      ∀ piece ∈ if cursor < span.stop then [(⟨cursor, span.stop⟩ : Range)] else [],
        Between (fun i => ¬P i) piece.start piece.stop := by
  split_ifs with hlt
  · refine ⟨⟨Nat.le_refl _, .self P _, hlt, Nat.le_refl _, .self P _⟩, fun piece hpiece => ?_⟩
    rw [List.mem_singleton.mp hpiece]
    exact hfree
  · exact ⟨⟨hstop, fun i hi hi' => by omega⟩, fun _ hpiece => (List.not_mem_nil hpiece).elim⟩

/-- The pieces leave out the positions of the ranges and no others. -/
theorem gapped_subtractFrom (h : Ahead cursor ranges) (hstart : span.start ≤ cursor)
    (hstop : cursor ≤ span.stop)
    (hP : ∀ i, cursor ≤ i → i < span.stop → (P i ↔ Covered ranges i)) :
    Gapped P cursor (subtractFrom span cursor ranges) span.stop ∧
      ∀ piece ∈ subtractFrom span cursor ranges, Between (fun i => ¬P i) piece.start piece.stop := by
  induction ranges generalizing cursor with
  | nil =>
    apply gapped_last hstop
    intro i hi hlt hcovered
    obtain ⟨_, hrange, -⟩ := (hP i hi hlt).mp hcovered
    exact List.not_mem_nil hrange
  | cons range ranges ih =>
    rw [subtractFrom]
    obtain ⟨hbehind, -⟩ := List.pairwise_cons.mp h.apart
    have hrange := h.le range List.mem_cons_self
    have hahead := h.ahead range List.mem_cons_self
    -- no range is in front of this one
    have hfront : ∀ i, cursor ≤ i → i < span.stop → i < range.start → ¬P i := by
      intro i hi hlt hfront hcovered
      obtain ⟨other, hother, hle, -⟩ := (hP i hi hlt).mp hcovered
      rcases List.mem_cons.mp hother with rfl | hother
      · omega
      · have := hbehind other hother
        omega
    by_cases hlast : span.stop ≤ range.start
    · rw [if_pos hlast]
      exact gapped_last hstop fun i hi hlt => hfront i hi hlt (by omega)
    · rw [if_neg hlast]
      dsimp only
      have hnext := h.tail span
      generalize hcursor : max cursor (min span.stop range.stop) = next at hnext
      have hin : ∀ i, cursor ≤ i → range.start ≤ i → i < next → P i := by
        intro i hi hfrom hlt
        rw [hP i hi (by omega), covered_cons]
        exact .inl ⟨hfrom, by omega⟩
      obtain ⟨hgapped, hpieces⟩ := ih hnext (by omega) (by omega) (by
        intro i hi hlt
        rw [hP i (by omega) hlt, covered_cons, or_iff_right (by omega)])
      split_ifs with hlt
      · refine ⟨⟨Nat.le_refl _, .self P _, hlt, hgapped.behind (by dsimp only; omega) ?_⟩, ?_⟩
        · exact fun i hi hi' => hin i (by dsimp only at hi; omega) (by dsimp only at hi; omega) hi'
        · refine List.forall_mem_cons.mpr ⟨fun i hi hi' => ?_, hpieces⟩
          dsimp only at hi hi'
          exact hfront i hi (by omega) (by omega)
      · exact ⟨hgapped.behind (by omega) fun i hi hi' => hin i hi (by omega) hi', hpieces⟩

/-- The pieces start where the span or a range before them ends, and end likewise. -/
theorem ends_subtractFrom (h : Ahead cursor ranges) (hstart : span.start ≤ cursor) :
    ∀ piece ∈ subtractFrom span cursor ranges, piece.start < piece.stop ∧ piece.stop ≤ span.stop →
      (piece.start = cursor ∨ ∃ range ∈ ranges, piece.start = range.stop) ∧
        (piece.stop = span.stop ∨ ∃ range ∈ ranges, piece.stop = range.start) := by
  have hlast : ∀ {cursor piece}, piece ∈ (if cursor < span.stop then
      [(⟨cursor, span.stop⟩ : Range)] else []) → piece = ⟨cursor, span.stop⟩ := by
    intro cursor piece hpiece
    split_ifs at hpiece
    · exact List.mem_singleton.mp hpiece
    · exact (List.not_mem_nil hpiece).elim
  induction ranges generalizing cursor with
  | nil =>
    intro piece hpiece _
    rw [hlast hpiece]
    exact ⟨.inl rfl, .inl rfl⟩
  | cons range ranges ih =>
    intro piece hpiece hne
    rw [subtractFrom] at hpiece
    by_cases hbehind : span.stop ≤ range.start
    · rw [if_pos hbehind] at hpiece
      rw [hlast hpiece]
      exact ⟨.inl rfl, .inl rfl⟩
    · rw [if_neg hbehind] at hpiece
      have hnext := h.tail span
      have hahead := h.ahead range List.mem_cons_self
      rcases List.mem_append.mp hpiece with hpiece | hpiece
      · split_ifs at hpiece with hlt
        · rw [List.mem_singleton.mp hpiece]
          exact ⟨.inl rfl, .inr ⟨range, List.mem_cons_self, by dsimp only; omega⟩⟩
        · exact (List.not_mem_nil hpiece).elim
      · obtain ⟨hfrom, hupTo⟩ := ih hnext (by omega) piece hpiece hne
        constructor
        · rcases hfrom with heq | ⟨other, hother, heq⟩
          · exact .inr ⟨range, List.mem_cons_self, by omega⟩
          · exact .inr ⟨other, List.mem_cons_of_mem _ hother, heq⟩
        · rcases hupTo with heq | ⟨other, hother, heq⟩
          · exact .inl heq
          · exact .inr ⟨other, List.mem_cons_of_mem _ hother, heq⟩

/-- The ranges that end in front of a span are passed over. -/
theorem ahead_drop (hapart : ranges.Pairwise fun a b => a.stop < b.start)
    (hle : ∀ range ∈ ranges, range.start ≤ range.stop) (start : ℕ) :
    Ahead start (ranges.drop (firstOverlappingRangeIndex ranges start)) ∧
      ∀ i, start ≤ i →
        (Covered (ranges.drop (firstOverlappingRangeIndex ranges start)) i ↔ Covered ranges i) := by
  have hmem : ∀ range, range ∈ ranges.drop (firstOverlappingRangeIndex ranges start) ↔
      range ∈ ranges ∧ start < range.stop := by
    intro range
    rw [firstOverlappingRangeIndex, mem_drop_bisect, decide_eq_false_iff_not, not_le]
    apply hapart.imp_of_mem
    intro a b _ hb hab hstop
    have hstop : b.stop ≤ start := of_decide_eq_true hstop
    have := hle b hb
    exact decide_eq_true (by omega)
  refine ⟨⟨hapart.sublist (List.drop_sublist _ _), fun range hrange =>
    hle range ((hmem range).mp hrange).1, fun range hrange => ((hmem range).mp hrange).2⟩, ?_⟩
  intro i hi
  constructor
  · rintro ⟨range, hrange, hcovered⟩
    exact ⟨range, ((hmem range).mp hrange).1, hcovered⟩
  · rintro ⟨range, hrange, hfrom, hlt⟩
    exact ⟨range, (hmem range).mpr ⟨hrange, by omega⟩, hfrom, hlt⟩

/-- What `subtractRanges` leaves of a span. -/
theorem gapped_subtractRanges (hspan : span.start < span.stop)
    (hapart : ranges.Pairwise fun a b => a.stop < b.start)
    (hle : ∀ range ∈ ranges, range.start ≤ range.stop) :
    Gapped (Covered ranges) span.start (subtractRanges span ranges) span.stop ∧
      (∀ piece ∈ subtractRanges span ranges,
        Between (fun i => ¬Covered ranges i) piece.start piece.stop) ∧
      ∀ piece ∈ subtractRanges span ranges,
        (piece.start = span.start ∨ ∃ range ∈ ranges, piece.start = range.stop) ∧
          (piece.stop = span.stop ∨ ∃ range ∈ ranges, piece.stop = range.start) := by
  obtain ⟨hahead, hcovered⟩ := ahead_drop hapart hle span.start
  have hsub : ∀ {range}, range ∈ ranges.drop (firstOverlappingRangeIndex ranges span.start) →
      range ∈ ranges := fun hrange => List.mem_of_mem_drop hrange
  have hcases : subtractRanges span ranges =
      subtractFrom span span.start (ranges.drop (firstOverlappingRangeIndex ranges span.start)) := by
    rw [subtractRanges]
    cases ranges.drop (firstOverlappingRangeIndex ranges span.start) with
    | nil => exact (if_pos hspan).symm
    | cons firstRange rest =>
      dsimp only
      split_ifs with hbehind
      · rw [subtractFrom, if_pos hbehind, if_pos hspan]
      · rfl
  rw [hcases]
  obtain ⟨hgapped, hpieces⟩ := gapped_subtractFrom hahead (Nat.le_refl _) hspan.le
    (fun i hi _ => (hcovered i hi).symm)
  refine ⟨hgapped, hpieces, fun piece hpiece => ?_⟩
  obtain ⟨hfrom, hupTo⟩ := ends_subtractFrom hahead (Nat.le_refl _) piece hpiece
    (hgapped.bounds piece hpiece).2
  constructor
  · rcases hfrom with heq | ⟨range, hrange, heq⟩
    · exact .inl heq
    · exact .inr ⟨range, hsub hrange, heq⟩
  · rcases hupTo with heq | ⟨range, hrange, heq⟩
    · exact .inl heq
    · exact .inr ⟨range, hsub hrange, heq⟩

end Subtracting

section Splitting

variable {span : Range} {boundaries : List ℕ} {cursor : ℕ}

/-- A piece of a span, cut at boundaries only, with none inside of it. -/
structure PieceOf (boundaries : List ℕ) (span piece : Range) : Prop where
  start_le : span.start ≤ piece.start
  lt : piece.start < piece.stop
  le_stop : piece.stop ≤ span.stop
  start : piece.start = span.start ∨ piece.start ∈ boundaries
  stop : piece.stop = span.stop ∨ piece.stop ∈ boundaries
  uncut : ∀ boundary ∈ boundaries, ¬(piece.start < boundary ∧ boundary < piece.stop)

theorem pieceOf_self (hlt : cursor < span.stop) (hbehind : ∀ boundary ∈ boundaries, span.stop ≤ boundary) :
    PieceOf boundaries ⟨cursor, span.stop⟩ ⟨cursor, span.stop⟩ where
  start_le := Nat.le_refl _
  lt := hlt
  le_stop := Nat.le_refl _
  start := .inl rfl
  stop := .inl rfl
  uncut boundary hboundary hinside := by
    have := hbehind boundary hboundary
    dsimp only at hinside
    omega

theorem contiguous_splitSpanFrom (hsorted : boundaries.Pairwise (· < ·))
    (hahead : ∀ boundary ∈ boundaries, cursor < boundary) (hlt : cursor < span.stop) :
    Contiguous cursor (splitSpanFrom span cursor boundaries) span.stop ∧
      ∀ piece ∈ splitSpanFrom span cursor boundaries,
        PieceOf boundaries ⟨cursor, span.stop⟩ piece := by
  induction boundaries generalizing cursor with
  | nil =>
    exact ⟨⟨rfl, hlt, rfl⟩, List.forall_mem_singleton.mpr
      (pieceOf_self hlt fun _ h => (List.not_mem_nil h).elim)⟩
  | cons boundary boundaries ih =>
    obtain ⟨hfirst, hsorted⟩ := List.pairwise_cons.mp hsorted
    have hboundary := hahead boundary List.mem_cons_self
    rw [splitSpanFrom]
    split_ifs with hbehind
    · refine ⟨⟨rfl, hlt, rfl⟩, List.forall_mem_singleton.mpr (pieceOf_self hlt ?_)⟩
      refine List.forall_mem_cons.mpr ⟨hbehind, fun other hother => ?_⟩
      have := hfirst other hother
      omega
    · obtain ⟨hcontiguous, hpieces⟩ := ih hsorted hfirst (by omega)
      refine ⟨⟨rfl, hboundary, hcontiguous⟩, List.forall_mem_cons.mpr ⟨?_, fun piece hpiece => ?_⟩⟩
      · refine ⟨Nat.le_refl _, hboundary, ?_, .inl rfl, .inr List.mem_cons_self, ?_⟩
        · dsimp only
          omega
        · refine List.forall_mem_cons.mpr ⟨fun hinside => hinside.2.false, fun other hother hinside => ?_⟩
          have := hfirst other hother
          dsimp only at hinside
          omega
      · have hof := hpieces piece hpiece
        have hle : boundary ≤ piece.start := hof.start_le
        refine ⟨hboundary.le.trans hle, hof.lt, hof.le_stop, ?_, ?_, ?_⟩
        · rcases hof.start with heq | hmem
          · exact .inr (heq ▸ List.mem_cons_self)
          · exact .inr (List.mem_cons_of_mem _ hmem)
        · exact hof.stop.imp_right (List.mem_cons_of_mem _)
        · exact List.forall_mem_cons.mpr ⟨fun hinside => by omega, hof.uncut⟩

/-- What `splitAtBoundaries` makes of a span. -/
theorem contiguous_splitAtBoundaries (hspan : span.start < span.stop)
    (hsorted : boundaries.Pairwise (· < ·)) :
    Contiguous span.start (splitAtBoundaries span boundaries) span.stop ∧
      ∀ piece ∈ splitAtBoundaries span boundaries, PieceOf boundaries span piece := by
  obtain ⟨low, hlow⟩ : ∃ low, low = bisect (fun middle => boundaries[middle]?.any fun boundary =>
    boundary ≤ span.start) 0 boundaries.length := ⟨_, rfl⟩
  have hmem : ∀ boundary, boundary ∈ boundaries.drop low ↔
      boundary ∈ boundaries ∧ span.start < boundary := by
    intro boundary
    rw [hlow, mem_drop_bisect, decide_eq_false_iff_not, not_le]
    apply hsorted.imp
    intro a b hab hb
    have hb : b ≤ span.start := of_decide_eq_true hb
    exact decide_eq_true (by omega)
  have hcases : splitAtBoundaries span boundaries =
      splitSpanFrom span span.start (boundaries.drop low) := by
    rw [splitAtBoundaries, ← hlow]
    cases boundaries.drop low with
    | nil => rfl
    | cons boundary rest =>
      show (if span.stop ≤ boundary then [span] else _) = _
      split_ifs with hbehind
      · rw [splitSpanFrom, if_pos hbehind]
      · rfl
  rw [hcases]
  obtain ⟨hcontiguous, hpieces⟩ := @contiguous_splitSpanFrom span _ _
    (hsorted.sublist (List.drop_sublist low boundaries))
    (fun boundary hboundary => ((hmem boundary).mp hboundary).2) hspan
  refine ⟨hcontiguous, fun piece hpiece => ?_⟩
  have hof := hpieces piece hpiece
  refine ⟨hof.start_le, hof.lt, hof.le_stop, hof.start.imp_right List.mem_of_mem_drop,
    hof.stop.imp_right List.mem_of_mem_drop, fun boundary hboundary hinside => ?_⟩
  -- a boundary that is passed over is in front of the span
  have hle : span.start ≤ piece.start := hof.start_le
  exact hof.uncut boundary ((hmem boundary).mpr ⟨hboundary, by omega⟩) hinside

end Splitting

section Empty

variable {span : Range}

theorem subtractFrom_eq_nil {cursor : ℕ} (hstart : span.start ≤ cursor) (hstop : span.stop ≤ cursor)
    (ranges : List Range) : subtractFrom span cursor ranges = [] := by
  induction ranges generalizing cursor with
  | nil => exact if_neg (by omega)
  | cons range ranges ih =>
    rw [subtractFrom]
    split_ifs with hbehind hlt
    · omega
    · rfl
    · have hfirst : ¬cursor < max span.start range.start := by omega
      dsimp only
      rw [if_neg hfirst]
      exact ih (hstart.trans (Nat.le_max_left _ _)) (hstop.trans (Nat.le_max_left _ _))

theorem subtractRanges_empty (hspan : span.stop ≤ span.start) (ranges : List Range) :
    ∀ piece ∈ subtractRanges span ranges, piece = span := by
  rw [subtractRanges]
  cases ranges.drop (firstOverlappingRangeIndex ranges span.start) with
  | nil => exact List.forall_mem_singleton.mpr rfl
  | cons firstRange rest =>
    dsimp only
    split_ifs
    · exact List.forall_mem_singleton.mpr rfl
    · rw [subtractFrom_eq_nil (Nat.le_refl _) hspan]
      exact fun _ h => (List.not_mem_nil h).elim

theorem splitAtBoundaries_empty (hspan : span.stop ≤ span.start) {boundaries : List ℕ}
    (hsorted : boundaries.Pairwise (· < ·)) : splitAtBoundaries span boundaries = [span] := by
  rw [splitAtBoundaries]
  cases hdrop : boundaries.drop (bisect (fun middle => boundaries[middle]?.any fun boundary =>
      boundary ≤ span.start) 0 boundaries.length) with
  | nil => rfl
  | cons boundary rest =>
    have hmem : boundary ∈ boundaries.drop (bisect (fun middle => boundaries[middle]?.any
        fun boundary => boundary ≤ span.start) 0 boundaries.length) := hdrop ▸ List.mem_cons_self
    rw [mem_drop_bisect (hsorted.imp fun hab hb =>
      decide_eq_true (hab.le.trans (of_decide_eq_true hb))), decide_eq_false_iff_not, not_le] at hmem
    exact if_pos (hspan.trans hmem.2.le)

end Empty

theorem mem_sortedSet {numbers : List ℕ} {n : ℕ} : n ∈ sortedSet numbers ↔ n ∈ numbers := by
  rw [sortedSet, List.mem_insertionSort, List.mem_dedup]

theorem pairwise_sortedSet (numbers : List ℕ) : (sortedSet numbers).Pairwise (· < ·) := by
  have hle := List.pairwise_insertionSort (· ≤ ·) numbers.dedup
  have hne : (sortedSet numbers).Nodup :=
    (List.perm_insertionSort (· ≤ ·) numbers.dedup).nodup_iff.mpr numbers.nodup_dedup
  exact (hle.and hne).imp fun h => Nat.lt_of_le_of_ne h.1 h.2

section Formatting

variable {ir : MarkdownIR} {options : RenderOptions}

theorem mem_annotationBoundaries {n : ℕ} : n ∈ annotationBoundaries ir options ↔
    ∃ span ∈ annotated ir options, n = span.start ∨ n = span.stop := by
  rw [annotationBoundaries, mem_sortedSet, List.mem_flatMap]
  apply exists_congr
  intro span
  rw [List.mem_cons, List.mem_singleton]

theorem pairwise_annotationBoundaries (ir : MarkdownIR) (options : RenderOptions) :
    (annotationBoundaries ir options).Pairwise (· < ·) := pairwise_sortedSet _

/-- Some dominant annotation is at a position. -/
def Dominated (ir : MarkdownIR) (options : RenderOptions) (i : ℕ) : Prop :=
  ∃ span ∈ dominantAnnotations ir options, span.start ≤ i ∧ i < span.stop

/-- The pieces of a span of formatting are what is not dominated, cut at the annotations. -/
theorem formatPieces_spec (h : ∀ span ∈ annotated ir options, span.start ≤ span.stop) {span : Range}
    (hspan : span.start < span.stop) :
    Gapped (Dominated ir options) span.start (formatPieces ir options span) span.stop ∧
      ∀ piece ∈ formatPieces ir options span,
        PieceOf (annotationBoundaries ir options) span piece ∧
          Between (fun i => ¬Dominated ir options i) piece.start piece.stop := by
  have hmem : ∀ {range}, range ∈ (dominantAnnotations ir options).map MarkdownAnnotationSpan.bounds →
      ∃ span ∈ annotated ir options, range = span.bounds := by
    intro range hrange
    obtain ⟨span, hspan, rfl⟩ := List.mem_map.mp hrange
    exact ⟨span, List.mem_of_mem_filter hspan, rfl⟩
  -- Merging needs ordered ranges: this is where `h` is used.
  have hmerged : Merged ((dominantAnnotations ir options).map MarkdownAnnotationSpan.bounds)
      (dominantAnnotationRanges ir options) := by
    apply merged_mergeRanges
    intro range hrange
    obtain ⟨span, hspan, rfl⟩ := hmem hrange
    exact h span hspan
  have hdominated : Covered (dominantAnnotationRanges ir options) = Dominated ir options := by
    funext i
    rw [hmerged.covered]
    exact propext (by simp [Covered, Dominated, MarkdownAnnotationSpan.bounds])
  obtain ⟨hgapped, hfree, hends⟩ := gapped_subtractRanges hspan hmerged.apart hmerged.le
  rw [hdominated] at hgapped hfree
  have hpieces := fun piece hpiece => contiguous_splitAtBoundaries
    (hgapped.bounds piece hpiece).2.1 (pairwise_annotationBoundaries ir options)
  refine ⟨hgapped.flatMap fun piece hpiece => (hpieces piece hpiece).1, fun piece hpiece => ?_⟩
  obtain ⟨whole, hwhole, hpiece⟩ := List.mem_flatMap.mp hpiece
  have hof := (hpieces whole hwhole).2 piece hpiece
  obtain ⟨hstart, -, hstop⟩ := hgapped.bounds whole hwhole
  obtain ⟨hfrom, hupTo⟩ := hends whole hwhole
  have hwholeStart := hof.start_le
  have hwholeStop := hof.le_stop
  refine ⟨⟨hstart.trans hof.start_le, hof.lt, hof.le_stop.trans hstop, ?_, ?_, hof.uncut⟩, ?_⟩
  · -- A piece's end is a cut or an end of the part left by the subtraction, a range's end.
    rcases hof.start with heq | hboundary
    · rw [heq]
      refine hfrom.imp_right ?_
      rintro ⟨range, hrange, heq⟩
      obtain ⟨other, hother, hstop⟩ := hmerged.stop range hrange
      obtain ⟨span, hspan, rfl⟩ := hmem hother
      exact mem_annotationBoundaries.mpr ⟨span, hspan, .inr (heq.trans hstop)⟩
    · exact .inr hboundary
  · rcases hof.stop with heq | hboundary
    · rw [heq]
      refine hupTo.imp_right ?_
      rintro ⟨range, hrange, heq⟩
      obtain ⟨other, hother, hstart⟩ := hmerged.start range hrange
      obtain ⟨span, hspan, rfl⟩ := hmem hother
      exact mem_annotationBoundaries.mpr ⟨span, hspan, .inl (heq.trans hstart)⟩
    · exact .inr hboundary
  · exact fun i hi hlt => hfree whole hwhole i (by omega) (by omega)

/-- A span of no width is its only piece. -/
theorem formatPieces_empty {span : Range} (hspan : span.stop ≤ span.start) :
    ∀ piece ∈ formatPieces ir options span, piece = span := by
  intro piece hpiece
  obtain ⟨whole, hwhole, hsplit⟩ := List.mem_flatMap.mp hpiece
  obtain rfl := subtractRanges_empty hspan _ whole hwhole
  rw [splitAtBoundaries_empty hspan (pairwise_annotationBoundaries ir options)] at hsplit
  exact List.mem_singleton.mp hsplit

/-- The pieces are at the positions of the span that no dominant annotation is at. -/
theorem covered_formatPieces (h : ∀ span ∈ annotated ir options, span.start ≤ span.stop)
    (span : Range) (i : ℕ) : Covered (formatPieces ir options span) i ↔
      (span.start ≤ i ∧ i < span.stop) ∧ ¬Dominated ir options i := by
  rcases Nat.lt_or_ge span.start span.stop with hspan | hspan
  · obtain ⟨hgapped, hpieces⟩ := formatPieces_spec h hspan
    constructor
    · rintro ⟨piece, hpiece, hstart, hstop⟩
      obtain ⟨hof, hfree⟩ := hpieces piece hpiece
      exact ⟨⟨hof.start_le.trans hstart, hstop.trans_le hof.le_stop⟩, hfree i hstart hstop⟩
    · rintro ⟨⟨hstart, hstop⟩, hfree⟩
      exact hgapped.covered hstart hstop hfree
  · constructor
    · rintro ⟨piece, hpiece, hstart, hstop⟩
      rw [formatPieces_empty hspan piece hpiece] at hstart hstop
      omega
    · rintro ⟨⟨hstart, hstop⟩, -⟩
      omega

/-- One piece is at such a position, and none at another. -/
theorem countP_formatPieces (h : ∀ span ∈ annotated ir options, span.start ≤ span.stop)
    (span : Range) {i : ℕ} (hfree : ¬Dominated ir options i) :
    (formatPieces ir options span).countP (fun piece => piece.start ≤ i ∧ i < piece.stop) =
      if span.start ≤ i ∧ i < span.stop then 1 else 0 := by
  have hcovered := covered_formatPieces h span i
  split_ifs with hat
  · have hpos : 0 < (formatPieces ir options span).countP
        (fun piece => piece.start ≤ i ∧ i < piece.stop) := by
      obtain ⟨piece, hpiece, hcovers⟩ := hcovered.mpr ⟨hat, hfree⟩
      exact List.countP_pos_iff.mpr ⟨piece, hpiece, decide_eq_true hcovers⟩
    have hle := (formatPieces_spec h (hat.1.trans_lt hat.2)).1.countP_le_one i
    omega
  · rw [List.countP_eq_zero]
    intro piece hpiece hcovers
    exact hat (hcovered.mp ⟨piece, hpiece, of_decide_eq_true hcovers⟩).1

/-- How many spans of a style are at a position. -/
def coverings (spans : List MarkdownStyleSpan) (i : ℕ) (style : MarkdownStyle)
    (language : Option Utf16) : ℕ :=
  spans.countP fun span => span.start ≤ i ∧ i < span.stop ∧ span.style = style ∧
    span.language = language

/-- Counting what is made of the elements that are kept, if each makes one that counts as it does. -/
theorem countP_flatMap_filter {σ : Type} {p kept : σ → Bool} {f : σ → List σ} {l : List σ}
    (hkept : ∀ x ∈ l, kept x = true → (f x).countP p = if p x then 1 else 0)
    (hleft : ∀ x ∈ l, kept x = false → p x = false) :
    ((l.filter kept).flatMap f).countP p = l.countP p := by
  induction l with
  | nil => rfl
  | cons x l ih =>
    obtain ⟨hkeptx, hkept⟩ := List.forall_mem_cons.mp hkept
    obtain ⟨hleftx, hleft⟩ := List.forall_mem_cons.mp hleft
    rw [List.countP_cons]
    cases hx : kept x with
    | true =>
      rw [List.filter_cons_of_pos hx, List.flatMap_cons, List.countP_append, hkeptx hx,
        ih hkept hleft]
      exact Nat.add_comm _ _
    | false =>
      rw [List.filter_cons_of_neg (by simp [hx]), ih hkept hleft, hleftx hx]
      rfl

/-- Where a style is shown, it is shown once for each span. -/
theorem coverings_shownStyles (h : ∀ span ∈ annotated ir options, span.start ≤ span.stop) {i : ℕ}
    {style : MarkdownStyle} (language : Option Utf16)
    (hmarker : (options.styleMarkers style).isSome = true)
    (hshown : style ∈ STRUCTURAL_STYLES ∨ ¬Dominated ir options i) :
    coverings (shownStyles ir options) i style language = coverings ir.styles i style language := by
  unfold coverings shownStyles styled sortStyleSpans
  rw [List.countP_filter, List.Perm.countP_eq _ (List.perm_insertionSort _ _)]
  have hshownOnly : ∀ span : MarkdownStyleSpan,
      (decide (span.start ≤ i ∧ i < span.stop ∧ span.style = style ∧ span.language = language) &&
        decide (span.start ≠ span.stop)) =
      decide (span.start ≤ i ∧ i < span.stop ∧ span.style = style ∧ span.language = language) := by
    intro span
    rw [Bool.and_eq_left_iff_imp]
    simp only [decide_eq_true_eq]
    omega
  simp only [hshownOnly]
  apply countP_flatMap_filter
  · intro span _ _
    by_cases hcontainer : span.style ∈ STRUCTURAL_STYLES
    · rw [if_pos hcontainer, List.countP_singleton]
    · rw [if_neg hcontainer, List.countP_map]
      by_cases hsame : span.style = style ∧ span.language = language
      · obtain ⟨rfl, rfl⟩ := hsame
        have hcount := countP_formatPieces h span.bounds (hshown.resolve_left hcontainer)
        refine (List.countP_congr fun piece _ => ?_).trans (hcount.trans ?_)
        · simp
        · exact if_congr (by simp [MarkdownStyleSpan.bounds]) rfl rfl
      · have hnot : ∀ range : Range, ¬(range.start ≤ i ∧ i < range.stop ∧ span.style = style ∧
            span.language = language) := fun _ hall => hsame hall.2.2
        rw [if_neg (by simpa [MarkdownStyleSpan.bounds] using hnot span.bounds), List.countP_eq_zero]
        intro piece _ hcovers
        exact hnot piece (of_decide_eq_true hcovers)
  · intro span _ hnone
    rw [decide_eq_false_iff_not]
    rintro ⟨-, -, rfl, -⟩
    rw [hmarker] at hnone
    cases hnone

theorem covers_shownStyles (hannotated : ∀ span ∈ annotated ir options, span.start ≤ span.stop)
    (i : ℕ) (style : MarkdownStyle) (language : Option Utf16) :
    Covers (shownStyles ir options) i style language ↔
      (options.styleMarkers style).isSome ∧ Covers ir.styles i style language ∧
        (style ∈ STRUCTURAL_STYLES ∨ ¬Dominated ir options i) := by
  have hmem : ∀ {span}, span ∈ shownStyles ir options ↔ span.start ≠ span.stop ∧
      ∃ original ∈ ir.styles, (options.styleMarkers original.style).isSome ∧
        span ∈ if original.style ∈ STRUCTURAL_STYLES then [original]
          else (formatPieces ir options original.bounds).map fun piece =>
            { original with start := piece.start, stop := piece.stop } := by
    intro span
    rw [shownStyles, List.mem_filter, styled, sortStyleSpans, List.mem_insertionSort,
      List.mem_flatMap, decide_eq_true_eq, and_comm]
    simp only [List.mem_filter, and_assoc]
  constructor
  · rintro ⟨span, hspan, hstart, hstop, rfl, rfl⟩
    obtain ⟨-, original, horiginal, hmarker, hshown⟩ := hmem.mp hspan
    split_ifs at hshown with hcontainer
    · obtain rfl := List.mem_singleton.mp hshown
      exact ⟨hmarker, ⟨span, horiginal, hstart, hstop, rfl, rfl⟩, .inl hcontainer⟩
    · obtain ⟨piece, hpiece, rfl⟩ := List.mem_map.mp hshown
      obtain ⟨⟨hfrom, hlt⟩, hfree⟩ := (covered_formatPieces hannotated original.bounds i).mp
        ⟨piece, hpiece, hstart, hstop⟩
      exact ⟨hmarker, ⟨original, horiginal, hfrom, hlt, rfl, rfl⟩, .inr hfree⟩
  · rintro ⟨hmarker, ⟨original, horiginal, hstart, hstop, rfl, rfl⟩, hshown⟩
    by_cases hcontainer : original.style ∈ STRUCTURAL_STYLES
    · refine ⟨original, hmem.mpr ⟨by omega, original, horiginal, hmarker, ?_⟩, hstart, hstop, rfl, rfl⟩
      rw [if_pos hcontainer]
      exact List.mem_singleton_self _
    · obtain ⟨piece, hpiece, hfrom, hlt⟩ := (covered_formatPieces hannotated original.bounds i).mpr
        ⟨⟨hstart, hstop⟩, hshown.resolve_left hcontainer⟩
      refine ⟨{ original with start := piece.start, stop := piece.stop },
        hmem.mpr ⟨?_, original, horiginal, hmarker, ?_⟩, hfrom, hlt, rfl, rfl⟩
      · dsimp only
        omega
      · rw [if_neg hcontainer]
        exact List.mem_map.mpr ⟨piece, hpiece, rfl⟩

/-- A marker of a style is around a position exactly where the style is, except that dominant
annotations have only containers around them, and there once for each span of the style. -/
theorem shownStyles_covers (ir : MarkdownIR) (options : RenderOptions)
    (h : ∀ span ∈ ir.annotations.getD [], span.start ≤ span.stop) (i : ℕ) (style : MarkdownStyle)
    (language : Option Utf16) :
    (Covers (shownStyles ir options) i style language ↔
      (options.styleMarkers style).isSome ∧ Covers ir.styles i style language ∧
        (style ∈ STRUCTURAL_STYLES ∨ ¬Dominated ir options i)) ∧
    ((options.styleMarkers style).isSome = true →
      style ∈ STRUCTURAL_STYLES ∨ ¬Dominated ir options i →
        coverings (shownStyles ir options) i style language =
          coverings ir.styles i style language) := by
  have hannotated : ∀ span ∈ annotated ir options, span.start ≤ span.stop := fun span hspan =>
    h span (List.mem_of_mem_filter ((List.mem_insertionSort _).mp hspan))
  exact ⟨covers_shownStyles hannotated i style language,
    fun hmarker hshown => coverings_shownStyles hannotated language hmarker hshown⟩

end Formatting

/-- The middle of a bold text is a role header. -/
theorem shownStyles_covers_sample :
    ¬Covers (shownStyles ⟨ofString "abc", [⟨0, 3, .bold, none⟩], [],
        some [⟨1, 2, .angleRoleHeader, .user⟩]⟩
      ⟨fun _ => some ⟨.text [], []⟩, some ⟨.text [], [], true⟩, id, none⟩) 1 .bold none := by
  intro h
  obtain ⟨-, -, hcontainer | hfree⟩ := (shownStyles_covers _ _ (by decide) 1 .bold none).1.mp h
  · exact absurd hcontainer (by decide)
  · exact hfree ⟨⟨1, 2, .angleRoleHeader, .user⟩, by decide, by decide, by decide⟩

end Flashclaw.MarkdownCore
