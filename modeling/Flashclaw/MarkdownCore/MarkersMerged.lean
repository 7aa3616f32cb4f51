import Flashclaw.MarkdownCore.MarkersNested

/-!
# Markers of merged spans

`mergeStyleSpans` makes one span of two that touch.  It may so make a span that crosses another one
of a nested family, and then `renderMarkdownWithMarkers` leaves a marker open.
-/

namespace Flashclaw.MarkdownCore

open Utf16 Ranges Nesting

section Merging

variable {spans : List MarkdownStyleSpan} {length : ℕ}

theorem bounded_mergeInto {previous : MarkdownStyleSpan}
    (h : ∀ span ∈ previous :: spans, span.start ≤ span.stop ∧ span.stop ≤ length) :
    ∀ span ∈ mergeInto mergeStyle previous spans, span.start ≤ span.stop ∧ span.stop ≤ length := by
  induction spans generalizing previous with
  | nil => exact h
  | cons span spans ih =>
    obtain ⟨hprevious, hrest⟩ := List.forall_mem_cons.mp h
    obtain ⟨hspan, hspans⟩ := List.forall_mem_cons.mp hrest
    rw [mergeInto]
    cases hmerge : mergeStyle previous span with
    | none => exact List.forall_mem_cons.mpr ⟨hprevious, ih hrest⟩
    | some merged =>
      rw [mergeStyle] at hmerge
      split_ifs at hmerge
      obtain rfl := Option.some.inj hmerge
      apply ih
      refine List.forall_mem_cons.mpr ⟨?_, hspans⟩
      dsimp only
      omega

theorem bounded_mergeStyleSpans
    (h : ∀ span ∈ spans, span.start ≤ span.stop ∧ span.stop ≤ length) :
    ∀ span ∈ mergeStyleSpans spans, span.start ≤ span.stop ∧ span.stop ≤ length := by
  have hsorted : ∀ span ∈ spans.insertionSort styleBefore,
      span.start ≤ span.stop ∧ span.stop ≤ length :=
    fun span hspan => h span ((List.mem_insertionSort styleBefore).mp hspan)
  rw [mergeStyleSpans]
  cases hspans : spans.insertionSort styleBefore with
  | nil => exact fun _ hspan => (List.not_mem_nil hspan).elim
  | cons span rest => exact bounded_mergeInto (hspans ▸ hsorted)

end Merging

section Plain

variable (ir : MarkdownIR) (options : RenderOptions)

/-- The markers of the spans of a text, each around its whole span. -/
def spanMarks : List (Mark CodeUnit) :=
  (ir.links.filter fun link => link.start ≠ link.stop).filterMap (fun link =>
    options.buildLink.bind fun buildLink =>
      (buildLink link ir.text (getMarkdownLinkOrigin link)).map fun rendered =>
        ⟨link.bounds, rendered.opening, rendered.close⟩) ++
  (ir.styles.filter fun span => span.start ≠ span.stop).filterMap fun span =>
    (options.styleMarkers span.style).map fun marker =>
      ⟨span.bounds, marker.opening.of span, marker.close⟩

/-- The spans that get markers. -/
def markedRanges : List Range :=
  (ir.links.filter fun link => (options.buildLink.bind fun buildLink =>
    buildLink link ir.text (getMarkdownLinkOrigin link)).isSome).map MarkdownLinkSpan.bounds ++
  (ir.styles.filter fun span => (options.styleMarkers span.style).isSome).map
    MarkdownStyleSpan.bounds

variable {ir options}

/-- Without annotations a span is one piece. -/
theorem formatPieces_plain (h : ir.annotations = none) (span : Range) :
    formatPieces ir options span = [span] := by
  have hannotated : annotated ir options = [] := by
    rw [annotated, h]
    rfl
  have hboundaries : annotationBoundaries ir options = [] := by
    rw [annotationBoundaries, hannotated]
    rfl
  have hdominant : dominantAnnotationRanges ir options = [] := by
    rw [dominantAnnotationRanges, dominantAnnotations, hannotated]
    rfl
  have hwhole : subtractRanges span [] = [span] := by rw [subtractRanges, List.drop_nil]
  have huncut : splitAtBoundaries span [] = [span] := by rw [splitAtBoundaries, List.drop_nil]
  rw [formatPieces, hdominant, hboundaries, hwhole, List.flatMap_singleton, huncut]

/-- Without annotations the markers are those of the spans. -/
theorem marks_perm (h : ir.annotations = none) (hlinks : KeepsRange options) :
    (marks ir options).Perm (spanMarks ir options) := by
  have hannotated : annotationMarks ir options = [] := by
    rw [annotationMarks, shownAnnotations, annotated, h]
    rfl
  rw [marks, spanMarks, hannotated, List.nil_append]
  apply List.Perm.append
  · apply List.Perm.of_eq
    have hpieces : linkPieces ir options = ir.links := by
      rw [linkPieces]
      simp only [formatPieces_plain h, List.map_singleton]
      exact List.flatMap_singleton' ir.links
    rw [linkMarks, renderedLinks, hpieces]
    cases hbuild : options.buildLink with
    | none => simp
    | some buildLink =>
      rw [List.map_filterMap]
      apply List.filterMap_congr
      intro link _
      dsimp only [Option.bind_some]
      cases hrendered : buildLink link ir.text (getMarkdownLinkOrigin link) with
      | none => rfl
      | some rendered =>
        rw [Option.map_some, Option.map_some, hlinks buildLink hbuild _ _ _ rendered hrendered]
  · have hstyled : styled ir options =
        sortStyleSpans (ir.styles.filter fun span => (options.styleMarkers span.style).isSome) := by
      rw [styled]
      congr 1
      refine (List.flatMap_congr fun span _ => ?_).trans (List.flatMap_singleton' _)
      split_ifs
      · rfl
      · rw [formatPieces_plain h]
        rfl
    have hsorted : (shownStyles ir options).Perm ((ir.styles.filter fun span =>
        (options.styleMarkers span.style).isSome).filter fun span => span.start ≠ span.stop) := by
      rw [shownStyles, hstyled]
      exact (List.perm_insertionSort styleSpanFirst _).filter _
    rw [styleMarks]
    refine (hsorted.filterMap _).trans (List.Perm.of_eq ?_)
    -- a span without a marker has no mark
    rw [List.filter_comm, List.filterMap_filter]
    apply List.filterMap_congr
    intro span _
    cases options.styleMarkers span.style with
    | none => rfl
    | some marker => rfl

theorem mem_markedRanges {range : Range} :
    (∃ mark ∈ spanMarks ir options, mark.toRange = range) ↔
      range.start ≠ range.stop ∧ range ∈ markedRanges ir options := by
  rw [markedRanges, List.mem_append, List.mem_map, List.mem_map]
  constructor
  · rintro ⟨mark, hmark, rfl⟩
    rcases List.mem_append.mp hmark with hmark | hmark
    · obtain ⟨link, hlink, hbuilt⟩ := List.mem_filterMap.mp hmark
      obtain ⟨hlink, hne⟩ := List.mem_filter.mp hlink
      obtain ⟨buildLink, hbuild, hmade⟩ := Option.bind_eq_some_iff.mp hbuilt
      obtain ⟨rendered, haccepted, rfl⟩ := Option.map_eq_some_iff.mp hmade
      refine ⟨of_decide_eq_true hne, .inl ⟨link, List.mem_filter.mpr ⟨hlink, ?_⟩, rfl⟩⟩
      rw [hbuild, Option.bind_some, haccepted]
      rfl
    · obtain ⟨span, hspan, hmade⟩ := List.mem_filterMap.mp hmark
      obtain ⟨hspan, hne⟩ := List.mem_filter.mp hspan
      obtain ⟨marker, hmarker, rfl⟩ := Option.map_eq_some_iff.mp hmade
      refine ⟨of_decide_eq_true hne, .inr ⟨span, List.mem_filter.mpr ⟨hspan, ?_⟩, rfl⟩⟩
      rw [hmarker]
      rfl
  · rintro ⟨hne, ⟨link, hlink, rfl⟩ | ⟨span, hspan, rfl⟩⟩
    · obtain ⟨hlink, hsome⟩ := List.mem_filter.mp hlink
      obtain ⟨rendered, hrendered⟩ := Option.isSome_iff_exists.mp hsome
      obtain ⟨buildLink, hbuild, hrendered⟩ := Option.bind_eq_some_iff.mp hrendered
      refine ⟨⟨link.bounds, rendered.opening, rendered.close⟩, List.mem_append_left _
        (List.mem_filterMap.mpr ⟨link, List.mem_filter.mpr ⟨hlink, decide_eq_true hne⟩, ?_⟩), rfl⟩
      rw [hbuild, Option.bind_some, hrendered]
      rfl
    · obtain ⟨hspan, hsome⟩ := List.mem_filter.mp hspan
      obtain ⟨marker, hmarker⟩ := Option.isSome_iff_exists.mp hsome
      refine ⟨⟨span.bounds, marker.opening.of span, marker.close⟩, List.mem_append_right _
        (List.mem_filterMap.mpr ⟨span, List.mem_filter.mpr ⟨hspan, decide_eq_true hne⟩, ?_⟩), rfl⟩
      rw [hmarker]
      rfl

/-- An empty span crosses nothing. -/
theorem laminar_spanMarks : Laminar (spanMarks ir options) ↔
    ∀ a ∈ markedRanges ir options, ∀ b ∈ markedRanges ir options, ¬a.Crosses b := by
  constructor
  · intro h a ha b hb hcrosses
    have hcrosses' := hcrosses
    obtain ⟨hstart, hinside, hstop⟩ := hcrosses'
    obtain ⟨mark, hmark, rfl⟩ := mem_markedRanges.mpr ⟨(by omega : a.start ≠ a.stop), ha⟩
    obtain ⟨mark', hmark', rfl⟩ := mem_markedRanges.mpr ⟨(by omega : b.start ≠ b.stop), hb⟩
    exact h mark hmark mark' hmark' hcrosses
  · intro h a ha b hb
    exact h _ (mem_markedRanges.mp ⟨a, ha, rfl⟩).2 _ (mem_markedRanges.mp ⟨b, hb, rfl⟩).2

end Plain

/-- A text whose spans of styles were merged, without annotations. -/
def mergedIR (text : Utf16) (spans : List MarkdownStyleSpan) (links : List MarkdownLinkSpan) :
    MarkdownIR := ⟨text, mergeStyleSpans spans, links, none⟩

/-- Every marker of a text is written once in front of its span and once behind it, one inside or
behind the other. -/
def Balanced (ir : MarkdownIR) (options : RenderOptions) : Prop :=
  ∃ opened, opened.Perm (spanMarks ir options) ∧
    Nested (shownText ir options) 0 ir.text.length opened (renderMarkdownWithMarkers ir options)

/-- Spans of styles and links in a text. -/
structure Family (text : Utf16) (spans : List MarkdownStyleSpan) (links : List MarkdownLinkSpan) :
    Prop where
  spans : ∀ span ∈ spans, span.start ≤ span.stop ∧ span.stop ≤ text.length
  links : ∀ link ∈ links, link.start ≤ link.stop ∧ link.stop ≤ text.length

/-- No two spans cross. -/
def NestedFamily (spans : List MarkdownStyleSpan) (links : List MarkdownLinkSpan) : Prop :=
  ∀ a ∈ spans.map MarkdownStyleSpan.bounds ++ links.map MarkdownLinkSpan.bounds,
    ∀ b ∈ spans.map MarkdownStyleSpan.bounds ++ links.map MarkdownLinkSpan.bounds, ¬a.Crosses b

section Family

variable {text : Utf16} {spans : List MarkdownStyleSpan} {links : List MarkdownLinkSpan}
  {options : RenderOptions}

theorem Family.bounded (h : Family text spans links) : Bounded (mergedIR text spans links) where
  styles := bounded_mergeStyleSpans h.spans
  links := h.links
  annotations _ hspan := (List.not_mem_nil hspan).elim

theorem balanced_iff (h : Family text spans links) (hlinks : KeepsRange options) :
    Balanced (mergedIR text spans links) options ↔
      Laminar (spanMarks (mergedIR text spans links) options) := by
  have hmarks := marks_perm (show (mergedIR text spans links).annotations = none from rfl) hlinks
  constructor
  · rintro ⟨opened, hperm, hnested⟩ a ha b hb
    exact hnested.laminar a (hperm.mem_iff.mpr ha) b (hperm.mem_iff.mpr hb)
  · intro hlaminar
    have hlaminar' : Laminar (marks (mergedIR text spans links) options) := fun a ha b hb =>
      hlaminar a (hmarks.mem_iff.mp ha) b (hmarks.mem_iff.mp hb)
    obtain ⟨-, hpending⟩ := renderRun_openMarks h.bounded hlinks
    rw [(openMarks_eq_nil_iff h.bounded hlinks).mpr hlaminar',
      ← renderMarkdownWithMarkers_eq h.bounded hlinks] at hpending
    cases hpending with
    | done hnested => exact ⟨_, (openedMarks_perm _ options).trans hmarks, hnested⟩

/-- The markers are balanced exactly when no two of the merged spans and links that get markers
cross. -/
theorem renderMarkdownWithMarkers_balanced_iff (h : Family text spans links)
    (hlinks : KeepsRange options) : Balanced (mergedIR text spans links) options ↔
      ∀ a ∈ markedRanges (mergedIR text spans links) options,
        ∀ b ∈ markedRanges (mergedIR text spans links) options, ¬a.Crosses b := by
  rw [balanced_iff h hlinks]
  exact laminar_spanMarks

end Family

/-- A bold text, and an italic one behind it that begins with a bold one. -/
def touchingSpans : List MarkdownStyleSpan :=
  [⟨0, 2, .bold, none⟩, ⟨2, 6, .italic, none⟩, ⟨2, 4, .bold, none⟩]

def boldMarkers : RenderOptions where
  styleMarkers
    | .bold => some ⟨.text (ofString "<b>"), ofString "</b>"⟩
    | .italic => some ⟨.text (ofString "<i>"), ofString "</i>"⟩
    | _ => none
  annotationMarker := none
  escapeText := id
  buildLink := some fun link _ _ => some ⟨link.start, link.stop, ofString "<a>", ofString "</a>"⟩

theorem keepsRange_boldMarkers : KeepsRange boldMarkers := by
  rintro buildLink ⟨⟩ link text origin rendered ⟨⟩
  rfl

example : renderMarkdownWithMarkers (mergedIR (ofString "abcdef") touchingSpans []) boldMarkers =
    ofString "<b>ab<i>cdef</i>" := by decide +kernel

/-- Two italic texts in a bold one are made one, with a link in it. -/
theorem renderMarkdownWithMarkers_balanced_iff_sample :
    Balanced (mergedIR (ofString "abcdef")
      [⟨0, 6, .bold, none⟩, ⟨2, 4, .italic, none⟩, ⟨4, 5, .italic, none⟩]
      [⟨3, 5, ofString "x", false⟩]) boldMarkers := by
  have hfamily : Family (ofString "abcdef")
      [⟨0, 6, .bold, none⟩, ⟨2, 4, .italic, none⟩, ⟨4, 5, .italic, none⟩]
      [⟨3, 5, ofString "x", false⟩] := ⟨by decide, by decide⟩
  exact (renderMarkdownWithMarkers_balanced_iff hfamily keepsRange_boldMarkers).mpr
    (by decide +kernel)

theorem balanced_touchingSpans : ¬∀ (text : Utf16) (spans : List MarkdownStyleSpan)
    (links : List MarkdownLinkSpan) (options : RenderOptions), Family text spans links →
      KeepsRange options → NestedFamily spans links →
        Balanced (mergedIR text spans links) options := by
  intro h
  have hfamily : Family (ofString "abcdef") touchingSpans [] := ⟨by decide, by decide⟩
  have hnested : NestedFamily touchingSpans [] := by
    unfold NestedFamily
    decide
  have hlaminar := laminar_spanMarks.mp ((balanced_iff hfamily keepsRange_boldMarkers).mp
    (h _ _ _ _ hfamily keepsRange_boldMarkers hnested))
  exact absurd (hlaminar ⟨0, 4⟩ (by decide +kernel) ⟨2, 6⟩ (by decide +kernel)) (by decide)

end Flashclaw.MarkdownCore
