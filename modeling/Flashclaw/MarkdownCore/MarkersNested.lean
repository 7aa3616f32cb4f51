import Flashclaw.Lib.Nesting
import Flashclaw.MarkdownCore.Markers

/-!
# Markers are nested

The loop over the boundaries of `renderMarkdownWithMarkers` writes nested marks, and closes all of
them when no two cross.
-/

namespace Flashclaw.MarkdownCore

open Utf16 Ranges Nesting

section Opening

variable {a b : OpeningItem}

theorem kindRank_of_structural (h : a.structural = true) : kindRank a.kind = 2 := by
  rw [OpeningItem.structural] at h
  cases hkind : a.kind with
  | annotationSpan => rw [hkind] at h; exact absurd h Bool.false_ne_true
  | link => rw [hkind] at h; exact absurd h Bool.false_ne_true
  | style style => rfl

theorem kindRank_nonneg (kind : OpeningKind) : 0 ≤ kindRank kind := by
  cases kind with
  | annotationSpan => exact Int.le_refl 0
  | link => exact Int.zero_le_ofNat 1
  | style style => exact Int.zero_le_ofNat 2

theorem rank_eq_iff :
    a.rank = b.rank ↔ a.structural = b.structural ∧ kindRank a.kind = kindRank b.kind := by
  have ha := kindRank_nonneg a.kind
  have hb := kindRank_nonneg b.kind
  rw [OpeningItem.rank, OpeningItem.rank]
  cases hsa : a.structural <;> cases hsb : b.structural
  · simp
  · simp only [Bool.false_eq_true, if_false, if_true, false_and, iff_false]
    omega
  · simp only [Bool.false_eq_true, Bool.true_eq_false, if_false, if_true, false_and, iff_false]
    omega
  · simp [kindRank_of_structural hsa, kindRank_of_structural hsb]

/-- The comparison is one of three numbers after each other. -/
theorem openedFirst_iff : openedFirst a b ↔ b.stop < a.stop ∨ a.stop = b.stop ∧
    (a.rank < b.rank ∨ a.rank = b.rank ∧ a.order ≤ b.order) := by
  have hrank := @rank_eq_iff a b
  rw [openedFirst]
  by_cases hstop : a.stop = b.stop
  · rw [if_neg (not_not_intro hstop)]
    by_cases hsame : a.structural ≠ b.structural ∨ kindRank a.kind ≠ kindRank b.kind
    · rw [if_pos hsame]
      have hne : a.rank ≠ b.rank := fun heq =>
        hsame.elim (fun h => h (hrank.mp heq).1) fun h => h (hrank.mp heq).2
      omega
    · rw [if_neg hsame]
      rw [not_or, not_not, not_not] at hsame
      have heq := hrank.mpr hsame
      omega
  · rw [if_pos hstop]
    omega

instance : Std.Total openedFirst := ⟨by
  intro a b
  rw [openedFirst_iff, openedFirst_iff]
  omega⟩

instance : IsTrans OpeningItem openedFirst := ⟨by
  intro a b c hab hbc
  rw [openedFirst_iff] at hab hbc ⊢
  omega⟩

end Opening

section Marks

variable (ir : MarkdownIR) (options : RenderOptions)

def styleMarks : List (Mark CodeUnit) := (shownStyles ir options).filterMap fun span =>
  (options.styleMarkers span.style).map fun marker =>
    ⟨span.bounds, marker.opening.of span, marker.close⟩

def annotationMarks : List (Mark CodeUnit) := (shownAnnotations ir options).filterMap fun span =>
  options.annotationMarker.map fun marker => ⟨span.bounds, marker.opening.of span, marker.close⟩

def linkMarks : List (Mark CodeUnit) := (renderedLinks ir options).map fun link =>
  ⟨link.bounds, link.opening, link.close⟩

def marks : List (Mark CodeUnit) :=
  annotationMarks ir options ++ linkMarks ir options ++ styleMarks ir options

def OpeningItem.mark (start : ℕ) (item : OpeningItem) : Mark CodeUnit :=
  ⟨⟨start, item.stop⟩, item.opening, item.close⟩

def openingMarks (pos : ℕ) : List (Mark CodeUnit) :=
  (openingItems ir options pos).map (OpeningItem.mark pos)

end Marks

theorem getAll_buckets {σ : Type} (start : σ → ℕ) (spans : List σ) (pos : ℕ) :
    (buckets start spans).getAll pos = spans.filter fun span => start span = pos := by
  have hfold : ∀ starts : JsMap ℕ (List σ),
      (spans.foldl (fun starts span => starts.push (start span) span) starts).getAll pos =
        starts.getAll pos ++ spans.filter fun span => start span = pos := by
    induction spans with
    | nil => exact fun starts => (List.append_nil _).symm
    | cons span spans ih =>
      intro starts
      rw [List.foldl_cons, ih, JsMap.getAll_push, List.filter_cons, List.append_assoc]
      by_cases hpos : start span = pos
      · simp [hpos]
      · simp [hpos]
  exact hfold .empty

/-- The marks of the elements at one position, which are made with their indices there. -/
theorem map_filterMap_zipIdx {σ τ ρ : Type} {f : σ × ℕ → Option τ} {g : τ → ρ} {made : σ → Option ρ}
    {l : List σ} (h : ∀ x ∈ l, ∀ i, (f (x, i)).map g = made x) (n : ℕ) :
    ((l.zipIdx n).filterMap f).map g = l.filterMap made := by
  induction l generalizing n with
  | nil => rfl
  | cons x l ih =>
    obtain ⟨hx, hl⟩ := List.forall_mem_cons.mp h
    rw [List.zipIdx_cons, List.filterMap_cons, List.filterMap_cons, ← hx n, ← ih hl (n + 1)]
    cases f (x, n) with
    | none => rfl
    | some y => rfl

theorem filter_filterMap_start {σ : Type} {start : σ → ℕ} {made : σ → Option (Mark CodeUnit)}
    (h : ∀ x mark, made x = some mark → mark.start = start x) (l : List σ) (pos : ℕ) :
    (l.filterMap made).filter (fun mark => mark.start = pos) =
      (l.filter fun x => start x = pos).filterMap made := by
  induction l with
  | nil => rfl
  | cons x l ih =>
    rw [List.filterMap_cons, List.filter_cons]
    cases hmade : made x with
    | none =>
      dsimp only
      rw [ih]
      split_ifs
      · rw [List.filterMap_cons, hmade]
      · rfl
    | some mark =>
      dsimp only
      rw [List.filter_cons, ih, h x mark hmade]
      split_ifs
      · rw [List.filterMap_cons, hmade]
      · rfl

/-- What is opened of the elements of one kind are their marks. -/
theorem opened_perm {σ : Type} {start : σ → ℕ} {made : σ → Option (Mark CodeUnit)} {pos : ℕ}
    {f : σ × ℕ → Option OpeningItem} (hstart : ∀ x mark, made x = some mark → mark.start = start x)
    {l bucket : List σ} (hbucket : bucket.Perm (l.filter fun x => start x = pos))
    (hmade : ∀ x i, start x = pos → (f (x, i)).map (OpeningItem.mark pos) = made x) :
    ((bucket.zipIdx.filterMap f).map (OpeningItem.mark pos)).Perm
      ((l.filterMap made).filter fun mark => mark.start = pos) := by
  rw [filter_filterMap_start hstart, map_filterMap_zipIdx fun x hx i => hmade x i <|
    of_decide_eq_true (List.mem_filter.mp (hbucket.mem_iff.mp hx)).2]
  exact hbucket.filterMap made

section

variable {ir : MarkdownIR} {options : RenderOptions}

/-- What is opened at a position are the marks that start there. -/
theorem openingMarks_perm (pos : ℕ) :
    (openingMarks ir options pos).Perm ((marks ir options).filter fun mark => mark.start = pos) := by
  rw [openingMarks, openingItems]
  refine ((List.perm_insertionSort openedFirst _).map _).trans ?_
  rw [List.map_append, List.map_append, marks, List.filter_append, List.filter_append]
  refine (List.Perm.append ?_ ?_).append ?_
  · apply @opened_perm _ MarkdownAnnotationSpan.start
    · intro span mark hmark
      obtain ⟨marker, -, rfl⟩ := Option.map_eq_some_iff.mp hmark
      rfl
    · rw [annotationStarts, getAll_buckets]
    · rintro span i rfl
      rw [Option.map_map]
      rfl
  · conv_lhs => arg 2; rw [← List.filterMap_eq_map]
    conv_rhs => rw [linkMarks, ← List.filterMap_eq_map]
    apply @opened_perm _ RenderLink.start
    · rintro link mark ⟨⟩
      rfl
    · rw [linkStarts, getAll_buckets]
    · rintro link i rfl
      rfl
  · apply @opened_perm _ MarkdownStyleSpan.start
    · intro span mark hmark
      obtain ⟨marker, -, rfl⟩ := Option.map_eq_some_iff.mp hmark
      rfl
    · rw [startsAt, JsMap.getAll, JsMap.get?_mapValues,
        ← getAll_buckets MarkdownStyleSpan.start (shownStyles ir options) pos, JsMap.getAll]
      cases (buckets MarkdownStyleSpan.start (shownStyles ir options)).get? pos with
      | none => exact .refl _
      | some bucket => exact List.perm_insertionSort outerStyleFirst bucket
    · rintro span i rfl
      rw [Option.map_map]
      rfl

/-- Of what is opened at a position, the mark that ends last is opened first. -/
theorem openingMarks_outer (pos : ℕ) :
    (openingMarks ir options pos).Pairwise fun outer inner => inner.stop ≤ outer.stop := by
  rw [openingMarks, List.pairwise_map]
  apply (List.pairwise_insertionSort openedFirst _).imp
  intro a b hab
  rw [openedFirst_iff] at hab
  show b.stop ≤ a.stop
  omega

end

def frame (mark : Mark CodeUnit) : Frame := ⟨mark.back, mark.stop⟩

section Loop

variable {leaf : ℕ → ℕ → Utf16} {stack opened : List (Mark CodeUnit)} {out : Utf16} {pos : ℕ}

theorem closeFrames_pending (h : Pending leaf 0 pos stack opened out) :
    ∃ out', closeFrames pos (stack.map frame) out =
        ((stack.dropWhile fun mark => mark.stop = pos).map frame, out') ∧
      Pending leaf 0 pos (stack.dropWhile fun mark => mark.stop = pos) opened out' := by
  induction stack generalizing out with
  | nil => exact ⟨out, rfl, h⟩
  | cons mark stack ih =>
    rw [List.map_cons, closeFrames, List.dropWhile_cons]
    by_cases hpos : mark.stop = pos
    · rw [if_pos (show (frame mark).stop = pos from hpos), if_pos (decide_eq_true hpos)]
      apply ih
      subst hpos
      exact h.pop
    · rw [if_neg (show ¬(frame mark).stop = pos from hpos), if_neg (by simpa using hpos)]
      exact ⟨out, rfl, h⟩

theorem openFrames_pending (items : List OpeningItem) (h : Pending leaf 0 pos stack opened out) :
    ∃ out', openFrames items (stack.map frame) out =
        (((items.map (OpeningItem.mark pos)).reverse ++ stack).map frame, out') ∧
      Pending leaf 0 pos ((items.map (OpeningItem.mark pos)).reverse ++ stack)
        (opened ++ items.map (OpeningItem.mark pos)) out' := by
  induction items generalizing stack opened out with
  | nil =>
    rw [List.map_nil, List.append_nil]
    exact ⟨out, rfl, h⟩
  | cons item items ih =>
    have hpush : Pending leaf 0 pos (item.mark pos :: stack) (opened ++ [item.mark pos])
      (out ++ item.opening) :=
        Pending.push (show Pending leaf 0 (item.mark pos).start stack opened out from h)
    obtain ⟨out', hout, hpending⟩ := ih hpush
    refine ⟨out', ?_, ?_⟩
    · rw [openFrames, List.map_cons (f := OpeningItem.mark pos), List.reverse_cons, List.append_assoc]
      exact hout
    · rw [List.map_cons, List.reverse_cons, List.append_assoc]
      rw [List.append_assoc] at hpending
      exact hpending

/-- The loop writes nested marks, and its stack are the marks that stay open. -/
theorem renderPoints_pending (opening : ℕ → List OpeningItem) (escapeText : Utf16 → Utf16)
    (text : Utf16) {points : List ℕ} (hsorted : (pos :: points).Pairwise (· < ·))
    (h : Pending (fun a b => escapeText (slice text a b)) 0 pos stack opened out) :
    ∃ out', renderPoints opening escapeText text (pos :: points) (stack.map frame) out =
        ((leftOpen (fun next => (opening next).map (OpeningItem.mark next)) (pos :: points)
          stack).map frame, out') ∧
      Pending (fun a b => escapeText (slice text a b)) 0 (points.getLastD pos)
        (leftOpen (fun next => (opening next).map (OpeningItem.mark next)) (pos :: points) stack)
        (opened ++ (pos :: points).flatMap fun next => (opening next).map (OpeningItem.mark next))
        out' := by
  induction points generalizing pos stack opened out with
  | nil =>
    obtain ⟨closed, hclosed, hpending⟩ := closeFrames_pending h
    obtain ⟨out', hout, hpending⟩ := openFrames_pending (opening pos) hpending
    refine ⟨out', ?_, ?_⟩
    · rw [renderPoints, hclosed]
      exact hout
    · rw [List.flatMap_cons, List.flatMap_nil, List.append_nil]
      exact hpending
  | cons next points ih =>
    obtain ⟨hlt, hsorted⟩ := List.pairwise_cons.mp hsorted
    obtain ⟨closed, hclosed, hpending⟩ := closeFrames_pending h
    obtain ⟨out', hout, hpending⟩ := openFrames_pending (opening pos) hpending
    have hnext := hlt next List.mem_cons_self
    obtain ⟨final, hfinal, hpending⟩ := ih hsorted (hpending.text hnext)
    refine ⟨final, ?_, ?_⟩
    · rw [renderPoints, hclosed]
      dsimp only
      rw [hout, if_pos hnext]
      exact hfinal
    · rw [List.getLastD_cons, List.flatMap_cons, ← List.append_assoc]
      exact hpending

end Loop

/-- All spans are in the text. -/
structure Bounded (ir : MarkdownIR) : Prop where
  styles : ∀ span ∈ ir.styles, span.start ≤ span.stop ∧ span.stop ≤ ir.text.length
  links : ∀ link ∈ ir.links, link.start ≤ link.stop ∧ link.stop ≤ ir.text.length
  annotations : ∀ span ∈ ir.annotations.getD [], span.start ≤ span.stop ∧ span.stop ≤ ir.text.length

/-- A renderer's links are where the links of the text are. -/
def KeepsRange (options : RenderOptions) : Prop :=
  ∀ buildLink ∈ options.buildLink, ∀ link text origin, ∀ rendered ∈ buildLink link text origin,
    rendered.bounds = link.bounds

section Ranges

variable (ir : MarkdownIR) (options : RenderOptions)

def annotationRanges : List Range := (annotated ir options).map MarkdownAnnotationSpan.bounds

def containerRanges : List Range :=
  (ir.styles.filter fun span => (options.styleMarkers span.style).isSome ∧
    span.style ∈ STRUCTURAL_STYLES).map MarkdownStyleSpan.bounds

def inlineRanges : List Range :=
  (ir.styles.filter fun span => (options.styleMarkers span.style).isSome ∧
    span.style ∉ STRUCTURAL_STYLES).map MarkdownStyleSpan.bounds ++
  (ir.links.filter fun _ => options.buildLink.isSome).map MarkdownLinkSpan.bounds

/-- Where a mark can be. -/
inductive Placed (range : Range) : Prop where
  | annotated (h : range ∈ annotationRanges ir options)
  | container (h : range ∈ containerRanges ir options)
  | piece (span : Range) (hspan : span ∈ inlineRanges ir options)
    (h : range ∈ formatPieces ir options span)

variable {ir options}

theorem placed_of_mem_shownRanges (hlinks : KeepsRange options) {range : Range}
    (h : range ∈ shownRanges ir options) : range.start ≠ range.stop ∧ Placed ir options range := by
  rw [shownRanges, List.mem_append, List.mem_append] at h
  rcases h with (h | h) | h
  · obtain ⟨span, hspan, rfl⟩ := List.mem_map.mp h
    obtain ⟨hspan, hne⟩ := List.mem_filter.mp hspan
    refine ⟨of_decide_eq_true hne, ?_⟩
    obtain ⟨original, horiginal, hspan⟩ :=
      List.mem_flatMap.mp ((List.mem_insertionSort styleSpanFirst).mp hspan)
    obtain ⟨horiginal, hmarker⟩ := List.mem_filter.mp horiginal
    split_ifs at hspan with hcontainer
    · obtain rfl := List.mem_singleton.mp hspan
      exact .container (List.mem_map_of_mem (List.mem_filter.mpr
        ⟨horiginal, decide_eq_true ⟨hmarker, hcontainer⟩⟩))
    · obtain ⟨piece, hpiece, rfl⟩ := List.mem_map.mp hspan
      exact .piece original.bounds (List.mem_append_left _ (List.mem_map_of_mem (List.mem_filter.mpr
        ⟨horiginal, decide_eq_true ⟨hmarker, hcontainer⟩⟩))) hpiece
  · obtain ⟨span, hspan, rfl⟩ := List.mem_map.mp h
    obtain ⟨hspan, hne⟩ := List.mem_filter.mp hspan
    exact ⟨of_decide_eq_true hne, .annotated (List.mem_map_of_mem hspan)⟩
  · obtain ⟨rendered, hrendered, rfl⟩ := List.mem_map.mp h
    rw [renderedLinks] at hrendered
    cases hbuild : options.buildLink with
    | none =>
      rw [hbuild] at hrendered
      exact (List.not_mem_nil hrendered).elim
    | some buildLink =>
      rw [hbuild] at hrendered
      obtain ⟨link, hlink, hrendered⟩ := List.mem_filterMap.mp hrendered
      obtain ⟨hlink, hne⟩ := List.mem_filter.mp hlink
      rw [hlinks buildLink hbuild _ _ _ rendered hrendered]
      refine ⟨of_decide_eq_true hne, ?_⟩
      obtain ⟨original, horiginal, hlink⟩ := List.mem_flatMap.mp hlink
      obtain ⟨piece, hpiece, rfl⟩ := List.mem_map.mp hlink
      exact .piece original.bounds (List.mem_append_right _ (List.mem_map_of_mem (List.mem_filter.mpr
        ⟨horiginal, by rw [hbuild]; rfl⟩))) hpiece

theorem mem_shownRanges_of_mem_marks {mark : Mark CodeUnit} (h : mark ∈ marks ir options) :
    mark.toRange ∈ shownRanges ir options := by
  rw [marks, List.mem_append, List.mem_append] at h
  rw [shownRanges, List.mem_append, List.mem_append]
  rcases h with (h | h) | h
  · obtain ⟨span, hspan, hmark⟩ := List.mem_filterMap.mp h
    obtain ⟨marker, -, rfl⟩ := Option.map_eq_some_iff.mp hmark
    exact .inl (.inr (List.mem_map_of_mem hspan))
  · obtain ⟨link, hlink, rfl⟩ := List.mem_map.mp h
    exact .inr (List.mem_map_of_mem hlink)
  · obtain ⟨span, hspan, hmark⟩ := List.mem_filterMap.mp h
    obtain ⟨marker, -, rfl⟩ := Option.map_eq_some_iff.mp hmark
    exact .inl (.inl (List.mem_map_of_mem hspan))

theorem mem_of_mem_annotated {span : MarkdownAnnotationSpan} (h : span ∈ annotated ir options) :
    span ∈ ir.annotations.getD [] :=
  List.mem_of_mem_filter ((List.mem_insertionSort annotationSpanFirst).mp h)

theorem Bounded.inline (hbounded : Bounded ir) {span : Range} (h : span ∈ inlineRanges ir options) :
    span.start ≤ span.stop ∧ span.stop ≤ ir.text.length := by
  rcases List.mem_append.mp h with h | h
  · obtain ⟨style, hstyle, rfl⟩ := List.mem_map.mp h
    exact hbounded.styles style (List.mem_of_mem_filter hstyle)
  · obtain ⟨link, hlink, rfl⟩ := List.mem_map.mp h
    exact hbounded.links link (List.mem_of_mem_filter hlink)

/-- A piece is in its span. -/
theorem Bounded.piece (hbounded : Bounded ir) {span range : Range}
    (hspan : span ∈ inlineRanges ir options) (h : range ∈ formatPieces ir options span)
    (hne : range.start ≠ range.stop) : PieceOf (annotationBoundaries ir options) span range := by
  rcases Nat.lt_or_ge span.start span.stop with hlt | hge
  · exact ((formatPieces_spec (fun span hspan => (hbounded.annotations span
      (mem_of_mem_annotated hspan)).1) hlt).2 range h).1
  · obtain rfl := formatPieces_empty hge range h
    exact absurd ((hbounded.inline hspan).1.antisymm hge) hne

theorem Bounded.shown (hbounded : Bounded ir) (hlinks : KeepsRange options) {range : Range}
    (h : range ∈ shownRanges ir options) : range.start < range.stop ∧ range.stop ≤ ir.text.length := by
  obtain ⟨hne, hplaced⟩ := placed_of_mem_shownRanges hlinks h
  cases hplaced with
  | annotated h =>
    obtain ⟨span, hspan, rfl⟩ := List.mem_map.mp h
    obtain ⟨hle, hlength⟩ := hbounded.annotations span (mem_of_mem_annotated hspan)
    exact ⟨Nat.lt_of_le_of_ne hle hne, hlength⟩
  | container h =>
    obtain ⟨span, hspan, rfl⟩ := List.mem_map.mp h
    obtain ⟨hle, hlength⟩ := hbounded.styles span (List.mem_of_mem_filter hspan)
    exact ⟨Nat.lt_of_le_of_ne hle hne, hlength⟩
  | piece span hspan h =>
    have hof := hbounded.piece hspan h hne
    exact ⟨hof.lt, hof.le_stop.trans (hbounded.inline hspan).2⟩

end Ranges

theorem getLastD_of_sorted {first last : ℕ} {points : List ℕ}
    (hsorted : (first :: points).Pairwise (· < ·)) (hmem : last ∈ first :: points)
    (hle : ∀ pos ∈ first :: points, pos ≤ last) : points.getLastD first = last := by
  induction points generalizing first with
  | nil => exact (List.mem_singleton.mp hmem).symm
  | cons next points ih =>
    obtain ⟨hlt, hsorted⟩ := List.pairwise_cons.mp hsorted
    obtain ⟨-, hrest⟩ := List.forall_mem_cons.mp hle
    rw [List.getLastD_cons]
    apply ih hsorted _ hrest
    rcases List.mem_cons.mp hmem with rfl | hmem
    · exact absurd (hlt next List.mem_cons_self) (hrest next List.mem_cons_self).not_gt
    · exact hmem

section Boundaries

variable {ir : MarkdownIR} {options : RenderOptions}

theorem mem_points {pos : ℕ} : pos ∈ points ir options ↔ pos = 0 ∨ pos = ir.text.length ∨
    ∃ range ∈ shownRanges ir options, pos = range.start ∨ pos = range.stop := by
  rw [points, mem_sortedSet, List.mem_cons, List.mem_cons, List.mem_flatMap]
  simp only [List.mem_cons, List.not_mem_nil, or_false]

/-- The boundaries are from the start of the text to its end. -/
theorem exists_points (hbounded : Bounded ir) (hlinks : KeepsRange options) :
    ∃ rest, points ir options = 0 :: rest ∧ (0 :: rest).Pairwise (· < ·) ∧
      rest.getLastD 0 = ir.text.length := by
  have hsorted : (points ir options).Pairwise (· < ·) := pairwise_sortedSet _
  have hzero : 0 ∈ points ir options := mem_points.mpr (.inl rfl)
  have hlast : ir.text.length ∈ points ir options := mem_points.mpr (.inr (.inl rfl))
  have hle : ∀ pos ∈ points ir options, pos ≤ ir.text.length := by
    intro pos hpos
    rcases mem_points.mp hpos with rfl | rfl | ⟨range, hrange, hends⟩
    · exact Nat.zero_le _
    · exact Nat.le_refl _
    · obtain ⟨hlt, hstop⟩ := hbounded.shown hlinks hrange
      omega
  cases hpoints : points ir options with
  | nil => exact absurd (hpoints ▸ hzero) List.not_mem_nil
  | cons first rest =>
    rw [hpoints] at hsorted hzero hlast hle
    have hfirst : first = 0 := by
      rcases List.mem_cons.mp hzero with h | h
      · exact h.symm
      · exact absurd ((List.pairwise_cons.mp hsorted).1 0 h) (Nat.not_lt_zero first)
    subst hfirst
    exact ⟨rest, rfl, hsorted, getLastD_of_sorted hsorted hlast hle⟩

/-- The marks that are opened at the boundaries, in order. -/
def openedMarks (ir : MarkdownIR) (options : RenderOptions) : List (Mark CodeUnit) :=
  (points ir options).flatMap (openingMarks ir options)

theorem openedMarks_perm (ir : MarkdownIR) (options : RenderOptions) :
    (openedMarks ir options).Perm (marks ir options) := by
  have hfilter : (openedMarks ir options).Perm ((points ir options).flatMap fun pos =>
      (marks ir options).filter fun mark => mark.start = pos) :=
    List.Perm.flatMap_left _ fun pos _ => openingMarks_perm pos
  refine hfilter.trans (flatMap_filter_perm (fun mark : Mark CodeUnit => mark.start) _
    ((pairwise_sortedSet _).imp fun h => h.ne) fun mark hmark => ?_)
  exact mem_points.mpr (.inr (.inr ⟨_, mem_shownRanges_of_mem_marks hmark, .inl rfl⟩))

/-- The marks that are still open at the end. -/
def openMarks (ir : MarkdownIR) (options : RenderOptions) : List (Mark CodeUnit) :=
  leftOpen (openingMarks ir options) (points ir options) []

/-- What stands in the text between two positions. -/
def shownText (ir : MarkdownIR) (options : RenderOptions) (start stop : ℕ) : Utf16 :=
  options.escapeText (slice ir.text start stop)

theorem renderRun_openMarks (hbounded : Bounded ir) (hlinks : KeepsRange options) :
    (renderRun ir options).1 = (openMarks ir options).map frame ∧
      Pending (shownText ir options) 0 ir.text.length (openMarks ir options)
        (openedMarks ir options) (renderRun ir options).2 := by
  obtain ⟨rest, hpoints, hsorted, hlast⟩ := exists_points hbounded hlinks
  obtain ⟨out, hout, hpending⟩ := renderPoints_pending (openingItems ir options)
    options.escapeText ir.text hsorted (.done (.nil 0))
  rw [hlast] at hpending
  rw [renderRun, openMarks, openedMarks, hpoints]
  change renderPoints _ _ _ _ [] [] = _ at hout
  rw [hout]
  exact ⟨rfl, hpending⟩

/-- All marks are closed exactly when no two cross. -/
theorem openMarks_eq_nil_iff (hbounded : Bounded ir) (hlinks : KeepsRange options) :
    openMarks ir options = [] ↔ Laminar (marks ir options) := by
  have hperm := openedMarks_perm ir options
  constructor
  · intro hclosed
    obtain ⟨-, hpending⟩ := renderRun_openMarks hbounded hlinks
    rw [hclosed] at hpending
    cases hpending with
    | done h =>
      exact fun a ha b hb => h.laminar a (hperm.mem_iff.mpr ha) b (hperm.mem_iff.mpr hb)
  · intro hlaminar
    have hstacked : Stacked (marks ir options) (points ir options) [] :=
      ⟨fun _ h => (List.not_mem_nil h).elim, fun _ h => (List.not_mem_nil h).elim,
        fun _ h => (List.not_mem_nil h).elim, .nil⟩
    apply hstacked.leftOpen_eq_nil (pairwise_sortedSet _) hlaminar
    intro pos _
    have hmem : ∀ mark ∈ openingMarks ir options pos, mark ∈ marks ir options ∧ mark.start = pos := by
      intro mark hmark
      obtain ⟨hmark, hstart⟩ := List.mem_filter.mp ((openingMarks_perm pos).mem_iff.mp hmark)
      exact ⟨hmark, of_decide_eq_true hstart⟩
    refine ⟨fun mark hmark => (hmem mark hmark).1, fun mark hmark => (hmem mark hmark).2,
      fun mark hmark => ?_, openingMarks_outer pos⟩
    obtain ⟨hmarked, rfl⟩ := hmem mark hmark
    have hshown := mem_shownRanges_of_mem_marks hmarked
    exact List.mem_filter.mpr ⟨mem_points.mpr (.inr (.inr ⟨_, hshown, .inr rfl⟩)),
      decide_eq_true (hbounded.shown hlinks hshown).1⟩

end Boundaries

/-- Spans of formatting that do not cross, and containers and annotations that do not cross, with
the formatting inside of the containers. -/
structure WellNested (ir : MarkdownIR) (options : RenderOptions) : Prop where
  inline : ∀ a ∈ inlineRanges ir options, ∀ b ∈ inlineRanges ir options, ¬a.Crosses b
  outer : ∀ a ∈ containerRanges ir options ++ annotationRanges ir options,
    ∀ b ∈ containerRanges ir options ++ annotationRanges ir options, ¬a.Crosses b
  inside : ∀ container ∈ containerRanges ir options, ∀ a ∈ inlineRanges ir options,
    (container.start ≤ a.start ∧ a.stop ≤ container.stop) ∨
      a.stop ≤ container.start ∨ container.stop ≤ a.start

section Rendered

variable {ir : MarkdownIR} {options : RenderOptions}

/-- Pieces cross only where their spans do. -/
theorem PieceOf.crosses {boundaries : List ℕ} {a b x y : Range} (ha : PieceOf boundaries x a)
    (hb : PieceOf boundaries y b) (h : a.Crosses b) : x.Crosses y := by
  obtain ⟨hstart, hinside, hstop⟩ := h
  have hxa := ha.start_le
  have hyb := hb.le_stop
  have hfrom : b.start = y.start := hb.start.resolve_right fun hmem =>
    ha.uncut b.start hmem ⟨hstart, hinside⟩
  have hupTo : a.stop = x.stop := ha.stop.resolve_right fun hmem =>
    hb.uncut a.stop hmem ⟨hinside, hstop⟩
  exact ⟨by omega, by omega, by omega⟩

theorem WellNested.laminar (hbounded : Bounded ir) (hlinks : KeepsRange options)
    (hnested : WellNested ir options) : Laminar (marks ir options) := by
  have hroles : ∀ range ∈ annotationRanges ir options,
      range.start ∈ annotationBoundaries ir options ∧ range.stop ∈ annotationBoundaries ir options := by
    intro range hrange
    obtain ⟨span, hspan, rfl⟩ := List.mem_map.mp hrange
    exact ⟨mem_annotationBoundaries.mpr ⟨span, hspan, .inl rfl⟩,
      mem_annotationBoundaries.mpr ⟨span, hspan, .inr rfl⟩⟩
  intro a ha b hb hcrosses
  obtain ⟨hnea, hplaceda⟩ := placed_of_mem_shownRanges hlinks (mem_shownRanges_of_mem_marks ha)
  obtain ⟨hneb, hplacedb⟩ := placed_of_mem_shownRanges hlinks (mem_shownRanges_of_mem_marks hb)
  have hcrosses' := hcrosses
  obtain ⟨hstart, hinside, hstop⟩ := hcrosses'
  cases hplaceda with
  | annotated ha =>
    cases hplacedb with
    | annotated hb =>
      exact hnested.outer _ (List.mem_append_right _ ha) _ (List.mem_append_right _ hb) hcrosses
    | container hb =>
      exact hnested.outer _ (List.mem_append_right _ ha) _ (List.mem_append_left _ hb) hcrosses
    | piece y hy hb =>
      exact (hbounded.piece hy hb hneb).uncut _ (hroles _ ha).2 ⟨hinside, hstop⟩
  | container ha =>
    cases hplacedb with
    | annotated hb =>
      exact hnested.outer _ (List.mem_append_left _ ha) _ (List.mem_append_right _ hb) hcrosses
    | container hb =>
      exact hnested.outer _ (List.mem_append_left _ ha) _ (List.mem_append_left _ hb) hcrosses
    | piece y hy hb =>
      have hof := hbounded.piece hy hb hneb
      have hfrom := hof.start_le
      have hupTo := hof.le_stop
      have := hnested.inside _ ha y hy
      omega
  | piece x hx ha =>
    have hof := hbounded.piece hx ha hnea
    cases hplacedb with
    | annotated hb => exact hof.uncut _ (hroles _ hb).1 ⟨hstart, hinside⟩
    | container hb =>
      have hfrom := hof.start_le
      have hupTo := hof.le_stop
      have := hnested.inside _ hb x hx
      omega
    | piece y hy hb =>
      exact hnested.inline x hx y hy (hof.crosses (hbounded.piece hy hb hneb) hcrosses)

/-- An empty text has nothing to mark. -/
theorem renderMarkdownWithMarkers_eq (hbounded : Bounded ir) (hlinks : KeepsRange options) :
    renderMarkdownWithMarkers ir options = (renderRun ir options).2 := by
  rw [renderMarkdownWithMarkers]
  split_ifs with hempty
  · have hnone : openedMarks ir options = [] := by
      rw [List.eq_nil_iff_forall_not_mem]
      intro mark hmark
      have hbounds := hbounded.shown hlinks
        (mem_shownRanges_of_mem_marks ((openedMarks_perm ir options).mem_iff.mp hmark))
      rw [hempty, List.length_nil] at hbounds
      omega
    have hpending := (renderRun_openMarks hbounded hlinks).2
    exact (hpending.eq_nil hnone (by rw [hempty]; exact Nat.le_refl _)).symm
  · rfl

/-- Whatever the spans are, markers that are closed are around their text, and those that are
not are open to the end; none is exactly when no two marks cross. -/
theorem renderRun_pending (hbounded : Bounded ir) (hlinks : KeepsRange options) :
    ∃ stack opened, (renderRun ir options).1 = stack.map frame ∧ opened.Perm (marks ir options) ∧
      Pending (shownText ir options) 0 ir.text.length stack opened
        (renderMarkdownWithMarkers ir options) ∧
      (stack = [] ↔ Laminar (marks ir options)) := by
  obtain ⟨hstack, hpending⟩ := renderRun_openMarks hbounded hlinks
  rw [renderMarkdownWithMarkers_eq hbounded hlinks]
  exact ⟨_, _, hstack, openedMarks_perm ir options, hpending, openMarks_eq_nil_iff hbounded hlinks⟩

/-- A text whose spans are nested is rendered with every marker around its text, one inside or
behind the other. -/
theorem renderMarkdownWithMarkers_nested (hbounded : Bounded ir) (hlinks : KeepsRange options)
    (hnested : WellNested ir options) : ∃ opened, opened.Perm (marks ir options) ∧
      Nested (shownText ir options) 0 ir.text.length opened (renderMarkdownWithMarkers ir options) := by
  obtain ⟨-, hpending⟩ := renderRun_openMarks hbounded hlinks
  rw [(openMarks_eq_nil_iff hbounded hlinks).mpr (hnested.laminar hbounded hlinks),
    ← renderMarkdownWithMarkers_eq hbounded hlinks] at hpending
  cases hpending with
  | done h => exact ⟨_, openedMarks_perm ir options, h⟩

end Rendered

/-- A quote with a bold text across a role header, and a link. -/
def sampleQuote : MarkdownIR :=
  ⟨ofString "abcd", [⟨0, 4, .blockquote, none⟩, ⟨0, 3, .bold, none⟩],
    [⟨2, 3, ofString "x", false⟩], some [⟨1, 2, .angleRoleHeader, .user⟩]⟩

def sampleMarkers : RenderOptions where
  styleMarkers
    | .blockquote => some ⟨.text (ofString "<q>"), ofString "</q>"⟩
    | .bold => some ⟨.text (ofString "<b>"), ofString "</b>"⟩
    | _ => none
  annotationMarker := some ⟨.text (ofString "<c>"), ofString "</c>", true⟩
  escapeText := id
  buildLink := some fun link _ _ => some ⟨link.start, link.stop, ofString "<a>", ofString "</a>"⟩

example : renderMarkdownWithMarkers sampleQuote sampleMarkers =
    ofString "<q><b>a</b><c>b</c><a><b>c</b></a>d</q>" := by decide +kernel

theorem bounded_sampleQuote : Bounded sampleQuote := ⟨by decide, by decide, by decide⟩

theorem keepsRange_sampleMarkers : KeepsRange sampleMarkers := by
  rintro buildLink ⟨⟩ link text origin rendered ⟨⟩
  rfl

theorem renderRun_pending_sample : ∃ stack opened,
    (renderRun sampleQuote sampleMarkers).1 = stack.map frame ∧
      opened.Perm (marks sampleQuote sampleMarkers) ∧
      Pending (shownText sampleQuote sampleMarkers) 0 4 stack opened
        (renderMarkdownWithMarkers sampleQuote sampleMarkers) ∧
      (stack = [] ↔ Laminar (marks sampleQuote sampleMarkers)) :=
  renderRun_pending bounded_sampleQuote keepsRange_sampleMarkers

theorem renderMarkdownWithMarkers_nested_sample :
    ∃ opened, opened.Perm (marks sampleQuote sampleMarkers) ∧
      Nested (shownText sampleQuote sampleMarkers) 0 4 opened
        (renderMarkdownWithMarkers sampleQuote sampleMarkers) :=
  renderMarkdownWithMarkers_nested bounded_sampleQuote keepsRange_sampleMarkers
    ⟨by decide +kernel, by decide +kernel, by decide +kernel⟩

end Flashclaw.MarkdownCore
