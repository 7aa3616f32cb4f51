import Flashclaw.MarkdownCore.Fences

/-!
# Fenced code: where it is in a text

A span starts with its opening line, and ends with the text or with the line that closes it.
-/

namespace Flashclaw.MarkdownCore

open Utf16 Ranges

def isFenceMarker (c : CodeUnit) : Bool := c = unit '`' || c = unit '~'

/-- A line that starts with spaces and a run of markers. -/
structure MarksFence (line indent marker trailing : Utf16) : Prop where
  split : indent ++ (marker ++ trailing) = line
  spaces : ∀ c ∈ indent, c = unit ' '
  markers : ∀ c ∈ marker, isFenceMarker c = true
  three : 3 ≤ marker.length

theorem marksFence_of_matchFence {line : Utf16} {found : FenceLine}
    (h : matchFence line = some found) :
    MarksFence line found.indent found.marker found.trailing := by
  rw [matchFence] at h
  generalize hindent : line.takeWhile (fun c => c = unit ' ') = indent at h
  have hspaces : ∀ c ∈ indent, c = unit ' ' := by
    intro c hc
    rw [← hindent] at hc
    have hspace := List.mem_takeWhile_imp hc
    exact of_decide_eq_true hspace
  have hline : indent ++ line.drop indent.length = line :=
    List.prefix_iff_eq_append.mp (hindent ▸ List.takeWhile_prefix _)
  cases hrest : line.drop indent.length with
  | nil =>
    rw [hrest] at h
    cases h
  | cons markerChar rest =>
    rw [hrest] at h hline
    dsimp only at h
    split_ifs at h with hmatch
    obtain rfl := Option.some.inj h
    refine ⟨?_, hspaces, ?_, hmatch.2.2.1⟩
    · rw [← hline]
      congr 1
      apply List.prefix_iff_eq_append.mp
      exact List.cons_prefix_cons.mpr ⟨rfl, List.takeWhile_prefix _⟩
    · have hmarker : isFenceMarker markerChar = true := by
        rw [isFenceMarker, Bool.or_eq_true, decide_eq_true_eq, decide_eq_true_eq]
        exact hmatch.2.1
      refine List.forall_mem_cons.mpr ⟨hmarker, fun c hc => ?_⟩
      have hsame := List.mem_takeWhile_imp hc
      rwa [of_decide_eq_true hsame]

/-- The opening line of a fence is at a position of a text. -/
structure OpensAt (text : Utf16) (start : ℕ) (openLine marker indent : Utf16) : Prop where
  front : start = 0 ∨ text[start - 1]? = some NEWLINE
  line : openLine <+: text.drop start
  matched : ∃ trailing, matchFence openLine = some ⟨indent, marker, trailing⟩

theorem OpensAt.marks {text : Utf16} {start : ℕ} {openLine marker indent : Utf16}
    (h : OpensAt text start openLine marker indent) :
    ∃ trailing, MarksFence openLine indent marker trailing := by
  obtain ⟨trailing, hmatched⟩ := h.matched
  exact ⟨trailing, marksFence_of_matchFence hmatched⟩

/-- A span is that of a fence of a text. -/
structure SpanOf (text : Utf16) (span : FenceSpan) : Prop where
  opens : OpensAt text span.start span.openLine span.marker span.indent
  stop : span.stop = text.length ∨ text[span.stop]? = some NEWLINE

/-- The loop is at the lines that are left of a text. -/
structure LoopAt (text : Utf16) (lines : List Utf16) (loop : ScanLoop) : Prop where
  rest : lines ≠ [] → loop.offset ≤ text.length ∧ text.drop loop.offset = join NEWLINE lines
  front : lines ≠ [] → loop.offset = 0 ∨ text[loop.offset - 1]? = some NEWLINE
  spans : ∀ span ∈ loop.spans, SpanOf text span
  openFence : ∀ start fence, loop.openFence = some (start, fence) →
    OpensAt text start fence.openLine fence.marker fence.indent

theorem dropReturn_isPrefixOf (line : Utf16) : dropReturn line <+: line := by
  rw [dropReturn]
  split
  · exact List.dropLast_prefix line
  · exact List.prefix_refl line

section Lines

variable {text raw : Utf16} {lines : List Utf16} {loop : ScanLoop} {startsAtLineStart : Bool}

/-- The line at the offset, and what is behind it. -/
theorem LoopAt.line (h : LoopAt text (raw :: lines) loop) :
    raw <+: text.drop loop.offset ∧
      (loop.offset + raw.length = text.length ∨
        text[loop.offset + raw.length]? = some NEWLINE) ∧
      (lines ≠ [] → loop.offset + raw.length + 1 ≤ text.length ∧
        text.drop (loop.offset + raw.length + 1) = join NEWLINE lines) := by
  obtain ⟨hoffset, hrest⟩ := h.rest (List.cons_ne_nil raw lines)
  have hlength := congrArg List.length hrest
  rw [List.length_drop] at hlength
  cases lines with
  | nil =>
    rw [join_singleton] at hrest hlength
    refine ⟨hrest ▸ List.prefix_refl _, .inl (by omega), fun hne => absurd rfl hne⟩
  | cons next lines =>
    rw [join_cons_cons] at hrest hlength
    rw [List.length_append, List.length_cons] at hlength
    refine ⟨hrest ▸ List.prefix_append _ _, .inr ?_, fun _ => ⟨by omega, ?_⟩⟩
    · rw [← List.getElem?_drop, hrest, List.getElem?_append_right (Nat.le_refl _), Nat.sub_self]
      rfl
    · have hfront : (raw ++ [NEWLINE]).length = raw.length + 1 := List.length_append
      rw [List.append_cons] at hrest
      rw [Nat.add_assoc, ← List.drop_drop, hrest, List.drop_left' hfront]

theorem loopAt_scanLine (h : LoopAt text (raw :: lines) loop) :
    LoopAt text lines (scanLine startsAtLineStart loop raw) := by
  obtain ⟨hraw, hend, hrest⟩ := h.line
  have hfront : lines ≠ [] → loop.offset + raw.length + 1 = 0 ∨
      text[loop.offset + raw.length + 1 - 1]? = some NEWLINE := by
    intro hne
    right
    apply hend.resolve_left
    have := (hrest hne).1
    omega
  rw [scanLine]
  cases hfound : (matchFence (dropReturn raw)).filter
      fun _ => 0 < loop.offset || startsAtLineStart with
  | none => exact ⟨hrest, hfront, h.spans, h.openFence⟩
  | some found =>
    have hmatched := (Option.filter_eq_some_iff.mp hfound).1
    cases hopen : loop.openFence with
    | none =>
      refine ⟨hrest, hfront, h.spans, fun start fence hstart => ?_⟩
      obtain ⟨rfl, rfl⟩ := Prod.mk.inj (Option.some.inj hstart)
      exact ⟨h.front (List.cons_ne_nil _ _), (dropReturn_isPrefixOf raw).trans hraw, _, hmatched⟩
    | some opened =>
      obtain ⟨start, fence⟩ := opened
      dsimp only
      split_ifs
      · refine ⟨hrest, hfront, fun span hspan => ?_, fun _ _ hnone => by cases hnone⟩
        rcases List.mem_append.mp hspan with hspan | hspan
        · exact h.spans span hspan
        · rw [List.mem_singleton.mp hspan]
          exact ⟨h.openFence start fence hopen, hend⟩
      · refine ⟨hrest, hfront, h.spans, fun start' fence' hstart => ?_⟩
        exact h.openFence start' fence' (hopen.trans hstart)

theorem loopAt_foldl (h : LoopAt text lines loop) :
    LoopAt text [] (lines.foldl (scanLine startsAtLineStart) loop) := by
  induction lines generalizing loop with
  | nil => exact h
  | cons raw lines ih => exact ih (loopAt_scanLine h)

end Lines

/-- Every span of a text is at a line that opens a fence. -/
theorem spanOf_parseFenceSpans (text : Utf16) : ∀ span ∈ parseFenceSpans text, SpanOf text span := by
  have hloop : LoopAt text [] (loopOf text true none) := by
    apply loopAt_foldl
    refine ⟨fun _ => ⟨Nat.zero_le _, (join_splitOn NEWLINE text).symm⟩, fun _ => .inl rfl,
      fun _ h => (List.not_mem_nil h).elim, fun _ _ hnone => (by cases hnone)⟩
  intro span hspan
  rw [parseFenceSpans, scanFenceSpans_eq] at hspan
  rcases List.mem_append.mp hspan with hspan | hspan
  · exact hloop.spans span hspan
  · rw [Option.mem_toList] at hspan
    obtain ⟨opened, hopen, rfl⟩ := Option.map_eq_some_iff.mp hspan
    exact ⟨hloop.openFence opened.1 opened.2 hopen, .inl rfl⟩

section SpanOf

variable {text : Utf16} {span : FenceSpan}

theorem not_low_of_marker {c : CodeUnit} (h : isFenceMarker c = true ∨ c = unit ' ') :
    isLowSurrogate c = false ∧ isHighSurrogate c = false ∧ c ≠ NEWLINE := by
  rw [isFenceMarker, Bool.or_eq_true, decide_eq_true_eq, decide_eq_true_eq] at h
  rcases h with (rfl | rfl) | rfl
  · decide
  · decide
  · decide

/-- A fence starts with spaces and markers. -/
theorem OpensAt.unit_at {start k : ℕ} {openLine marker indent : Utf16}
    (h : OpensAt text start openLine marker indent) (hk : k < (indent ++ marker).length) :
    ∃ c, text[start + k]? = some c ∧ (isFenceMarker c = true ∨ c = unit ' ') := by
  obtain ⟨trailing, hmarks⟩ := h.marks
  have hprefix : indent ++ marker <+: text.drop start := by
    refine List.IsPrefix.trans ⟨trailing, ?_⟩ h.line
    rw [List.append_assoc, hmarks.split]
  obtain ⟨more, hmore⟩ := hprefix
  refine ⟨(indent ++ marker)[k], ?_, ?_⟩
  · rw [← List.getElem?_drop, ← hmore, List.getElem?_append_left hk, List.getElem?_eq_getElem hk]
  · rcases List.mem_append.mp (List.getElem_mem hk) with hindent | hmarker
    · exact .inr (hmarks.spaces _ hindent)
    · exact .inl (hmarks.markers _ hmarker)

theorem OpensAt.three_le {start : ℕ} {openLine marker indent : Utf16}
    (h : OpensAt text start openLine marker indent) : 3 ≤ (indent ++ marker).length := by
  obtain ⟨trailing, hmarks⟩ := h.marks
  have := hmarks.three
  rw [List.length_append]
  omega

/-- No pair of surrogates is at an end of a fence. -/
theorem SpanOf.safe (h : SpanOf text span) :
    splitsPair text span.start = false ∧ splitsPair text (span.start + 1) = false ∧
      splitsPair text span.stop = false := by
  obtain ⟨c, hc, hmarker⟩ := h.opens.unit_at ((by decide : 0 < 3).trans_le h.opens.three_le)
  rw [Nat.add_zero] at hc
  obtain ⟨hlow, hhigh, -⟩ := not_low_of_marker hmarker
  refine ⟨?_, ?_, ?_⟩
  · rw [splitsPair, hc, Option.any_some, hlow, Bool.and_false]
  · rw [splitsPair, Nat.add_sub_cancel, hc, Option.any_some, hhigh, Bool.false_and]
  · rcases h.stop with hstop | hstop
    · rw [Bool.eq_false_iff]
      intro hsplits
      have := lt_of_splitsPair hsplits
      omega
    · rw [splitsPair, hstop, Option.any_some]
      exact Bool.and_false _

end SpanOf

/-- Where a fence contains a position, the search finds it. -/
theorem findFenceSpanAt_eq_some {spans : List FenceSpan} (h : Ordered spans) {index : ℕ}
    {span : FenceSpan} :
    findFenceSpanAt spans index = some span ↔ span ∈ spans ∧ span.Contains index := by
  constructor
  · exact of_searchFenceSpan
  · rintro ⟨hmem, hinside⟩
    cases hfind : findFenceSpanAt spans index with
    | none =>
      rw [findFenceSpanAt_eq_find? h] at hfind
      exact absurd (decide_eq_true hinside) (List.find?_eq_none.mp hfind span hmem)
    | some found =>
      obtain ⟨hmem', hinside'⟩ := of_searchFenceSpan hfind
      rw [h.eq_of_contains hmem hmem' hinside hinside']

theorem findFenceSpanAt_eq_none {spans : List FenceSpan} (h : Ordered spans) {index : ℕ} :
    findFenceSpanAt spans index = none ↔ ∀ span ∈ spans, ¬span.Contains index := by
  rw [findFenceSpanAt_eq_find? h, List.find?_eq_none]
  exact forall₂_congr fun span _ => not_congr decide_eq_true_iff

/-- A fence starts with its marker, behind its indentation. -/
theorem OpensAt.marker_at {text : Utf16} {start : ℕ} {openLine marker indent : Utf16}
    (h : OpensAt text start openLine marker indent) :
    ∃ c, text[start + indent.length]? = some c ∧ isFenceMarker c = true := by
  obtain ⟨trailing, hmarks⟩ := h.marks
  obtain ⟨more, hmore⟩ := h.line
  have hpos : 0 < marker.length := (by decide : 0 < 3).trans_le hmarks.three
  refine ⟨marker[0], ?_, hmarks.markers _ (List.getElem_mem hpos)⟩
  rw [← List.getElem?_drop, ← hmore, ← hmarks.split, List.append_assoc,
    List.getElem?_append_right (Nat.le_refl _), Nat.sub_self, List.append_assoc,
    List.getElem?_append_left hpos, List.getElem?_eq_getElem hpos]

theorem not_lineTerminator_of_matchFence {line : Utf16} {found : FenceLine}
    (h : matchFence line = some found) : ∀ c ∈ line, isLineTerminator c = false := by
  have hmarks := marksFence_of_matchFence h
  have htrailing : ∀ c ∈ found.trailing, isLineTerminator c = false := by
    rw [matchFence] at h
    cases hrest : line.drop (line.takeWhile fun c => c = unit ' ').length with
    | nil =>
      rw [hrest] at h
      cases h
    | cons markerChar rest =>
      rw [hrest] at h
      dsimp only at h
      split_ifs at h with hmatch
      obtain rfl := Option.some.inj h
      intro c hc
      have hplain := List.all_eq_true.mp hmatch.2.2.2 c hc
      rwa [Bool.not_eq_true'] at hplain
  intro c hc
  rw [← hmarks.split] at hc
  rcases List.mem_append.mp hc with hc | hc
  · rw [hmarks.spaces c hc]
    decide
  rcases List.mem_append.mp hc with hc | hc
  · have hmarker := hmarks.markers c hc
    rw [isFenceMarker, Bool.or_eq_true, decide_eq_true_eq, decide_eq_true_eq] at hmarker
    rcases hmarker with rfl | rfl
    · decide
    · decide
  · exact htrailing c hc

theorem dropReturn_of_matchFence {line : Utf16} {found : FenceLine}
    (h : matchFence line = some found) : dropReturn line = line := by
  apply if_neg
  intro hlast
  have := not_lineTerminator_of_matchFence h RETURN (List.mem_of_getLast? hlast)
  revert this
  decide

/-- The first fence of a text, open or closed behind a position. -/
def HasFirst (n : ℕ) (loop : ScanLoop) : Prop :=
  n ≤ loop.offset ∧ ((∃ fence, loop.openFence = some (0, fence) ∧ fence.indent.length < n) ∨
    ∃ span ∈ loop.spans, span.start = 0 ∧ span.indent.length < n ∧ n ≤ span.stop)

theorem hasFirst_scanLine {n : ℕ} {startsAtLineStart : Bool} {loop : ScanLoop} {raw : Utf16}
    (h : HasFirst n loop) : HasFirst n (scanLine startsAtLineStart loop raw) := by
  obtain ⟨hoffset, hfirst⟩ := h
  obtain ⟨hnext, hcases⟩ := scanLine_cases startsAtLineStart loop raw
  refine ⟨by omega, ?_⟩
  rcases hcases with ⟨hopen, hspans⟩ | ⟨fence, -, hspans, hnone⟩ | ⟨start, fence, hopen, -, hspans⟩
  · rw [hopen, hspans]
    exact hfirst
  · rw [hspans]
    rcases hfirst with ⟨fence', hfence, -⟩ | hclosed
    · rw [hnone] at hfence
      cases hfence
    · exact .inr hclosed
  · right
    rw [hspans]
    rcases hfirst with ⟨fence', hfence, hindent⟩ | ⟨span, hmem, hspan⟩
    · obtain ⟨rfl, rfl⟩ := Prod.mk.inj (Option.some.inj (hopen.symm.trans hfence))
      refine ⟨_, List.mem_append_right _ (List.mem_singleton_self _), rfl, hindent, ?_⟩
      show n ≤ loop.offset + raw.length
      omega
    · exact ⟨span, List.mem_append_left _ hmem, hspan⟩

theorem hasFirst_foldl {n : ℕ} {startsAtLineStart : Bool} (lines : List Utf16) {loop : ScanLoop}
    (h : HasFirst n loop) : HasFirst n (lines.foldl (scanLine startsAtLineStart) loop) := by
  induction lines generalizing loop with
  | nil => exact h
  | cons raw lines ih => exact ih (hasFirst_scanLine h)

/-- A text that starts with an opening line starts with a fence. -/
theorem exists_span_of_openLine {openLine : Utf16} {found : FenceLine}
    (h : matchFence openLine = some found) (content : Utf16) :
    ∃ span ∈ parseFenceSpans (openLine ++ NEWLINE :: content),
      span.start = 0 ∧ span.indent.length < openLine.length + 1 ∧
        openLine.length + 1 ≤ span.stop := by
  have hnewline : NEWLINE ∉ openLine := by
    intro hmem
    have := not_lineTerminator_of_matchFence h NEWLINE hmem
    revert this
    decide
  have hloop : HasFirst (openLine.length + 1)
      (loopOf (openLine ++ NEWLINE :: content) true none) := by
    rw [loopOf, List.splitOn_append_cons_self_of_not_mem hnewline, List.foldl_cons]
    apply hasFirst_foldl
    refine ⟨?_, .inl ?_⟩
    · rw [(scanLine_cases true _ openLine).1]
      omega
    · rw [scanLine, dropReturn_of_matchFence h, h]
      refine ⟨_, rfl, ?_⟩
      have hlength := congrArg List.length (marksFence_of_matchFence h).split
      rw [List.length_append] at hlength
      show found.indent.length < openLine.length + 1
      omega
  rw [parseFenceSpans, scanFenceSpans_eq]
  show ∃ span ∈ (loopOf (openLine ++ NEWLINE :: content) true none).spansAt _, _
  rw [ScanLoop.spansAt]
  rcases hloop.2 with ⟨fence, hopen, hindent⟩ | ⟨span, hmem, hspan⟩
  · rw [hopen]
    refine ⟨_, List.mem_append_right _ (List.mem_singleton_self _), rfl, hindent, ?_⟩
    show _ ≤ (openLine ++ NEWLINE :: content).length
    rw [List.length_append, List.length_cons]
    omega
  · exact ⟨span, List.mem_append_left _ hmem, hspan⟩

/-- A text and its fences. -/
structure FencedText where
  text : Utf16
  spans : List FenceSpan
  ordered : Ordered spans
  spanOf : ∀ span ∈ spans, SpanOf text span

def FencedText.parse (text : Utf16) : FencedText where
  text := text
  spans := parseFenceSpans text
  ordered := ordered_scanFenceSpans text none
  spanOf := spanOf_parseFenceSpans text

theorem findFenceSpanAt_length (fenced : FencedText) :
    findFenceSpanAt fenced.spans fenced.text.length = none := by
  apply (findFenceSpanAt_eq_none fenced.ordered).mpr
  rintro span hmem ⟨-, hstop⟩
  rcases (fenced.spanOf span hmem).stop with hlast | hnewline
  · omega
  · have := (List.getElem?_eq_some_iff.mp hnewline).1
    omega

end Flashclaw.MarkdownCore
