import Flashclaw.MarkdownCore.TextRanges
import Mathlib.Data.List.Forall2

/-!
# Fenced code

`packages/markdown-core/src/fences.ts`: the scan of the fences of a text, whose state goes on in
the next part of the text, and the search among the spans that it finds.
-/

namespace Flashclaw.MarkdownCore

open Utf16 Ranges

def RETURN : CodeUnit := unit '\r'

structure FenceSpan where
  start : ℕ
  stop : ℕ
  openLine : Utf16
  marker : Utf16
  indent : Utf16
deriving DecidableEq

structure OpenFence where
  markerChar : Utf16
  markerLen : ℕ
  openLine : Utf16
  marker : Utf16
  indent : Utf16
deriving DecidableEq

structure FenceScanState where
  atLineStart : Option Bool
  openFence : Option OpenFence
deriving DecidableEq

/-- The units that `.` does not match. -/
def isLineTerminator (c : CodeUnit) : Bool :=
  c = NEWLINE || c = RETURN || c.val = 0x2028 || c.val = 0x2029

structure FenceLine where
  indent : Utf16
  marker : Utf16
  trailing : Utf16
deriving DecidableEq

/-- `line.match(/^( {0,3})(`{3,}|~{3,})(.*)$/)` -/
def matchFence (line : Utf16) : Option FenceLine :=
  let indent := line.takeWhile fun c => c = unit ' '
  match line.drop indent.length with
  | [] => none
  | markerChar :: rest =>
    let marker := markerChar :: rest.takeWhile fun c => c = markerChar
    let trailing := (markerChar :: rest).drop marker.length
    if indent.length ≤ 3 ∧ (markerChar = unit '`' ∨ markerChar = unit '~') ∧ 3 ≤ marker.length ∧
        trailing.all fun c => !isLineTerminator c then
      some ⟨indent, marker, trailing⟩
    else none

/-- `line.replace(/\r$/, "")` -/
def dropReturn (line : Utf16) : Utf16 :=
  if line.getLast? = some RETURN then line.dropLast else line

def OpenFence.span (fence : OpenFence) (start stop : ℕ) : FenceSpan :=
  ⟨start, stop, fence.openLine, fence.marker, fence.indent⟩

/-- A line of markers that closes a fence. -/
def closesFence (fence : OpenFence) (line : FenceLine) : Bool :=
  fence.markerChar = line.marker.take 1 && fence.markerLen ≤ line.marker.length &&
    line.trailing.all fun c => c = unit ' ' || c = unit '\t'

/-- The variables of the loop. -/
structure ScanLoop where
  offset : ℕ
  openFence : Option (ℕ × OpenFence)
  spans : List FenceSpan
deriving DecidableEq

/-- A round of the loop, with the line at the offset. -/
def scanLine (startsAtLineStart : Bool) (loop : ScanLoop) (raw : Utf16) : ScanLoop :=
  let line := dropReturn raw
  let lineEnd := loop.offset + raw.length
  let next := { loop with offset := lineEnd + 1 }
  match (matchFence line).filter fun _ => 0 < loop.offset || startsAtLineStart with
  | none => next
  | some found =>
    match loop.openFence with
    | none =>
      let fence : OpenFence :=
        { markerChar := found.marker.take 1
          markerLen := found.marker.length
          openLine := line
          marker := found.marker
          indent := found.indent }
      { next with openFence := some (loop.offset, fence) }
    | some (start, fence) =>
      if closesFence fence found then
        { next with openFence := none, spans := loop.spans ++ [fence.span start lineEnd] }
      else next

def scanFenceSpans (buffer : Utf16) (state : Option FenceScanState) :
    List FenceSpan × FenceScanState :=
  let startsAtLineStart := (state.bind FenceScanState.atLineStart).getD true
  let openFence := (state.bind FenceScanState.openFence).map fun fence => (0, fence)
  let loop := (buffer.splitOn NEWLINE).foldl (scanLine startsAtLineStart) ⟨0, openFence, []⟩
  let atLineStart :=
    if buffer.length = 0 then startsAtLineStart else buffer.getLast? = some NEWLINE
  (loop.spans ++ (loop.openFence.map fun (start, fence) => fence.span start buffer.length).toList,
    ⟨some atLineStart, loop.openFence.map Prod.snd⟩)

def parseFenceSpans (buffer : Utf16) : List FenceSpan := (scanFenceSpans buffer none).1

/-- The loop of `findFenceSpanAt`, with `high` one further. -/
def searchFenceSpan (spans : List FenceSpan) (index low high : ℕ) : Option FenceSpan :=
  if _hrange : low < high then
    match spans[(low + high - 1) / 2]? with
    | none => none
    | some span =>
      if index ≤ span.start then searchFenceSpan spans index low ((low + high - 1) / 2)
      else if span.stop ≤ index then searchFenceSpan spans index ((low + high - 1) / 2 + 1) high
      else some span
  else none
termination_by high - low

def findFenceSpanAt (spans : List FenceSpan) (index : ℕ) : Option FenceSpan :=
  searchFenceSpan spans index 0 spans.length

def isSafeFenceBreak (spans : List FenceSpan) (index : ℕ) : Bool :=
  (findFenceSpanAt spans index).isNone

/-- Strictly inside of a span. -/
def FenceSpan.Contains (span : FenceSpan) (index : ℕ) : Prop :=
  span.start < index ∧ index < span.stop

instance (span : FenceSpan) (index : ℕ) : Decidable (span.Contains index) :=
  inferInstanceAs (Decidable (_ ∧ _))

/-- In order, and each behind the one before. -/
structure Ordered (spans : List FenceSpan) : Prop where
  start_le : ∀ span ∈ spans, span.start ≤ span.stop
  apart : spans.Pairwise fun span later => span.stop < later.start

section Search

variable {spans : List FenceSpan} {index low high : ℕ}

theorem Ordered.apart_get (h : Ordered spans) {i j : ℕ} {span later : FenceSpan} (hlt : i < j)
    (hi : spans[i]? = some span) (hj : spans[j]? = some later) : span.stop < later.start := by
  obtain ⟨hi', rfl⟩ := List.getElem?_eq_some_iff.mp hi
  obtain ⟨hj', rfl⟩ := List.getElem?_eq_some_iff.mp hj
  exact List.pairwise_iff_getElem.mp h.apart i j hi' hj' hlt

theorem Ordered.eq_or_apart (h : Ordered spans) {span other : FenceSpan} (hmem : span ∈ spans)
    (hmem' : other ∈ spans) :
    span = other ∨ span.stop < other.start ∨ other.stop < span.start := by
  obtain ⟨i, hi⟩ := List.mem_iff_getElem?.mp hmem
  obtain ⟨j, hj⟩ := List.mem_iff_getElem?.mp hmem'
  rcases Nat.lt_trichotomy i j with hlt | rfl | hgt
  · exact .inr (.inl (h.apart_get hlt hi hj))
  · exact .inl (Option.some.inj (hi.symm.trans hj))
  · exact .inr (.inr (h.apart_get hgt hj hi))

/-- No two spans contain one position. -/
theorem Ordered.eq_of_contains (h : Ordered spans) {span other : FenceSpan} (hmem : span ∈ spans)
    (hmem' : other ∈ spans) (hinside : span.Contains index) (hinside' : other.Contains index) :
    span = other := by
  obtain ⟨hstart, hstop⟩ := hinside
  obtain ⟨hstart', hstop'⟩ := hinside'
  apply (h.eq_or_apart hmem hmem').resolve_right
  omega

theorem Ordered.eq_of_start (h : Ordered spans) {span other : FenceSpan} (hmem : span ∈ spans)
    (hmem' : other ∈ spans) (hsame : span.start = other.start) : span = other := by
  have := h.start_le span hmem
  have := h.start_le other hmem'
  apply (h.eq_or_apart hmem hmem').resolve_right
  omega

theorem of_searchFenceSpan {span : FenceSpan}
    (h : searchFenceSpan spans index low high = some span) :
    span ∈ spans ∧ span.Contains index := by
  induction low, high using searchFenceSpan.induct spans index with
  | case1 low high hrange hmid =>
    rw [searchFenceSpan, dif_pos hrange, hmid] at h
    cases h
  | case2 low high hrange mid hmid hle ih =>
    rw [searchFenceSpan, dif_pos hrange, hmid] at h
    dsimp only at h
    rw [if_pos hle] at h
    exact ih h
  | case3 low high hrange mid hmid hlt hle ih =>
    rw [searchFenceSpan, dif_pos hrange, hmid] at h
    dsimp only at h
    rw [if_neg hlt, if_pos hle] at h
    exact ih h
  | case4 low high hrange mid hmid hlt hle =>
    rw [searchFenceSpan, dif_pos hrange, hmid] at h
    dsimp only at h
    rw [if_neg hlt, if_neg hle] at h
    obtain rfl := Option.some.inj h
    exact ⟨List.mem_of_getElem? hmid, Nat.not_le.mp hlt, Nat.not_le.mp hle⟩
  | case5 low high hrange =>
    rw [searchFenceSpan, dif_neg hrange] at h
    cases h

/-- What the search leaves out does not contain the position. -/
theorem not_contains_of_searchFenceSpan (hordered : Ordered spans) (hhigh : high ≤ spans.length)
    (h : searchFenceSpan spans index low high = none) {i : ℕ} {span : FenceSpan}
    (hlow : low ≤ i) (hi : i < high) (hspan : spans[i]? = some span) : ¬span.Contains index := by
  induction low, high using searchFenceSpan.induct spans index with
  | case1 low high hrange hmid =>
    have hinside : (low + high - 1) / 2 < spans.length := by omega
    rw [List.getElem?_eq_none_iff] at hmid
    omega
  | case2 low high hrange mid hmid hle ih =>
    rw [searchFenceSpan, dif_pos hrange, hmid] at h
    dsimp only at h
    rw [if_pos hle] at h
    rintro hinside
    have hstart := hinside.1
    rcases Nat.lt_trichotomy i ((low + high - 1) / 2) with hlt | rfl | hgt
    · exact ih (by omega) h hlow hlt hinside
    · obtain rfl := Option.some.inj (hmid.symm.trans hspan)
      omega
    · have hapart := hordered.apart_get hgt hmid hspan
      have := hordered.start_le mid (List.mem_of_getElem? hmid)
      omega
  | case3 low high hrange mid hmid hlt hle ih =>
    rw [searchFenceSpan, dif_pos hrange, hmid] at h
    dsimp only at h
    rw [if_neg hlt, if_pos hle] at h
    rintro hinside
    have hstop := hinside.2
    rcases Nat.lt_trichotomy i ((low + high - 1) / 2) with hlt | rfl | hgt
    · have hapart := hordered.apart_get hlt hspan hmid
      have := hordered.start_le mid (List.mem_of_getElem? hmid)
      omega
    · obtain rfl := Option.some.inj (hmid.symm.trans hspan)
      omega
    · exact ih hhigh h hgt hi hinside
  | case4 low high hrange mid hmid hlt hle =>
    rw [searchFenceSpan, dif_pos hrange, hmid] at h
    dsimp only at h
    rw [if_neg hlt, if_neg hle] at h
    cases h
  | case5 low high hrange => omega

/-- The search finds the span that contains a position. -/
theorem findFenceSpanAt_eq_find? (hordered : Ordered spans) (index : ℕ) :
    findFenceSpanAt spans index = spans.find? fun span => span.Contains index := by
  rw [findFenceSpanAt]
  cases hsearch : searchFenceSpan spans index 0 spans.length with
  | none =>
    symm
    rw [List.find?_eq_none]
    intro span hmem
    obtain ⟨i, hi⟩ := List.mem_iff_getElem?.mp hmem
    have hbound := (List.getElem?_eq_some_iff.mp hi).1
    rw [decide_eq_true_eq]
    exact not_contains_of_searchFenceSpan hordered (Nat.le_refl _) hsearch (Nat.zero_le i) hbound hi
  | some span =>
    obtain ⟨hmem, hinside⟩ := of_searchFenceSpan hsearch
    cases hfind : spans.find? fun span => span.Contains index with
    | none =>
      exact absurd (decide_eq_true hinside) (List.find?_eq_none.mp hfind span hmem)
    | some found =>
      have hfound := List.find?_some hfind
      have hinside' : found.Contains index := of_decide_eq_true hfound
      rw [hordered.eq_of_contains hmem (List.mem_of_find?_eq_some hfind) hinside hinside']

end Search

section Loop

variable {startsAtLineStart : Bool}

/-- What a round does: it goes on, it opens a fence, or it closes one. -/
theorem scanLine_cases (startsAtLineStart : Bool) (loop : ScanLoop) (raw : Utf16) :
    (scanLine startsAtLineStart loop raw).offset = loop.offset + raw.length + 1 ∧
      (((scanLine startsAtLineStart loop raw).openFence = loop.openFence ∧
          (scanLine startsAtLineStart loop raw).spans = loop.spans) ∨
        (∃ fence, (scanLine startsAtLineStart loop raw).openFence = some (loop.offset, fence) ∧
          (scanLine startsAtLineStart loop raw).spans = loop.spans ∧ loop.openFence = none) ∨
        ∃ start fence, loop.openFence = some (start, fence) ∧
          (scanLine startsAtLineStart loop raw).openFence = none ∧
          (scanLine startsAtLineStart loop raw).spans =
            loop.spans ++ [fence.span start (loop.offset + raw.length)]) := by
  rw [scanLine]
  cases (matchFence (dropReturn raw)).filter fun _ => 0 < loop.offset || startsAtLineStart with
  | none => exact ⟨rfl, .inl ⟨rfl, rfl⟩⟩
  | some found =>
    cases hopen : loop.openFence with
    | none => exact ⟨rfl, .inr (.inl ⟨_, rfl, rfl, rfl⟩)⟩
    | some opened =>
      obtain ⟨start, fence⟩ := opened
      dsimp only
      split_ifs
      · exact ⟨rfl, .inr (.inr ⟨start, fence, rfl, rfl, rfl⟩)⟩
      · exact ⟨rfl, .inl ⟨rfl, rfl⟩⟩

/-- The spans so far are in front of the open fence, which is in front of the offset. -/
structure LoopOrdered (loop : ScanLoop) : Prop where
  ordered : Ordered loop.spans
  stop_lt : ∀ span ∈ loop.spans, span.stop < loop.offset
  open_lt : ∀ start fence, loop.openFence = some (start, fence) →
    (start < loop.offset ∨ start = 0) ∧ ∀ span ∈ loop.spans, span.stop < start

theorem Ordered.concat {spans : List FenceSpan} {span : FenceSpan} (h : Ordered spans)
    (hle : span.start ≤ span.stop) (hbehind : ∀ earlier ∈ spans, earlier.stop < span.start) :
    Ordered (spans ++ [span]) where
  start_le := by
    intro later hlater
    rcases List.mem_append.mp hlater with hlater | hlater
    · exact h.start_le later hlater
    · rw [List.mem_singleton.mp hlater]
      exact hle
  apart := by
    rw [List.pairwise_append]
    refine ⟨h.apart, List.pairwise_singleton _ _, fun earlier hearlier later hlater => ?_⟩
    rw [List.mem_singleton.mp hlater]
    exact hbehind earlier hearlier

theorem loopOrdered_scanLine {loop : ScanLoop} (h : LoopOrdered loop) (raw : Utf16) :
    LoopOrdered (scanLine startsAtLineStart loop raw) := by
  obtain ⟨hoffset, hcases⟩ := scanLine_cases startsAtLineStart loop raw
  generalize scanLine startsAtLineStart loop raw = next at hoffset hcases
  obtain ⟨offset, openFence, spans⟩ := next
  dsimp only at hoffset hcases
  rcases hcases with ⟨rfl, rfl⟩ | ⟨fence, rfl, rfl, hnone⟩ | ⟨start, fence, hsome, rfl, rfl⟩
  · refine ⟨h.ordered, fun span hspan => ?_, fun start fence hopen => ?_⟩
    · have := h.stop_lt span hspan
      show span.stop < offset
      omega
    · obtain ⟨hstart, hbehind⟩ := h.open_lt start fence hopen
      refine ⟨?_, hbehind⟩
      show start < offset ∨ start = 0
      omega
  · refine ⟨h.ordered, fun span hspan => ?_, fun start fence' hopen => ?_⟩
    · have := h.stop_lt span hspan
      show span.stop < offset
      omega
    · obtain ⟨rfl, rfl⟩ := Prod.mk.inj (Option.some.inj hopen)
      refine ⟨.inl ?_, h.stop_lt⟩
      show loop.offset < offset
      omega
  · obtain ⟨hstart, hbehind⟩ := h.open_lt start fence hsome
    refine ⟨h.ordered.concat ?_ hbehind, fun span hspan => ?_, fun _ _ hopen => ?_⟩
    · show start ≤ loop.offset + raw.length
      omega
    · show span.stop < offset
      rcases List.mem_append.mp hspan with hspan | hspan
      · have := h.stop_lt span hspan
        omega
      · rw [List.mem_singleton.mp hspan, hoffset]
        exact Nat.lt_succ_self _
    · cases hopen

theorem offset_foldl (lines : List Utf16) (loop : ScanLoop) :
    (lines.foldl (scanLine startsAtLineStart) loop).offset =
      loop.offset + (lines.map List.length).sum + lines.length := by
  induction lines generalizing loop with
  | nil => rfl
  | cons line lines ih =>
    rw [List.foldl_cons, ih, (scanLine_cases startsAtLineStart loop line).1, List.map_cons,
      List.sum_cons, List.length_cons]
    omega

theorem loopOrdered_foldl (lines : List Utf16) {loop : ScanLoop} (h : LoopOrdered loop) :
    LoopOrdered (lines.foldl (scanLine startsAtLineStart) loop) := by
  induction lines generalizing loop with
  | nil => exact h
  | cons line lines ih => exact ih (loopOrdered_scanLine h line)

end Loop

/-- The lines of a text have its length, up to the line ends. -/
theorem sum_lines (buffer : Utf16) : ((buffer.splitOn NEWLINE).map List.length).sum +
    (buffer.splitOn NEWLINE).length = buffer.length + 1 := by
  have hlength := length_join NEWLINE (buffer.splitOn NEWLINE)
  have hpos := List.length_pos_of_ne_nil (List.splitOn_ne_nil NEWLINE buffer)
  rw [join_splitOn] at hlength
  omega

/-- The loop of a scan, from the start of a text. -/
def loopOf (buffer : Utf16) (startsAtLineStart : Bool) (openFence : Option OpenFence) : ScanLoop :=
  (buffer.splitOn NEWLINE).foldl (scanLine startsAtLineStart)
    ⟨0, openFence.map fun fence => (0, fence), []⟩

theorem offset_loopOf (buffer : Utf16) (startsAtLineStart : Bool) (openFence : Option OpenFence) :
    (loopOf buffer startsAtLineStart openFence).offset = buffer.length + 1 := by
  rw [loopOf, offset_foldl, Nat.zero_add, sum_lines]

theorem loopOrdered_loopOf (buffer : Utf16) (startsAtLineStart : Bool)
    (openFence : Option OpenFence) :
    LoopOrdered (loopOf buffer startsAtLineStart openFence) := by
  apply loopOrdered_foldl
  refine ⟨⟨fun _ h => (List.not_mem_nil h).elim, .nil⟩, fun _ h => (List.not_mem_nil h).elim, ?_⟩
  intro start fence hopen
  obtain ⟨_, -, hpair⟩ := Option.map_eq_some_iff.mp hopen
  obtain ⟨rfl, rfl⟩ := Prod.mk.inj hpair
  exact ⟨.inr rfl, fun _ h => (List.not_mem_nil h).elim⟩

/-- The spans at the end of a text, where a fence may still be open. -/
def ScanLoop.spansAt (loop : ScanLoop) (stop : ℕ) : List FenceSpan :=
  loop.spans ++ (loop.openFence.map fun (start, fence) => fence.span start stop).toList

theorem scanFenceSpans_eq (buffer : Utf16) (state : Option FenceScanState) :
    scanFenceSpans buffer state =
      ((loopOf buffer ((state.bind FenceScanState.atLineStart).getD true)
          (state.bind FenceScanState.openFence)).spansAt buffer.length,
        ⟨some (if buffer.length = 0 then (state.bind FenceScanState.atLineStart).getD true
            else buffer.getLast? = some NEWLINE),
          (loopOf buffer ((state.bind FenceScanState.atLineStart).getD true)
            (state.bind FenceScanState.openFence)).openFence.map Prod.snd⟩) := rfl

/-- The spans of every scan are in order. -/
theorem ordered_scanFenceSpans (buffer : Utf16) (state : Option FenceScanState) :
    Ordered (scanFenceSpans buffer state).1 := by
  rw [scanFenceSpans_eq]
  have hloop := loopOrdered_loopOf buffer ((state.bind FenceScanState.atLineStart).getD true)
    (state.bind FenceScanState.openFence)
  have hoffset := offset_loopOf buffer ((state.bind FenceScanState.atLineStart).getD true)
    (state.bind FenceScanState.openFence)
  generalize loopOf buffer _ _ = loop at hloop hoffset
  show Ordered (loop.spansAt buffer.length)
  rw [ScanLoop.spansAt]
  cases hopen : loop.openFence with
  | none =>
    rw [Option.map_none, Option.toList_none, List.append_nil]
    exact hloop.ordered
  | some opened =>
    obtain ⟨start, fence⟩ := opened
    obtain ⟨hstart, hbehind⟩ := hloop.open_lt start fence hopen
    apply hloop.ordered.concat _ hbehind
    show start ≤ buffer.length
    omega

/-- A span of the carried scan and the same span of the whole one. -/
def ShiftedSpan (n : ℕ) (carried whole : FenceSpan) : Prop :=
  (whole.start = n + carried.start ∨ carried.start = 0 ∧ whole.start < n) ∧
    whole.stop = n + carried.stop

/-- The loop of the carried scan next to that of the whole one, which has spans from before. -/
structure Carries (n : ℕ) (before : List FenceSpan) (carried whole : ScanLoop) : Prop where
  offset : whole.offset = n + carried.offset
  openFence : (carried.openFence = none ∧ whole.openFence = none) ∨
    ∃ start start' fence, carried.openFence = some (start, fence) ∧
      whole.openFence = some (start', fence) ∧ (start' = n + start ∨ start = 0 ∧ start' < n)
  spans : ∃ after, whole.spans = before ++ after ∧ List.Forall₂ (ShiftedSpan n) carried.spans after

/-- At the start of a line every fence counts. -/
theorem filter_lineStart {startsAtLineStart : Bool} {offset : ℕ} (line : Option FenceLine)
    (h : 0 < offset ∨ startsAtLineStart = true) :
    (line.filter fun _ => 0 < offset || startsAtLineStart) = line := by
  have htrue : (decide (0 < offset) || startsAtLineStart) = true := by
    rw [Bool.or_eq_true, decide_eq_true_eq]
    exact h
  rw [htrue]
  cases line with
  | none => rfl
  | some found => rfl

theorem Carries.step {n : ℕ} (hn : 0 < n) {before : List FenceSpan} {carried whole : ScanLoop}
    (h : Carries n before carried whole) (startsAtLineStart : Bool) (raw : Utf16) :
    Carries n before (scanLine true carried raw) (scanLine startsAtLineStart whole raw) := by
  have hoffset := h.offset
  have hpos : 0 < whole.offset := by omega
  have hnext : whole.offset + raw.length + 1 = n + (carried.offset + raw.length + 1) := by omega
  rw [scanLine, scanLine, filter_lineStart _ (.inl hpos), filter_lineStart _ (.inr rfl)]
  cases matchFence (dropReturn raw) with
  | none => exact ⟨hnext, h.openFence, h.spans⟩
  | some found =>
    rcases h.openFence with ⟨hnone, hnone'⟩ | ⟨start, start', fence, hsome, hsome', hstart⟩
    · rw [hnone, hnone']
      exact ⟨hnext, .inr ⟨_, _, _, rfl, rfl, .inl hoffset⟩, h.spans⟩
    · rw [hsome, hsome']
      dsimp only
      by_cases hclose : closesFence fence found = true
      · rw [if_pos hclose, if_pos hclose]
        obtain ⟨after, hspans, hshift⟩ := h.spans
        refine ⟨hnext, .inl ⟨rfl, rfl⟩, after ++ [fence.span start' (whole.offset + raw.length)],
          ?_, ?_⟩
        · show whole.spans ++ _ = _
          rw [hspans, List.append_assoc]
        · apply List.rel_append hshift
          refine .cons ⟨hstart, ?_⟩ .nil
          show whole.offset + raw.length = n + (carried.offset + raw.length)
          omega
      · rw [if_neg hclose, if_neg hclose]
        exact ⟨hnext, .inr ⟨start, start', fence, rfl, rfl, hstart⟩, h.spans⟩

theorem Carries.foldl {n : ℕ} (hn : 0 < n) {before : List FenceSpan} {carried whole : ScanLoop}
    (h : Carries n before carried whole) (startsAtLineStart : Bool) (lines : List Utf16) :
    Carries n before (lines.foldl (scanLine true) carried)
      (lines.foldl (scanLine startsAtLineStart) whole) := by
  induction lines generalizing carried whole with
  | nil => exact h
  | cons line lines ih => exact ih (h.step hn startsAtLineStart line)

theorem exists_contains_iff {n offset : ℕ} (hoffset : 0 < offset) {carried whole : List FenceSpan}
    (h : List.Forall₂ (ShiftedSpan n) carried whole) :
    (∃ span ∈ carried, span.Contains offset) ↔ ∃ span ∈ whole, span.Contains (n + offset) := by
  induction h with
  | nil =>
    constructor
    · rintro ⟨span, hspan, -⟩
      exact (List.not_mem_nil hspan).elim
    · rintro ⟨span, hspan, -⟩
      exact (List.not_mem_nil hspan).elim
  | @cons span span' rest rest' hshift _ ih =>
    obtain ⟨hstart, hstop⟩ := hshift
    have hiff : span.Contains offset ↔ span'.Contains (n + offset) := by
      rw [FenceSpan.Contains, FenceSpan.Contains, hstop]
      omega
    rw [List.exists_mem_cons_iff, List.exists_mem_cons_iff, hiff, ih]

theorem Carries.spansAt {n : ℕ} {before : List FenceSpan} {carried whole : ScanLoop}
    (h : Carries n before carried whole) (length : ℕ) :
    ∃ after, whole.spansAt (n + length) = before ++ after ∧
      List.Forall₂ (ShiftedSpan n) (carried.spansAt length) after := by
  obtain ⟨after, hspans, hshift⟩ := h.spans
  rw [ScanLoop.spansAt, ScanLoop.spansAt, hspans]
  rcases h.openFence with ⟨hnone, hnone'⟩ | ⟨start, start', fence, hsome, hsome', hstart⟩
  · rw [hnone, hnone', Option.map_none, Option.map_none, Option.toList_none, List.append_nil,
      List.append_nil]
    exact ⟨after, rfl, hshift⟩
  · rw [hsome, hsome']
    refine ⟨after ++ [fence.span start' (n + length)], List.append_assoc _ _ _, ?_⟩
    exact List.rel_append hshift (.cons ⟨hstart, rfl⟩ .nil)

/-- A text that ends a line, scanned first. -/
theorem carries_loopOf {a : Utf16} (ha : a.getLast? = some NEWLINE) (b : Utf16)
    (startsAtLineStart : Bool) (openFence : Option OpenFence) :
    Carries a.length (loopOf a startsAtLineStart openFence).spans
        (loopOf b true ((loopOf a startsAtLineStart openFence).openFence.map Prod.snd))
        (loopOf (a ++ b) startsAtLineStart openFence) ∧
      ∀ span ∈ (loopOf a startsAtLineStart openFence).spans, span.stop < a.length := by
  obtain ⟨front, rfl⟩ := List.getLast?_eq_some_iff.mp ha
  have hlines : loopOf (front ++ [NEWLINE]) startsAtLineStart openFence =
      scanLine startsAtLineStart (loopOf front startsAtLineStart openFence) [] := by
    rw [loopOf, List.splitOn_append_cons_self, List.splitOn_nil, List.foldl_append]
    rfl
  have hwhole : loopOf (front ++ [NEWLINE] ++ b) startsAtLineStart openFence =
      (b.splitOn NEWLINE).foldl (scanLine startsAtLineStart)
        (loopOf front startsAtLineStart openFence) := by
    rw [loopOf, List.append_assoc, List.singleton_append, List.splitOn_append_cons_self,
      List.foldl_append]
    rfl
  have hloop := loopOrdered_loopOf front startsAtLineStart openFence
  have hoffset := offset_loopOf front startsAtLineStart openFence
  have hlength : (front ++ [NEWLINE]).length = front.length + 1 := List.length_append
  rw [hlines, hwhole, hlength]
  generalize loopOf front startsAtLineStart openFence = loop at hloop hoffset
  refine ⟨?_, fun span hspan => hoffset ▸ hloop.stop_lt span hspan⟩
  apply Carries.foldl (Nat.succ_pos _)
  refine ⟨hoffset, ?_, [], (List.append_nil loop.spans).symm, .nil⟩
  have hsame : (scanLine startsAtLineStart loop []).openFence = loop.openFence := rfl
  dsimp only
  rw [hsame]
  cases hopen : loop.openFence with
  | none => exact .inl ⟨rfl, rfl⟩
  | some opened =>
    obtain ⟨start, fence⟩ := opened
    have hstart := (hloop.open_lt start fence hopen).1
    exact .inr ⟨0, start, fence, rfl, rfl, .inr ⟨rfl, by omega⟩⟩

theorem scanFenceSpans_nil (state : Option FenceScanState) :
    (scanFenceSpans [] state).2 = ⟨some ((state.bind FenceScanState.atLineStart).getD true),
      state.bind FenceScanState.openFence⟩ := by
  rw [scanFenceSpans_eq]
  have hloop : (loopOf [] ((state.bind FenceScanState.atLineStart).getD true)
      (state.bind FenceScanState.openFence)).openFence =
        (state.bind FenceScanState.openFence).map fun fence => (0, fence) := rfl
  rw [hloop, Option.map_map]
  cases state.bind FenceScanState.openFence with
  | none => rfl
  | some fence => rfl

/-- The end of a line leads to the start of one. -/
theorem atLineStart_append {a : Utf16} (ha : a.getLast? = some NEWLINE) (b : Utf16)
    (startsAtLineStart : Bool) :
    (if b.length = 0 then true else decide (b.getLast? = some NEWLINE)) =
      if (a ++ b).length = 0 then startsAtLineStart
      else decide ((a ++ b).getLast? = some NEWLINE) := by
  have hne : (a ++ b).length ≠ 0 := by
    intro hzero
    have hnil := List.append_eq_nil_iff.mp (List.length_eq_zero_iff.mp hzero)
    rw [hnil.1] at ha
    cases ha
  rw [if_neg hne]
  cases b with
  | nil =>
    rw [List.append_nil, ha]
    rfl
  | cons c b =>
    rw [List.getLast?_append_of_ne_nil a (List.cons_ne_nil c b)]
    rfl

theorem Carries.openFence_snd {n : ℕ} {before : List FenceSpan} {carried whole : ScanLoop}
    (h : Carries n before carried whole) :
    carried.openFence.map Prod.snd = whole.openFence.map Prod.snd := by
  rcases h.openFence with ⟨hnone, hnone'⟩ | ⟨start, start', fence, hsome, hsome', -⟩
  · rw [hnone, hnone']
  · rw [hsome, hsome']
    rfl

/-- The scan of a text in two parts, cut behind a line, is the scan of the text. -/
theorem scanFenceSpans_append (a b : Utf16) (ha : a = [] ∨ a.getLast? = some NEWLINE)
    (state : Option FenceScanState) :
    (scanFenceSpans b (some (scanFenceSpans a state).2)).2 = (scanFenceSpans (a ++ b) state).2 ∧
      (∀ offset, 0 < offset → offset < b.length →
        ((∃ span ∈ (scanFenceSpans b (some (scanFenceSpans a state).2)).1, span.Contains offset) ↔
          ∃ span ∈ (scanFenceSpans (a ++ b) state).1, span.Contains (a.length + offset))) ∧
      ∀ buffer state', Ordered (scanFenceSpans buffer state').1 ∧
        ∀ index, findFenceSpanAt (scanFenceSpans buffer state').1 index =
          (scanFenceSpans buffer state').1.find? fun span => span.Contains index := by
  have hsearch : ∀ buffer state', Ordered (scanFenceSpans buffer state').1 ∧
      ∀ index, findFenceSpanAt (scanFenceSpans buffer state').1 index =
        (scanFenceSpans buffer state').1.find? fun span => span.Contains index :=
    fun buffer state' => ⟨ordered_scanFenceSpans buffer state',
      findFenceSpanAt_eq_find? (ordered_scanFenceSpans buffer state')⟩
  rcases ha with rfl | ha
  · have hsame : scanFenceSpans b (some (scanFenceSpans [] state).2) = scanFenceSpans b state := by
      rw [scanFenceSpans_nil]
      rfl
    rw [hsame, List.nil_append]
    refine ⟨rfl, fun offset _ _ => ?_, hsearch⟩
    rw [List.length_nil, Nat.zero_add]
  · obtain ⟨hcarries, hbefore⟩ := carries_loopOf ha b
      ((state.bind FenceScanState.atLineStart).getD true) (state.bind FenceScanState.openFence)
    have hstate : (scanFenceSpans a state).2 = ⟨some true, (loopOf a
        ((state.bind FenceScanState.atLineStart).getD true)
        (state.bind FenceScanState.openFence)).openFence.map Prod.snd⟩ := by
      rw [scanFenceSpans_eq, ha]
      have hne : a.length ≠ 0 := by
        intro hzero
        rw [List.length_eq_zero_iff.mp hzero] at ha
        cases ha
      rw [if_neg hne]
      rfl
    rw [hstate, scanFenceSpans_eq b, scanFenceSpans_eq (a ++ b)]
    refine ⟨?_, fun offset hoffset _ => ?_, hsearch⟩
    · rw [← hcarries.openFence_snd, ← atLineStart_append ha b]
      rfl
    · obtain ⟨after, hafter, hshift⟩ := hcarries.spansAt b.length
      rw [List.length_append, hafter]
      apply (exists_contains_iff hoffset hshift).trans
      constructor
      · rintro ⟨span, hspan, hinside⟩
        exact ⟨span, List.mem_append_right _ hspan, hinside⟩
      · rintro ⟨span, hspan, hinside⟩
        refine ⟨span, (List.mem_append.mp hspan).resolve_left fun hspan => ?_, hinside⟩
        -- a span that is closed in the first part is not in the second
        have := hbefore span hspan
        have := hinside.2
        omega

/-- A fence that is open at the cut, and closed behind it. -/
theorem scanFenceSpans_append_sample :
    (scanFenceSpans (ofString "x\r\n```\n")
        (some (scanFenceSpans (ofString "  ```ts\n") none).2)).2 =
      (scanFenceSpans (ofString "  ```ts\n" ++ ofString "x\r\n```\n") none).2 :=
  (scanFenceSpans_append (ofString "  ```ts\n") (ofString "x\r\n```\n") (.inr (by decide)) none).1

end Flashclaw.MarkdownCore
