import Mathlib.Algebra.Order.BigOperators.Group.List
import Flashclaw.Truncation.Bytes

/-!
# Truncation of tool output: lines

The lines of a text, the bytes they take when they are joined again, and what
the two loops over them collect.  Both loops take lines in turn, from the first
or from the last one, while the lines taken so far fit into the bytes.  So they
take as many as fit.
-/

namespace Flashclaw.Truncation

open Utf16

section Split

/-- A text is its lines joined, with a final line feed at most. -/
theorem join_splitLinesForCounting (content : Utf16) :
    content = join LF (splitLinesForCounting content) ∨
      content = join LF (splitLinesForCounting content) ++ [LF] := by
  unfold splitLinesForCounting
  split_ifs with hempty hlast
  · rw [List.length_eq_zero_iff.mp hempty]
    exact .inl rfl
  · obtain ⟨s, rfl⟩ := List.getLast?_eq_some_iff.mp hlast
    right
    show _ = join LF ((s ++ [LF]).splitOn LF).dropLast ++ [LF]
    rw [List.splitOn_append_cons_self, List.splitOn_nil, List.dropLast_concat, join_splitOn]
  · exact .inl (join_splitOn LF content).symm

theorem splitLinesForCounting_eq_nil_iff (content : Utf16) :
    splitLinesForCounting content = [] ↔ content = [] := by
  unfold splitLinesForCounting
  split_ifs with hempty hlast
  · simp [List.length_eq_zero_iff.mp hempty]
  · obtain ⟨s, rfl⟩ := List.getLast?_eq_some_iff.mp hlast
    show ((s ++ [LF]).splitOn LF).dropLast = [] ↔ _
    rw [List.splitOn_append_cons_self, List.splitOn_nil, List.dropLast_concat]
    simp [List.splitOn_ne_nil]
  · have hne : content ≠ [] := fun h => hempty (by rw [h]; rfl)
    simp [List.splitOn_ne_nil, hne]

theorem not_mem_of_mem_splitLines {content line : Utf16}
    (h : line ∈ splitLinesForCounting content) : LF ∉ line := by
  unfold splitLinesForCounting at h
  split_ifs at h with hempty hlast
  · cases h
  · exact not_mem_of_mem_splitOn (List.dropLast_subset _ h)
  · exact not_mem_of_mem_splitOn h

/-- Joined lines count no more than they were: a last one that is empty no longer counts. -/
theorem length_splitLines_join_le {lines : List Utf16} (h : ∀ line ∈ lines, LF ∉ line) :
    (splitLinesForCounting (join LF lines)).length ≤ lines.length := by
  rcases eq_or_ne lines [] with rfl | hne
  · exact Nat.zero_le _
  have hsplit : (join LF lines).splitOn LF = lines := List.splitOn_intercalate LF h hne
  unfold splitLinesForCounting
  split_ifs with hempty hlast
  · exact Nat.zero_le _
  · show ((join LF lines).splitOn LF).dropLast.length ≤ _
    rw [hsplit, List.length_dropLast]
    omega
  · rw [hsplit]

end Split

section Sizes

/-- The bytes of some lines with the line feeds between them. -/
def joinedSize (lines : List Utf16) : ℕ := (Utf8.encode (join LF lines)).length

theorem joinedSize_eq (lines : List Utf16) :
    joinedSize lines =
      (lines.map fun line => (Utf8.encode line).length).sum + (lines.length - 1) := by
  unfold joinedSize
  induction lines with
  | nil => rfl
  | cons p lines ih =>
    cases lines with
    | nil => simp [join_singleton]
    | cons q lines =>
      rw [join_cons_cons, Utf8.encode_append_cons (by decide), List.length_append,
        List.length_cons, ih]
      simp
      omega

theorem joinedSize_reverse (lines : List Utf16) : joinedSize lines.reverse = joinedSize lines := by
  rw [joinedSize_eq, joinedSize_eq, List.map_reverse, List.sum_reverse, List.length_reverse]

theorem joinedSize_concat (lines : List Utf16) (line : Utf16) :
    joinedSize (lines ++ [line]) =
      joinedSize lines + ((Utf8.encode line).length + if lines.length > 0 then 1 else 0) := by
  rw [joinedSize_eq, joinedSize_eq]
  simp only [List.map_append, List.sum_append, List.length_append, List.map_cons, List.map_nil,
    List.sum_singleton, List.length_singleton]
  split_ifs <;> omega

theorem joinedSize_singleton (line : Utf16) : joinedSize [line] = (Utf8.encode line).length := by
  unfold joinedSize
  rw [join_singleton]

theorem joinedSize_le_of_sublist {s t : List Utf16} (h : s.Sublist t) :
    joinedSize s ≤ joinedSize t := by
  have hsum := List.Sublist.sum_le_sum (h.map fun line => (Utf8.encode line).length)
    fun _ _ => Nat.zero_le _
  have hlength := h.length_le
  rw [joinedSize_eq, joinedSize_eq]
  omega

theorem joinedSize_splitLines_le (content : Utf16) :
    joinedSize (splitLinesForCounting content) ≤ (Utf8.encode content).length := by
  unfold joinedSize
  rcases join_splitLinesForCounting content with h | h
  · rw [← h]
  · conv_rhs => rw [h, Utf8.encode_append_cons (by decide), List.length_append]
    exact Nat.le_add_right _ _

theorem length_join_splitLines_le (content : Utf16) :
    (join LF (splitLinesForCounting content)).length ≤ content.length := by
  rcases join_splitLinesForCounting content with h | h
  · rw [← h]
  · conv_rhs => rw [h, List.length_append]
    exact Nat.le_add_right _ _

theorem length_le_of_mem_splitLines {content line : Utf16}
    (h : line ∈ splitLinesForCounting content) : line.length ≤ content.length := by
  have hjoin := length_join_splitLines_le content
  have hmem := List.le_sum_of_mem (List.mem_map_of_mem (f := List.length) h)
  rw [length_join] at hjoin
  omega

/-- Fewer lines are a shorter text. -/
theorem length_join_lt {content : Utf16} {parts : List Utf16}
    (hsub : parts.Sublist (splitLinesForCounting content))
    (hlt : parts.length < (splitLinesForCounting content).length) :
    (join LF parts).length < content.length := by
  have hcontent := length_join_splitLines_le content
  have hsum := List.Sublist.sum_le_sum (hsub.map List.length) fun _ _ => Nat.zero_le _
  have hne : content.length ≠ 0 := by
    intro h
    rw [(splitLinesForCounting_eq_nil_iff content).mpr (List.length_eq_zero_iff.mp h)] at hlt
    cases hlt
  rcases eq_or_ne parts [] with rfl | hparts
  · exact Nat.pos_of_ne_zero hne
  · have := List.length_pos_of_ne_nil hparts
    rw [length_join] at hcontent ⊢
    omega

end Sizes

/-- The loop has taken the lines `parts`, the first ones of those in its reach: all of them, or as
many as fit. -/
structure Collected (maxBytes : ℕ) (limit : TruncatedBy) (reach parts : List Utf16)
    (kept : Kept) : Prop where
  isPrefix : parts <+: reach
  count : kept.outputBytesCount = joinedSize parts
  fits : joinedSize parts ≤ maxBytes
  complete : kept.lastLinePartial = false
  stop : (parts = reach ∧ kept.truncatedBy = limit) ∨
    (∃ line, parts ++ [line] <+: reach ∧ maxBytes < joinedSize (parts ++ [line])) ∧
      kept.truncatedBy = .bytes

section Head

theorem headLoop_collected (runtimeBuffer : Bool) (maxBytes : ℕ) {reach : List Utf16}
    (lines : List Utf16) (kept : Kept) (hreach : kept.outputLinesArr ++ lines = reach)
    (hcount : kept.outputBytesCount = joinedSize kept.outputLinesArr)
    (hfits : kept.outputBytesCount ≤ maxBytes) (hcomplete : kept.lastLinePartial = false) :
    Collected maxBytes kept.truncatedBy reach
      (headLoop runtimeBuffer maxBytes lines kept.outputLinesArr.length kept).outputLinesArr
      (headLoop runtimeBuffer maxBytes lines kept.outputLinesArr.length kept) := by
  induction lines generalizing kept with
  | nil =>
    rw [List.append_nil] at hreach
    exact ⟨hreach ▸ List.prefix_rfl, hcount, hcount ▸ hfits, hcomplete, .inl ⟨hreach, rfl⟩⟩
  | cons line lines ih =>
    have hassoc : kept.outputLinesArr ++ [line] ++ lines = reach := by
      rw [List.append_assoc]
      exact hreach
    have hconcat : joinedSize (kept.outputLinesArr ++ [line]) = kept.outputBytesCount +
        ((Utf8.encode line).length + if kept.outputLinesArr.length > 0 then 1 else 0) := by
      rw [joinedSize_concat, ← hcount]
    rw [headLoop]
    simp only [utf8ByteLength_eq]
    rw [← hconcat]
    split_ifs with hmax
    · exact ⟨⟨_, hreach⟩, hcount, hcount ▸ hfits, hcomplete,
        .inr ⟨⟨line, ⟨_, hassoc⟩, hmax⟩, rfl⟩⟩
    · have := ih
        { kept with
          outputLinesArr := kept.outputLinesArr ++ [line]
          outputBytesCount := joinedSize (kept.outputLinesArr ++ [line]) }
        hassoc rfl (not_lt.mp hmax) hcomplete
      simpa only [List.length_append, List.length_singleton] using this

end Head

section Tail

/-- A last line that is too large on its own is cut. -/
theorem tailLoop_partial (runtimeBuffer : Bool) {maxLines maxBytes : ℕ} (hLines : 0 < maxLines)
    {line : Utf16} (hlarge : maxBytes < (Utf8.encode line).length) (before : List Utf16)
    (limit : TruncatedBy) :
    tailLoop runtimeBuffer maxLines maxBytes (line :: before) ⟨[], 0, limit, false⟩ =
      { outputLinesArr := [truncateStringToBytesFromEnd line maxBytes]
        outputBytesCount := (Utf8.encode (truncateStringToBytesFromEnd line maxBytes)).length
        truncatedBy := .bytes
        lastLinePartial := true } := by
  rw [tailLoop]
  simp only [utf8ByteLength_eq, List.length_nil, gt_iff_lt, lt_irrefl, if_false, if_true,
    Nat.zero_add, Nat.add_zero]
  rw [if_pos hLines, if_pos hlarge]

theorem tailLoop_collected (runtimeBuffer : Bool) {maxLines maxBytes : ℕ} {all : List Utf16}
    (before : List Utf16) (kept : Kept) (hall : kept.outputLinesArr.reverse ++ before = all)
    (hlength : kept.outputLinesArr.length ≤ maxLines)
    (hcount : kept.outputBytesCount = joinedSize kept.outputLinesArr)
    (hfits : kept.outputBytesCount ≤ maxBytes) (hcomplete : kept.lastLinePartial = false)
    (hfirst : ∀ line, kept.outputLinesArr = [] → before.head? = some line →
      (Utf8.encode line).length ≤ maxBytes) :
    Collected maxBytes kept.truncatedBy (all.take maxLines)
      (tailLoop runtimeBuffer maxLines maxBytes before kept).outputLinesArr.reverse
      (tailLoop runtimeBuffer maxLines maxBytes before kept) := by
  have hcount' : kept.outputBytesCount = joinedSize kept.outputLinesArr.reverse := by
    rw [joinedSize_reverse]
    exact hcount
  have hlength' : kept.outputLinesArr.reverse.length ≤ maxLines := by
    rw [List.length_reverse]
    exact hlength
  have hpart : kept.outputLinesArr.reverse <+: all.take maxLines :=
    (List.prefix_take_iff).mpr ⟨⟨_, hall⟩, hlength'⟩
  induction before generalizing kept with
  | nil =>
    rw [List.append_nil] at hall
    refine ⟨hpart, hcount', hcount' ▸ hfits, hcomplete, .inl ⟨?_, rfl⟩⟩
    show kept.outputLinesArr.reverse = all.take maxLines
    rw [← hall, List.take_of_length_le hlength']
  | cons line before ih =>
    have hassoc : kept.outputLinesArr.reverse ++ [line] ++ before = all := by
      rw [List.append_assoc]
      exact hall
    have hconcat : joinedSize (kept.outputLinesArr.reverse ++ [line]) = kept.outputBytesCount +
        ((Utf8.encode line).length + if kept.outputLinesArr.length > 0 then 1 else 0) := by
      rw [joinedSize_concat, ← hcount', List.length_reverse]
    rw [tailLoop]
    simp only [utf8ByteLength_eq]
    rw [← hconcat]
    split_ifs with hroom hmax hempty
    · -- A first line that is too large is not in question here.
      have hnil := List.length_eq_zero_iff.mp hempty
      have hline := hfirst line hnil rfl
      rw [hnil, List.reverse_nil, List.nil_append, joinedSize_singleton] at hmax
      omega
    · -- the next line does not fit
      refine ⟨hpart, hcount', hcount' ▸ hfits, hcomplete, .inr ⟨⟨line, ?_, hmax⟩, rfl⟩⟩
      apply List.prefix_take_iff.mpr
      refine ⟨⟨_, hassoc⟩, ?_⟩
      rw [List.length_append, List.length_reverse, List.length_singleton]
      exact hroom
    · have hreverse : (line :: kept.outputLinesArr).reverse = kept.outputLinesArr.reverse ++ [line] :=
        List.reverse_cons
      apply ih
        { kept with
          outputLinesArr := line :: kept.outputLinesArr
          outputBytesCount := joinedSize (kept.outputLinesArr.reverse ++ [line]) }
      · rw [hreverse]
        exact hassoc
      · exact hroom
      · show joinedSize (kept.outputLinesArr.reverse ++ [line]) = joinedSize (line :: _)
        rw [← hreverse, joinedSize_reverse]
      · exact not_lt.mp hmax
      · exact hcomplete
      · rintro - ⟨⟩
      · show joinedSize (kept.outputLinesArr.reverse ++ [line]) = joinedSize (line :: _).reverse
        rw [hreverse]
      · rw [hreverse, List.length_append, List.length_reverse, List.length_singleton]
        exact hroom
      · rw [hreverse]
        apply List.prefix_take_iff.mpr
        refine ⟨⟨_, hassoc⟩, ?_⟩
        rw [List.length_append, List.length_reverse, List.length_singleton]
        exact hroom
    · refine ⟨hpart, hcount', hcount' ▸ hfits, hcomplete, .inl ⟨?_, rfl⟩⟩
      show kept.outputLinesArr.reverse = all.take maxLines
      -- as many lines as are allowed were taken
      have hfull : kept.outputLinesArr.reverse.length = maxLines := by
        rw [List.length_reverse]
        omega
      rw [← hall, ← hfull, List.take_left]

end Tail

end Flashclaw.Truncation
