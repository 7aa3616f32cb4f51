import Flashclaw.Truncation.Lines
import Mathlib.Data.List.DropRight
import Mathlib.Order.Bounds.Basic

/-!
# Truncation of tool output: what is returned

The whole text, or the longest run of lines at its start (end) that respects
both limits; and the longest end of a last line that is too large on its own.
-/

namespace Flashclaw.Truncation

open Utf16

/-- What every result promises: its limits, its size, and whether it is the whole text. -/
structure Consistent (content : Utf16) (options : TruncationOptions) (r : TruncationResult) :
    Prop where
  lines_le : (splitLinesForCounting r.content).length ≤ options.lineLimit
  bytes_le : (Utf8.encode r.content).length ≤ options.byteLimit
  outputBytes_eq : r.outputBytes = (Utf8.encode r.content).length
  whole_iff : r.truncated = false ↔ r.content = content
  none_iff : r.truncatedBy = none ↔ r.truncated = false

/-- The result is the whole text, or the longest of the parts of its lines within the limits. -/
def IsLongest (content : Utf16) (options : TruncationOptions) (part : ℕ → List Utf16)
    (r : TruncationResult) : Prop :=
  r.content = content ∨
    IsGreatest {n | n ≤ (splitLinesForCounting content).length ∧ n ≤ options.lineLimit ∧
        joinedSize (part n) ≤ options.byteLimit} r.outputLines ∧
      r.content = join LF (part r.outputLines)

/-- The limit of lines is reported iff there are more lines and as many as it allows fit. -/
def ReportsLines (content : Utf16) (options : TruncationOptions) (part : ℕ → List Utf16)
    (r : TruncationResult) : Prop :=
  r.truncatedBy = some .lines ↔ options.lineLimit < (splitLinesForCounting content).length ∧
    joinedSize (part options.lineLimit) ≤ options.byteLimit

/-- `cut` starts the longest end of a line that splits no pair of surrogates and fits. -/
def IsLongestEnd (maxBytes : ℕ) (line : Utf16) (cut : ℕ) : Prop :=
  IsLeast {i | i ≤ line.length ∧ IsCut (line.take i) (line.drop i) ∧
    (Utf8.encode (line.drop i)).length ≤ maxBytes} cut

section Collected

variable {maxLines maxBytes : ℕ} {limit : TruncatedBy} {all parts : List Utf16} {kept : Kept}

theorem Collected.parts_eq (h : Collected maxBytes limit (all.take maxLines) parts kept) :
    parts = all.take parts.length :=
  List.prefix_iff_eq_take.mp (h.isPrefix.trans (List.take_prefix maxLines all))

theorem Collected.length_le (h : Collected maxBytes limit (all.take maxLines) parts kept) :
    parts.length ≤ all.length ∧ parts.length ≤ maxLines := by
  have := h.isPrefix.length_le
  rw [List.length_take] at this
  omega

/-- The loop stops where the limit of lines is reached, or the next line does not fit. -/
theorem Collected.isGreatest (h : Collected maxBytes limit (all.take maxLines) parts kept) :
    IsGreatest {n | n ≤ all.length ∧ n ≤ maxLines ∧ joinedSize (all.take n) ≤ maxBytes}
      parts.length := by
  obtain ⟨hall, hmax⟩ := h.length_le
  refine ⟨⟨hall, hmax, h.parts_eq ▸ h.fits⟩, ?_⟩
  rintro n ⟨hn, hn', hfits⟩
  rcases h.stop with ⟨hparts, -⟩ | ⟨⟨line, hnext, hlarge⟩, -⟩
  · rw [hparts, List.length_take]
    omega
  · by_contra hlt
    have htake : parts ++ [line] <+: all.take n := by
      apply List.prefix_take_iff.mpr
      refine ⟨hnext.trans (List.take_prefix maxLines all), ?_⟩
      rw [List.length_append, List.length_singleton]
      omega
    have := joinedSize_le_of_sublist htake.sublist
    omega

end Collected

section Whole

variable {runtimeBuffer : Bool} {content : Utf16} {options : TruncationOptions}

/-- The text as it is respects both limits. -/
def Fits (content : Utf16) (options : TruncationOptions) : Prop :=
  (splitLinesForCounting content).length ≤ options.lineLimit ∧
    (Utf8.encode content).length ≤ options.byteLimit

theorem consistent_wholeResult (h : Fits content options) :
    Consistent content options
      ((resolveTruncationInput runtimeBuffer content options).wholeResult content) :=
  ⟨h.1, h.2, utf8ByteLength_eq runtimeBuffer content, by simp [ResolvedTruncationInput.wholeResult],
    by simp [ResolvedTruncationInput.wholeResult]⟩

theorem reportsLines_wholeResult (part : ℕ → List Utf16) (h : Fits content options) :
    ReportsLines content options part
      ((resolveTruncationInput runtimeBuffer content options).wholeResult content) := by
  have := h.1
  unfold ReportsLines
  simp only [ResolvedTruncationInput.wholeResult, reduceCtorEq, false_iff]
  omega

/-- Lines that respect the limits are never the text, when that does not. -/
theorem join_ne_content (h : ¬ Fits content options) {parts : List Utf16}
    (hsub : parts.Sublist (splitLinesForCounting content))
    (hlength : parts.length ≤ options.lineLimit) (hfits : joinedSize parts ≤ options.byteLimit) :
    join LF parts ≠ content := by
  intro heq
  rcases hsub.length_le.lt_or_eq with hlt | hall
  · have := length_join_lt hsub hlt
    rw [heq] at this
    exact lt_irrefl _ this
  · apply h
    refine ⟨hall ▸ hlength, ?_⟩
    rw [← heq]
    exact hfits

theorem consistent_keptResult (h : ¬ Fits content options) {kept : Kept}
    (hsub : kept.outputLinesArr.Sublist (splitLinesForCounting content))
    (hlength : kept.outputLinesArr.length ≤ options.lineLimit)
    (hfits : joinedSize kept.outputLinesArr ≤ options.byteLimit) :
    Consistent content options
      ((resolveTruncationInput runtimeBuffer content options).keptResult runtimeBuffer kept) := by
  refine ⟨?_, hfits, utf8ByteLength_eq runtimeBuffer _, ?_, ?_⟩
  · exact (length_splitLines_join_le fun line hline =>
      not_mem_of_mem_splitLines (hsub.subset hline)).trans hlength
  · exact iff_of_false (by simp [ResolvedTruncationInput.keptResult])
      (join_ne_content h hsub hlength hfits)
  · simp [ResolvedTruncationInput.keptResult]

/-- The limit of lines is reported when the loop stopped there. -/
theorem reportsLines_keptResult {part : ℕ → List Utf16} {all parts : List Utf16} {kept : Kept}
    (hall : all.length = (splitLinesForCounting content).length)
    (hpart : joinedSize (part options.lineLimit) = joinedSize (all.take options.lineLimit))
    (h : Collected options.byteLimit
      (resolveTruncationInput runtimeBuffer content options).initialLimit
      (all.take options.lineLimit) parts kept)
    (hkept : kept.outputLinesArr.length = parts.length) :
    ReportsLines content options part
      ((resolveTruncationInput runtimeBuffer content options).keptResult runtimeBuffer kept) := by
  obtain ⟨-, hlength⟩ := h.length_le
  have hgreatest := h.isGreatest
  have hcount : kept.outputBytesCount ≤ options.byteLimit := h.count ▸ h.fits
  -- all lines that are allowed were taken just where their bytes fit
  have hfull : options.lineLimit < all.length →
      (options.lineLimit ≤ parts.length ↔
        joinedSize (all.take options.lineLimit) ≤ options.byteLimit) := by
    intro hmore
    constructor
    · intro hle
      obtain heq : parts.length = options.lineLimit := le_antisymm hlength hle
      rw [← heq]
      exact hgreatest.1.2.2
    · intro hfits
      exact hgreatest.2 ⟨hmore.le, le_rfl, hfits⟩
  unfold ReportsLines
  show some (ResolvedTruncationInput.finalLimit _ kept) = some TruncatedBy.lines ↔ _
  rw [Option.some.injEq, hpart, ← hall]
  unfold ResolvedTruncationInput.finalLimit
  have hlimit : (resolveTruncationInput runtimeBuffer content options).initialLimit =
      if all.length > options.lineLimit then .lines else .bytes := by
    rw [hall]
    rfl
  rw [hlimit] at h
  show (if (splitLinesForCounting content).length > options.lineLimit ∧
    kept.outputLinesArr.length ≥ options.lineLimit ∧ kept.outputBytesCount ≤ options.byteLimit
    then TruncatedBy.lines else kept.truncatedBy) = _ ↔ _
  rw [← hall, hkept]
  by_cases hmore : options.lineLimit < all.length
  · rw [if_pos hmore] at h
    have hiff := hfull hmore
    split_ifs with hcond
    · simp only [true_iff]
      exact ⟨hmore, hiff.mp hcond.2.1⟩
    · have hshort : parts.length < options.lineLimit := by
        by_contra hnot
        exact hcond ⟨hmore, not_lt.mp hnot, hcount⟩
      have hbytes : kept.truncatedBy = .bytes := by
        rcases h.stop with ⟨hparts, -⟩ | ⟨-, hbytes⟩
        · have := congrArg List.length hparts
          rw [List.length_take] at this
          omega
        · exact hbytes
      rw [hbytes, ← hiff]
      simp only [reduceCtorEq, false_iff]
      omega
  · rw [if_neg hmore] at h
    have hbytes : kept.truncatedBy = .bytes := by
      rcases h.stop with ⟨-, hbytes⟩ | ⟨-, hbytes⟩
      · exact hbytes
      · exact hbytes
    rw [if_neg fun hcond => hmore hcond.1, hbytes]
    simp [hmore]

end Whole

section Head

variable {content : Utf16} {options : TruncationOptions}

theorem truncateHead_eq_whole (runtimeBuffer : Bool) (h : Fits content options) :
    truncateHead runtimeBuffer content options =
      (resolveTruncationInput runtimeBuffer content options).wholeResult content := by
  unfold truncateHead
  simp only
  rw [if_pos]
  simp only [resolveTruncationInput, utf8ByteLength_eq]
  exact h

/-- A first line that is too large is where the loop would stop at once. -/
theorem truncateHead_eq (runtimeBuffer : Bool) (hLines : 0 < options.lineLimit)
    (h : ¬ Fits content options) :
    ∃ exceeds, truncateHead runtimeBuffer content options =
      { (resolveTruncationInput runtimeBuffer content options).keptResult runtimeBuffer
          (headLoop runtimeBuffer options.byteLimit
            ((splitLinesForCounting content).take options.lineLimit) 0
            ⟨[], 0, (resolveTruncationInput runtimeBuffer content options).initialLimit, false⟩) with
        firstLineExceedsLimit := exceeds } := by
  have hinput : ¬ ((resolveTruncationInput runtimeBuffer content options).totalLines ≤
      (resolveTruncationInput runtimeBuffer content options).maxLines ∧
      (resolveTruncationInput runtimeBuffer content options).totalBytes ≤
      (resolveTruncationInput runtimeBuffer content options).maxBytes) := by
    simp only [resolveTruncationInput, utf8ByteLength_eq]
    exact h
  unfold truncateHead
  simp only [if_neg hinput]
  split_ifs with hfirst
  · refine ⟨true, ?_⟩
    have hloop : headLoop runtimeBuffer options.byteLimit
        ((splitLinesForCounting content).take options.lineLimit) 0
        ⟨[], 0, (resolveTruncationInput runtimeBuffer content options).initialLimit, false⟩ =
        ⟨[], 0, .bytes, false⟩ := by
      obtain ⟨n, hn⟩ := Nat.exists_eq_succ_of_ne_zero hLines.ne'
      change ((splitLinesForCounting content)[0]?).any _ = true at hfirst
      rw [hn]
      cases hlines : splitLinesForCounting content with
      | nil => simp [hlines] at hfirst
      | cons line lines =>
        have hlarge : options.byteLimit < (Utf8.encode line).length := by
          simpa [hlines, resolveTruncationInput] using hfirst
        rw [List.take_succ_cons, headLoop]
        simp only [utf8ByteLength_eq, gt_iff_lt, lt_irrefl, if_false, Nat.zero_add, Nat.add_zero]
        rw [if_pos hlarge]
    have hlimit : (resolveTruncationInput runtimeBuffer content options).finalLimit
        ⟨[], 0, .bytes, false⟩ = .bytes := by
      unfold ResolvedTruncationInput.finalLimit
      rw [if_neg]
      rintro ⟨-, hle, -⟩
      exact absurd hLines (not_lt.mpr hle)
    rw [hloop]
    unfold ResolvedTruncationInput.keptResult
    rw [hlimit, utf8ByteLength_eq]
    rfl
  · exact ⟨false, rfl⟩

theorem head_exact (runtimeBuffer : Bool) (hLines : 0 < options.lineLimit) :
    let head := truncateHead runtimeBuffer content options
    Consistent content options head ∧
      IsLongest content options (splitLinesForCounting content).take head ∧
      ReportsLines content options (splitLinesForCounting content).take head := by
  by_cases h : Fits content options
  · simp only [truncateHead_eq_whole runtimeBuffer h]
    exact ⟨consistent_wholeResult h, .inl rfl, reportsLines_wholeResult _ h⟩
  · obtain ⟨exceeds, heq⟩ := truncateHead_eq runtimeBuffer hLines h
    have hloop := headLoop_collected runtimeBuffer options.byteLimit
      ((splitLinesForCounting content).take options.lineLimit)
      ⟨[], 0, (resolveTruncationInput runtimeBuffer content options).initialLimit, false⟩
      rfl rfl (Nat.zero_le _) rfl
    have hconsistent := @consistent_keptResult runtimeBuffer content options h _
      (hloop.isPrefix.trans (List.take_prefix _ _)).sublist hloop.length_le.2 hloop.fits
    have hreports := @reportsLines_keptResult runtimeBuffer content options
      (splitLinesForCounting content).take _ _ _ rfl rfl hloop rfl
    simp only [heq]
    refine ⟨⟨hconsistent.lines_le, hconsistent.bytes_le, hconsistent.outputBytes_eq,
      hconsistent.whole_iff, hconsistent.none_iff⟩, .inr ⟨hloop.isGreatest, ?_⟩, hreports⟩
    exact congrArg (join LF) hloop.parts_eq

end Head

section Tail

variable {content : Utf16} {options : TruncationOptions}

theorem truncateTail_eq_whole (runtimeBuffer : Bool) (h : Fits content options) :
    truncateTail runtimeBuffer content options =
      (resolveTruncationInput runtimeBuffer content options).wholeResult content := by
  unfold truncateTail
  simp only
  rw [if_pos]
  simp only [resolveTruncationInput, utf8ByteLength_eq]
  exact h

theorem truncateTail_eq_kept (runtimeBuffer : Bool) (h : ¬ Fits content options) :
    truncateTail runtimeBuffer content options =
      (resolveTruncationInput runtimeBuffer content options).keptResult runtimeBuffer
        (tailLoop runtimeBuffer options.lineLimit options.byteLimit
          (splitLinesForCounting content).reverse
          ⟨[], 0, (resolveTruncationInput runtimeBuffer content options).initialLimit, false⟩) := by
  unfold truncateTail
  simp only
  rw [if_neg]
  · rfl
  · simp only [resolveTruncationInput, utf8ByteLength_eq]
    exact h

/-- The last line is too large on its own. -/
def LastLineExceeds (content : Utf16) (options : TruncationOptions) : Prop :=
  ∃ line, (splitLinesForCounting content).getLast? = some line ∧
    options.byteLimit < (Utf8.encode line).length

/-- Complete lines are kept when the last one fits. -/
theorem tail_complete (runtimeBuffer : Bool) (hlast : ¬ LastLineExceeds content options) :
    let tail := truncateTail runtimeBuffer content options
    tail.lastLinePartial = false ∧ Consistent content options tail ∧
      IsLongest content options (splitLinesForCounting content).rtake tail ∧
      ReportsLines content options (splitLinesForCounting content).rtake tail := by
  by_cases h : Fits content options
  · simp only [truncateTail_eq_whole runtimeBuffer h]
    exact ⟨rfl, consistent_wholeResult h, .inl rfl, reportsLines_wholeResult _ h⟩
  · have hpart : ∀ n, (splitLinesForCounting content).rtake n =
        ((splitLinesForCounting content).reverse.take n).reverse := fun n =>
      List.rtake_eq_reverse_take_reverse _ n
    have hfirst : ∀ line, ([] : List Utf16) = [] →
        (splitLinesForCounting content).reverse.head? = some line →
        (Utf8.encode line).length ≤ options.byteLimit := by
      intro line _ hline
      rw [List.head?_reverse] at hline
      by_contra hlarge
      exact hlast ⟨line, hline, not_le.mp hlarge⟩
    -- The loop runs over the lines from the end, so its kept lines are read back reversed.
    generalize hinitial :
      (resolveTruncationInput runtimeBuffer content options).initialLimit = limit
    have hloop : Collected options.byteLimit limit
        ((splitLinesForCounting content).reverse.take options.lineLimit) _ _ :=
      tailLoop_collected runtimeBuffer (splitLinesForCounting content).reverse
        ⟨[], 0, limit, false⟩ rfl (Nat.zero_le _) rfl (Nat.zero_le _) rfl hfirst
    rw [truncateTail_eq_kept runtimeBuffer h]
    rw [hinitial]
    generalize tailLoop runtimeBuffer options.lineLimit options.byteLimit
      (splitLinesForCounting content).reverse _ = kept at hloop ⊢
    have hlength : kept.outputLinesArr.length = kept.outputLinesArr.reverse.length :=
      List.length_reverse.symm
    -- What was collected is a prefix of the reversed lines: a suffix of the text's own.
    have hsub : kept.outputLinesArr.Sublist (splitLinesForCounting content) := by
      apply List.reverse_sublist.mp
      exact (hloop.isPrefix.trans (List.take_prefix _ _)).sublist
    have hfits : joinedSize kept.outputLinesArr ≤ options.byteLimit := by
      rw [← joinedSize_reverse]
      exact hloop.fits
    have hsize : ∀ n, joinedSize ((splitLinesForCounting content).rtake n) =
        joinedSize ((splitLinesForCounting content).reverse.take n) := by
      intro n
      rw [hpart, joinedSize_reverse]
    refine ⟨hloop.complete, consistent_keptResult h hsub (hlength ▸ hloop.length_le.2) hfits,
      .inr ⟨?_, ?_⟩, reportsLines_keptResult List.length_reverse (hsize _)
        (hinitial ▸ hloop) hlength⟩
    · have hgreatest := hloop.isGreatest
      rw [List.length_reverse, ← hlength] at hgreatest
      simp only [hsize]
      exact hgreatest
    · show join LF kept.outputLinesArr =
        join LF ((splitLinesForCounting content).rtake kept.outputLinesArr.length)
      rw [hpart, hlength, ← hloop.parts_eq, List.reverse_reverse]

/-- A last line that does not fit is cut inside. -/
theorem tail_partial (runtimeBuffer : Bool) (hLines : 0 < options.lineLimit)
    (hBytes : 0 < options.byteLimit) {line : Utf16}
    (hline : (splitLinesForCounting content).getLast? = some line)
    (hlarge : options.byteLimit < (Utf8.encode line).length) :
    let tail := truncateTail runtimeBuffer content options
    tail.lastLinePartial = true ∧ Consistent content options tail ∧
      (∃ cut, IsLongestEnd options.byteLimit line cut ∧
        tail.content = Utf8.toWellFormed (line.drop cut)) ∧
      (¬ (options.lineLimit = 1 ∧ 1 < (splitLinesForCounting content).length) →
        ReportsLines content options (splitLinesForCounting content).rtake tail) := by
  obtain ⟨init, hinit⟩ := List.getLast?_eq_some_iff.mp hline
  have hmem : line ∈ splitLinesForCounting content := by
    rw [hinit]
    simp
  -- one line alone is too large
  have hnot : ¬ Fits content options := by
    rintro ⟨-, hfits⟩
    have hone := joinedSize_le_of_sublist (List.singleton_sublist.mpr hmem)
    have := joinedSize_splitLines_le content
    rw [joinedSize_singleton] at hone
    omega
  obtain ⟨cut, hcut, hresult⟩ := truncateStringToBytesFromEnd_spec line hBytes
  rw [truncateTail_eq_kept runtimeBuffer hnot, hinit, List.reverse_concat,
    tailLoop_partial runtimeBuffer hLines hlarge, hresult, ← hinit]
  have hcontent : join LF [Utf8.toWellFormed (line.drop cut)] = Utf8.toWellFormed (line.drop cut) :=
    join_singleton LF _
  -- what is kept is shorter than the text, so the report of a cut is true
  have hlength : (Utf8.toWellFormed (line.drop cut)).length < content.length := by
    have hle := length_le_of_mem_splitLines hmem
    have hpos : cut ≠ 0 := by
      rintro rfl
      have := hcut.1.2.2
      rw [List.drop_zero] at this
      omega
    have := hcut.1.1
    rw [Utf8.length_toWellFormed, List.length_drop]
    omega
  have hbreak : ∀ p ∈ [Utf8.toWellFormed (line.drop cut)], LF ∉ p := by
    intro p hp hbreak
    rw [List.mem_singleton.mp hp] at hbreak
    rcases Utf8.mem_toWellFormed hbreak with hbreak | hbreak
    · exact not_mem_of_mem_splitLines hmem (List.mem_of_mem_drop hbreak)
    · revert hbreak
      decide
  refine ⟨rfl, ⟨?_, ?_, utf8ByteLength_eq runtimeBuffer _, iff_of_false ?_ ?_, ?_⟩,
    ⟨cut, hcut, hcontent⟩, ?_⟩
  · exact (length_splitLines_join_le hbreak).trans hLines
  · show (Utf8.encode (join LF [_])).length ≤ _
    rw [hcontent, Utf8.encode_toWellFormed]
    exact hcut.1.2.2
  · simp [ResolvedTruncationInput.keptResult]
  · intro heq
    rw [← heq] at hlength
    change _ < (join LF [_]).length at hlength
    rw [hcontent] at hlength
    exact lt_irrefl _ hlength
  · simp [ResolvedTruncationInput.keptResult]
  · intro hsingle
    have hlast : [line].Sublist ((splitLinesForCounting content).rtake options.lineLimit) := by
      obtain ⟨n, hn⟩ := Nat.exists_eq_succ_of_ne_zero hLines.ne'
      rw [hn, hinit, List.rtake_concat_succ]
      exact List.sublist_append_right _ _
    have hsize := joinedSize_le_of_sublist hlast
    rw [joinedSize_singleton] at hsize
    refine iff_of_false ?_ fun hfits => absurd hfits.2 (by omega)
    show some (ResolvedTruncationInput.finalLimit _ _) ≠ _
    unfold ResolvedTruncationInput.finalLimit
    rw [if_neg]
    · simp
    · rintro ⟨hmore, hfull, -⟩
      exact hsingle ⟨le_antisymm hfull hLines, lt_of_le_of_lt hLines hmore⟩

/-- A truncated text is the longest run of lines at its start (end) within both limits, or the
longest end of a last line that is too large; what is reported goes with it. -/
theorem truncation_exact (runtimeBuffer : Bool) (content : Utf16) (options : TruncationOptions)
    (hLines : 0 < options.lineLimit) (hBytes : 0 < options.byteLimit) :
    let lines := splitLinesForCounting content
    let head := truncateHead runtimeBuffer content options
    let tail := truncateTail runtimeBuffer content options
    (Consistent content options head ∧ IsLongest content options lines.take head ∧
      ReportsLines content options lines.take head) ∧
    Consistent content options tail ∧
      (tail.lastLinePartial = false → IsLongest content options lines.rtake tail) ∧
      (tail.lastLinePartial = true → ∃ line cut, lines.getLast? = some line ∧
        options.byteLimit < (Utf8.encode line).length ∧
        IsLongestEnd options.byteLimit line cut ∧
        tail.content = Utf8.toWellFormed (line.drop cut)) ∧
      (¬ (tail.lastLinePartial = true ∧ options.lineLimit = 1 ∧ 1 < lines.length) →
        ReportsLines content options lines.rtake tail) := by
  refine ⟨head_exact runtimeBuffer hLines, ?_⟩
  by_cases hlast : LastLineExceeds content options
  · obtain ⟨line, hline, hlarge⟩ := hlast
    obtain ⟨hcut', hconsistent, ⟨cut, hcut, hcontent⟩, hreports⟩ :=
      tail_partial runtimeBuffer hLines hBytes hline hlarge
    refine ⟨hconsistent, fun h => ?_, fun _ => ⟨line, cut, hline, hlarge, hcut, hcontent⟩, ?_⟩
    · rw [hcut'] at h
      cases h
    · exact fun h => hreports fun hsingle => h ⟨hcut', hsingle⟩
  · obtain ⟨hcut', hconsistent, hlongest, hreports⟩ := tail_complete runtimeBuffer hlast
    refine ⟨hconsistent, fun _ => hlongest, fun h => ?_, fun _ => hreports⟩
    rw [hcut'] at h
    cases h

/-- A text of two characters of three bytes, one that is half of a pair, and its longest end. -/
theorem truncation_exact_sample :
    0 < (⟨some 2, some 7⟩ : TruncationOptions).lineLimit ∧
      0 < (⟨some 2, some 7⟩ : TruncationOptions).byteLimit ∧
      (truncateTail true [0xD83D, 0xDE42, 0xDE42, 0x20AC] ⟨some 2, some 7⟩).content =
        [0xFFFD, 0x20AC] ∧
      Consistent [0xD83D, 0xDE42, 0xDE42, 0x20AC] ⟨some 2, some 7⟩
        (truncateTail true [0xD83D, 0xDE42, 0xDE42, 0x20AC] ⟨some 2, some 7⟩) :=
  ⟨by decide, by decide, by decide, (truncation_exact true _ _ (by decide) (by decide)).2.1⟩

/-- Where only the final line feed is dropped, the limit of bytes is reported, although all the
lines that are allowed fit. -/
theorem dropped_line_feed_reports_bytes :
    ¬ ∀ (runtimeBuffer : Bool) (content : Utf16) (options : TruncationOptions),
      0 < options.lineLimit → 0 < options.byteLimit →
      (truncateHead runtimeBuffer content options).truncated = true →
      ((truncateHead runtimeBuffer content options).truncatedBy = some .lines ↔
        options.lineLimit ≤ (splitLinesForCounting content).length ∧
          joinedSize ((splitLinesForCounting content).take options.lineLimit) ≤
            options.byteLimit) := by
  intro h
  have hsample := h true (ofString "abc\n") ⟨some 1, some 3⟩ (by decide) (by decide) (by decide)
  have hfits : 1 ≤ (splitLinesForCounting (ofString "abc\n")).length ∧
      joinedSize ((splitLinesForCounting (ofString "abc\n")).take 1) ≤ 3 := by decide
  have hlines := hsample.mpr hfits
  revert hlines
  decide

end Tail

end Flashclaw.Truncation
