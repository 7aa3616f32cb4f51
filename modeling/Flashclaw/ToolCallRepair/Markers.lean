import Flashclaw.ToolCallRepair.Suppressor

/-!
# Markers, blanks and what comes after them

Each function of the grammar at a text to which more is appended.
-/

namespace Flashclaw.ToolCallRepair

open Utf16

theorem skipWhitespace_append_of_nil {a : Utf16} (h : skipWhitespace a = []) (b : Utf16) :
    skipWhitespace (a ++ b) = skipWhitespace b := by
  rw [skipWhitespace] at h
  rw [skipWhitespace, List.dropWhile_append, if_pos (List.isEmpty_iff.mpr h)]
  rfl

theorem skipWhitespace_append_of_ne_nil {a : Utf16} (h : skipWhitespace a ≠ []) (b : Utf16) :
    skipWhitespace (a ++ b) = skipWhitespace a ++ b := by
  rw [skipWhitespace] at h
  rw [skipWhitespace, List.dropWhile_append, if_neg (fun he => h (List.isEmpty_iff.mp he))]
  rfl

theorem skipWhitespace_skipWhitespace (a : Utf16) :
    skipWhitespace (skipWhitespace a) = skipWhitespace a := List.dropWhile_idempotent _ a

theorem trimStart_append {blanks : Utf16} (h : ∀ c ∈ blanks, isWhiteSpace c = true)
    (text : Utf16) : trimStart (blanks ++ text) = trimStart text :=
  List.dropWhile_append_of_pos h

theorem takeWhile_blank (text : Utf16) :
    ∀ c ∈ text.takeWhile isWhiteSpace, isWhiteSpace c = true :=
  fun _ hc => List.mem_takeWhile_imp hc

theorem trimStart_skipWhitespace (a b : Utf16) :
    trimStart (skipWhitespace a ++ b) = trimStart (a ++ b) := by
  conv_rhs => rw [← List.takeWhile_append_dropWhile (p := isWhiteSpace) (l := a)]
  rw [List.append_assoc, trimStart_append (takeWhile_blank a)]
  rfl

theorem blank_return : isWhiteSpace RETURN = true := by decide

theorem blank_newline : isWhiteSpace NEWLINE = true := by decide

theorem lineBreak_blank {text rest : Utf16} (h : consumeLineBreak text = some rest) :
    ∃ blanks, text = blanks ++ rest ∧ ∀ c ∈ blanks, isWhiteSpace c = true := by
  cases text with
  | nil => cases h
  | cons c text =>
    rw [consumeLineBreak] at h
    split_ifs at h with hreturn hnewline hline
    · obtain rfl := Option.some.inj h
      obtain ⟨rest, rfl⟩ := List.head?_eq_some_iff.mp hnewline
      refine ⟨[RETURN, NEWLINE], by rw [hreturn]; rfl, ?_⟩
      exact List.forall_mem_cons.mpr ⟨blank_return, List.forall_mem_singleton.mpr blank_newline⟩
    · obtain rfl := Option.some.inj h
      exact ⟨[RETURN], by rw [hreturn]; rfl, List.forall_mem_singleton.mpr blank_return⟩
    · obtain rfl := Option.some.inj h
      exact ⟨[NEWLINE], by rw [hline]; rfl, List.forall_mem_singleton.mpr blank_newline⟩

theorem indentation_blank {c : CodeUnit} (h : isIndentation c = true) : isWhiteSpace c = true := by
  rw [isIndentation, Bool.and_eq_true, Bool.and_eq_true] at h
  exact h.1.1

/-- Nothing but blanks goes with a call that is removed. -/
theorem removedLineEnd_blank (text : Utf16) :
    ∃ blanks, text = blanks ++ consumeRemovedLineEnd text ∧
      ∀ c ∈ blanks, isWhiteSpace c = true := by
  have hsplit : text.takeWhile isIndentation ++ skipLineIndentation text = text :=
    List.takeWhile_append_dropWhile
  have hindent : ∀ c ∈ text.takeWhile isIndentation, isWhiteSpace c = true :=
    fun c hc => indentation_blank (List.mem_takeWhile_imp hc)
  rw [consumeRemovedLineEnd]
  split_ifs with hend
  · refine ⟨text, (List.append_nil text).symm, ?_⟩
    rw [hend, List.append_nil] at hsplit
    rwa [hsplit] at hindent
  · cases hline : consumeLineBreak (skipLineIndentation text) with
    | none => exact ⟨[], rfl, fun c hc => (List.not_mem_nil hc).elim⟩
    | some rest =>
      obtain ⟨blanks, hblanks, hwhite⟩ := lineBreak_blank hline
      refine ⟨text.takeWhile isIndentation ++ blanks, ?_, ?_⟩
      · rw [Option.getD_some, List.append_assoc, ← hblanks, hsplit]
      · intro c hc
        rcases List.mem_append.mp hc with hc | hc
        · exact hindent c hc
        · exact hwhite c hc

theorem trimStart_removedLineEnd (a b : Utf16) :
    trimStart (consumeRemovedLineEnd a ++ b) = trimStart (a ++ b) := by
  obtain ⟨blanks, hsplit, hblank⟩ := removedLineEnd_blank a
  conv_rhs => rw [hsplit]
  rw [List.append_assoc, trimStart_append hblank]

theorem trimStart_removedLineEnd_append (a b : Utf16) :
    trimStart (consumeRemovedLineEnd (a ++ b)) = trimStart (consumeRemovedLineEnd a ++ b) := by
  have hwhole := trimStart_removedLineEnd (a ++ b) []
  rw [List.append_nil, List.append_nil] at hwhole
  rw [hwhole, trimStart_removedLineEnd]

section Markers

variable {text marker : Utf16}

theorem length_of_starts (h : startsWithAsciiMarkerIgnoreCase text marker = true) :
    marker.length ≤ text.length := by
  have hlength := congrArg List.length (of_decide_eq_true h)
  rw [List.length_map, List.length_take] at hlength
  omega

theorem starts_append_of_length (h : marker.length ≤ text.length) (more : Utf16) :
    startsWithAsciiMarkerIgnoreCase (text ++ more) marker =
      startsWithAsciiMarkerIgnoreCase text marker := by
  rw [startsWithAsciiMarkerIgnoreCase, List.take_append_of_le_length h]
  rfl

theorem starts_append (h : startsWithAsciiMarkerIgnoreCase text marker = true) (more : Utf16) :
    startsWithAsciiMarkerIgnoreCase (text ++ more) marker = true :=
  (starts_append_of_length (length_of_starts h) more).trans h

theorem not_markerPrefix_of_length (h : marker.length ≤ text.length) :
    isAsciiMarkerPrefixIgnoreCase text marker = false := by
  rw [isAsciiMarkerPrefixIgnoreCase, Bool.and_eq_false_iff]
  refine .inl (decide_eq_false ?_)
  rw [List.length_map, List.length_take]
  omega

/-- What neither is a marker nor can become one does not become one. -/
theorem not_starts_append (hstarts : startsWithAsciiMarkerIgnoreCase text marker = false)
    (hstart : isAsciiMarkerPrefixIgnoreCase text marker = false) (more : Utf16) :
    startsWithAsciiMarkerIgnoreCase (text ++ more) marker = false ∧
      isAsciiMarkerPrefixIgnoreCase (text ++ more) marker = false := by
  by_cases hlength : marker.length ≤ text.length
  · rw [starts_append_of_length hlength]
    refine ⟨hstarts, not_markerPrefix_of_length ?_⟩
    rw [List.length_append]
    omega
  · have htake : text.take marker.length = text := List.take_of_length_le (by omega)
    have hnot : ¬text.map lowerAscii <+: marker := by
      intro hprefix
      rw [isAsciiMarkerPrefixIgnoreCase, htake, Bool.and_eq_false_iff] at hstart
      rcases hstart with hshort | hstart
      · have := of_decide_eq_false hshort
        rw [List.length_map] at this
        omega
      · rw [List.isPrefixOf_iff_prefix.mpr hprefix] at hstart
        cases hstart
    have hinside : text.map lowerAscii <+: ((text ++ more).take marker.length).map lowerAscii := by
      rw [List.take_append, htake, List.map_append]
      exact List.prefix_append _ _
    constructor
    · rw [Bool.eq_false_iff]
      intro h
      apply hnot
      rw [of_decide_eq_true h] at hinside
      exact hinside
    · rw [Bool.eq_false_iff, isAsciiMarkerPrefixIgnoreCase]
      intro h
      rw [Bool.and_eq_true] at h
      exact hnot (hinside.trans (List.isPrefixOf_iff_prefix.mp h.2))

end Markers

theorem behindParameter_nil : behindParameter [] = none := rfl

theorem behindParameter_cons (c : CodeUnit) (rest : Utf16) :
    behindParameter (c :: rest) =
      if c = LESS && startsWithAsciiMarkerIgnoreCase (c :: rest) PARAMETER_CLOSE then
        some ((c :: rest).drop PARAMETER_CLOSE.length)
      else behindParameter rest := by
  rw [behindParameter, indexOfAsciiMarkerIgnoreCase]
  split
  · rw [Option.map_some, Nat.zero_add]
  · rw [Option.map_map, behindParameter]
    apply Option.map_congr
    intro close _
    show (c :: rest).drop (close + 1 + _) = _
    rw [Nat.add_right_comm, List.drop_succ_cons]

theorem length_parameterClose : PARAMETER_CLOSE.length = 12 := by decide

theorem length_of_behindParameter {rest body : Utf16} (h : behindParameter rest = some body) :
    PARAMETER_CLOSE.length ≤ rest.length := by
  induction rest with
  | nil => cases h
  | cons c rest ih =>
    rw [behindParameter_cons] at h
    split_ifs at h with hc
    · rw [Bool.and_eq_true] at hc
      exact length_of_starts hc.2
    · exact (ih h).trans (Nat.le_succ _)

theorem behindParameter_append {rest body : Utf16} (h : behindParameter rest = some body)
    (more : Utf16) : behindParameter (rest ++ more) = some (body ++ more) := by
  induction rest with
  | nil => cases h
  | cons c rest ih =>
    have hlength := length_of_behindParameter h
    rw [behindParameter_cons] at h
    rw [List.cons_append, behindParameter_cons, ← List.cons_append, starts_append_of_length hlength]
    by_cases hc : (c = LESS && startsWithAsciiMarkerIgnoreCase (c :: rest) PARAMETER_CLOSE) = true
    · rw [if_pos hc] at h ⊢
      obtain rfl := Option.some.inj h
      rw [List.drop_append_of_le_length hlength]
    · rw [if_neg hc] at h ⊢
      exact ih h

/-- No marker starts in a text without its first character. -/
theorem behindParameter_skip {start : Utf16} (h : LESS ∉ start) (rest : Utf16) :
    behindParameter (start ++ rest) = behindParameter rest := by
  induction start with
  | nil => rfl
  | cons c start ih =>
    rw [List.mem_cons, not_or] at h
    rw [List.cons_append, behindParameter_cons, if_neg, ih h.2]
    rw [decide_eq_false (Ne.symm h.1)]
    exact Bool.false_ne_true

theorem lastUnits_of_length {n : ℕ} {text : Utf16} (h : text.length ≤ n) :
    lastUnits n text = text := by
  rw [lastUnits, Nat.sub_eq_zero_of_le h, List.drop_zero]

theorem lastUnits_cons {n : ℕ} {c : CodeUnit} {text : Utf16} (h : n ≤ text.length) :
    lastUnits n (c :: text) = lastUnits n text := by
  rw [lastUnits, lastUnits, List.length_cons, Nat.succ_sub h, List.drop_succ_cons]

theorem lastUnits_append_of_length {n : ℕ} (start : Utf16) {text : Utf16} (h : n ≤ text.length) :
    lastUnits n (start ++ text) = lastUnits n text := by
  induction start with
  | nil => rfl
  | cons c start ih =>
    rw [List.cons_append, lastUnits_cons, ih]
    rw [List.length_append]
    omega

theorem lastUnits_append (n : ℕ) (start text : Utf16) :
    lastUnits n (start ++ text) = lastUnits n (lastUnits n start ++ text) := by
  by_cases h : start.length ≤ n
  · rw [lastUnits_of_length h]
  · have hsplit : start = start.take (start.length - n) ++ lastUnits n start :=
      (List.take_append_drop _ _).symm
    conv_lhs => rw [hsplit, List.append_assoc]
    apply lastUnits_append_of_length
    rw [List.length_append, lastUnits, List.length_drop]
    omega

theorem lastUnits_append_of_le {n : ℕ} (start : Utf16) {text : Utf16} (h : text.length ≤ n) :
    ∃ kept, lastUnits n (start ++ text) = kept ++ text ∧ ∀ c ∈ kept, c ∈ start := by
  refine ⟨start.drop ((start ++ text).length - n), ?_, fun c hc => List.mem_of_mem_drop hc⟩
  rw [lastUnits, List.drop_append_of_le_length]
  rw [List.length_append]
  omega

/-- The last characters that are kept are enough for a marker that is cut. -/
theorem behindParameter_last {rest : Utf16} (h : behindParameter rest = none) (more : Utf16) :
    behindParameter (lastUnits (PARAMETER_CLOSE.length - 1) rest ++ more) =
      behindParameter (rest ++ more) := by
  induction rest with
  | nil => rfl
  | cons c rest ih =>
    rw [behindParameter_cons] at h
    by_cases hlength : PARAMETER_CLOSE.length ≤ (c :: rest).length
    · split_ifs at h with hc
      rw [lastUnits_cons, ih h, List.cons_append, behindParameter_cons, ← List.cons_append,
        starts_append_of_length hlength, if_neg hc]
      rw [List.length_cons] at hlength
      omega
    · rw [lastUnits_of_length]
      omega

end Flashclaw.ToolCallRepair
