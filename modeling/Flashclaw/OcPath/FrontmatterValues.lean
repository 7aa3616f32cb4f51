import Flashclaw.OcPath.JsonlRender
import Flashclaw.OcPath.MarkdownEdit

/-!
# Frontmatter values

Which values the writer of frontmatter and its reader carry over: those that the
reader neither trims, unquotes nor leaves escaped.
-/

open Utf16

namespace Markdown

open OcPath Jsonl

/-- No quotes, backslashes and control characters, and no half of a surrogate pair. -/
def Unescaped (value : Utf16) : Prop :=
  isWellFormed value = true ∧ ∀ c ∈ value, c ≠ unit '"' ∧ c ≠ unit '\\' ∧ 0x20 ≤ c.val

instance (value : Utf16) : Decidable (Unescaped value) := inferInstanceAs (Decidable (_ ∧ _))

/-- `U+2028` and `U+2029`. -/
def isSeparator (c : CodeUnit) : Bool := c.val = 0x2028 || c.val = 0x2029

/-- What the writer and the reader of frontmatter carry over. -/
def Survives (value : Utf16) : Prop :=
  value.any isSeparator = false ∧
    if value.any isStructural then Unescaped value else trim value = value ∧ inQuotes value = false

instance (value : Utf16) : Decidable (Survives value) := inferInstanceAs (Decidable (_ ∧ _))

/-- What is read where a value was written. -/
def readBack (value : Utf16) : Option Utf16 :=
  (restOfLine (unit ' ' :: formatFrontmatterValue value)).map fun rest => unquote (trim rest)

theorem length_quoteUnit (c : CodeUnit) : 1 ≤ (Json.quoteUnit c).length := by
  unfold Json.quoteUnit
  cases Json.escapeLetter c with
  | some letter => exact Nat.le_succ 1
  | none =>
    dsimp only
    split
    · exact Nat.le_add_left 1 5
    · exact le_rfl

theorem length_quoteUnits (s : Utf16) : s.length ≤ (Json.quoteUnits s).length := by
  induction s using pointInduction with
  | nil => exact le_rfl
  | pair c d rest hc hd ih =>
    rw [Json.quoteUnits, if_pos ⟨hc, hd⟩]
    simpa using ih
  | unit c rest hsep ih =>
    have := length_quoteUnit c
    rw [Json.quoteUnits_cons hsep, List.length_append, List.length_cons]
    omega

theorem quoteUnit_eq_self_iff (c : CodeUnit) : Json.quoteUnit c = [c] ↔
    c ≠ unit '"' ∧ c ≠ unit '\\' ∧ 0x20 ≤ c.val ∧ isSurrogate c = false := by
  have hquote : c = unit '"' ↔ c.val = 0x22 := by
    rw [Fin.ext_iff]
    rfl
  have hslash : c = unit '\\' ↔ c.val = 0x5C := by
    rw [Fin.ext_iff]
    rfl
  rw [Ne, Ne, hquote, hslash]
  unfold Json.quoteUnit
  cases hletter : Json.escapeLetter c with
  | some letter =>
    constructor
    · intro h
      exact absurd (congrArg List.length h) (by simp)
    · rintro ⟨h1, h2, h3, -⟩
      unfold Json.escapeLetter at hletter
      split_ifs at hletter
      all_goals omega
  | none =>
    dsimp only
    have hne := Json.ne_of_escapeLetter hletter
    by_cases hc : c.val < 0x20 ∨ isSurrogate c = true
    · rw [if_pos hc]
      constructor
      · intro h
        exact absurd (congrArg List.length h) (by simp [Json.unicodeEscape])
      · rintro ⟨-, -, h3, h4⟩
        rcases hc with hc | hc
        · omega
        · rw [h4] at hc
          cases hc
    · rw [if_neg hc]
      push Not at hc
      refine ⟨fun _ => ⟨?_, ?_, hc.1, by simpa using hc.2⟩, fun _ => rfl⟩
      · rw [← hquote]
        exact hne.1
      · rw [← hslash]
        exact hne.2

/-- A text is quoted as it is where nothing in it has an escape. -/
theorem quoteUnits_eq_self_iff (s : Utf16) : Json.quoteUnits s = s ↔ Unescaped s := by
  unfold Unescaped
  induction s using pointInduction with
  | nil => simp [Json.quoteUnits, isWellFormed]
  | pair c d rest hc hd ih =>
    have hc' : c ≠ unit '"' ∧ c ≠ unit '\\' ∧ 0x20 ≤ c.val := by
      simp only [isHighSurrogate, Bool.and_eq_true, decide_eq_true_eq] at hc
      refine ⟨?_, ?_, by omega⟩
      all_goals
        rintro rfl
        exact absurd hc (by decide)
    have hd' : d ≠ unit '"' ∧ d ≠ unit '\\' ∧ 0x20 ≤ d.val := by
      simp only [isLowSurrogate, Bool.and_eq_true, decide_eq_true_eq] at hd
      refine ⟨?_, ?_, by omega⟩
      all_goals
        rintro rfl
        exact absurd hd (by decide)
    rw [Json.quoteUnits, if_pos ⟨hc, hd⟩, isWellFormed, if_pos (by simp [hc, hd]),
      List.forall_mem_cons, List.forall_mem_cons, List.cons_inj_right, List.cons_inj_right, ih]
    simp only [hc', hd', true_and, ne_eq, not_false_eq_true]
  | unit c rest hsep ih =>
    rw [Json.quoteUnits_cons hsep, isWellFormed_cons hsep, List.forall_mem_cons,
      Bool.and_eq_true, Bool.not_eq_true']
    have hunit := quoteUnit_eq_self_iff c
    constructor
    · intro h
      have hlength := congrArg List.length h
      have h1 := length_quoteUnit c
      have h2 := length_quoteUnits rest
      rw [List.length_append, List.length_cons] at hlength
      have hone : (Json.quoteUnit c).length = 1 := by omega
      obtain ⟨d, hd⟩ := List.length_eq_one_iff.mp hone
      rw [hd, List.singleton_append] at h
      obtain ⟨rfl, hrest⟩ := List.cons.inj h
      obtain ⟨hq, hb, hlow, hsurrogate⟩ := hunit.mp hd
      obtain ⟨hformed, hall⟩ := ih.mp hrest
      exact ⟨⟨hsurrogate, hformed⟩, ⟨hq, hb, hlow⟩, hall⟩
    · rintro ⟨⟨hsurrogate, hformed⟩, ⟨hq, hb, hlow⟩, hall⟩
      rw [hunit.mpr ⟨hq, hb, hlow, hsurrogate⟩, ih.mpr ⟨hformed, hall⟩]
      rfl

theorem trim_trimStart (s : Utf16) : trim (trimStart s) = trim s := by
  show trimEnd (trimStart (trimStart s)) = trimEnd (trimStart s)
  rw [trimStart_eq_self (s := trimStart s) fun c => head?_trimStart]

theorem trim_eq_self_of_length {s : Utf16} (h : s.length ≤ (trim s).length) : trim s = s :=
  (trim_sublist s).eq_of_length_le h

theorem length_unquote (value : Utf16) : (unquote value).length ≤ value.length := by
  unfold unquote
  split
  · simp
    omega
  · exact le_rfl

theorem unquote_eq_self_iff (value : Utf16) : unquote value = value ↔ inQuotes value = false := by
  unfold unquote
  cases hquotes : inQuotes value with
  | false => simp
  | true =>
    rw [if_pos rfl]
    constructor
    · intro h
      unfold inQuotes at hquotes
      simp only [Bool.and_eq_true, decide_eq_true_eq] at hquotes
      have hlength := congrArg List.length h
      simp only [List.length_dropLast, List.length_tail] at hlength
      omega
    · intro h
      cases h

/-- Unquoting what was trimmed gives a value back that needs neither. -/
theorem unquote_trim_eq_self_iff (value : Utf16) :
    unquote (trim value) = value ↔ trim value = value ∧ inQuotes value = false := by
  constructor
  · intro h
    have h1 := length_unquote (trim value)
    rw [h] at h1
    have htrim := trim_eq_self_of_length h1
    rw [htrim] at h
    exact ⟨htrim, (unquote_eq_self_iff value).mp h⟩
  · rintro ⟨htrim, hquotes⟩
    rw [htrim, (unquote_eq_self_iff value).mpr hquotes]

theorem trimStart_blank (s : Utf16) : trimStart (unit ' ' :: s) = trimStart s := rfl

theorem isLineTerminator_iff (c : CodeUnit) :
    isLineTerminator c = true ↔ c = LF ∨ c = CR ∨ isSeparator c = true := by
  have hlf : c = LF ↔ c.val = 0x0A := by
    rw [Fin.ext_iff]
    rfl
  have hcr : c = CR ↔ c.val = 0x0D := by
    rw [Fin.ext_iff]
    rfl
  rw [hlf, hcr]
  unfold isLineTerminator isSeparator
  simp only [List.mem_cons, List.not_mem_nil, or_false, decide_eq_true_eq, Bool.or_eq_true]

theorem any_isSeparator_quoteUnit (c : CodeUnit) :
    (Json.quoteUnit c).any isSeparator = isSeparator c := by
  cases hc : isSeparator c with
  | true =>
    have hself : Json.quoteUnit c = [c] := by
      unfold isSeparator at hc
      simp only [Bool.or_eq_true, decide_eq_true_eq] at hc
      rw [quoteUnit_eq_self_iff]
      refine ⟨?_, ?_, by omega, ?_⟩
      · rintro rfl
        exact absurd hc (by decide)
      · rintro rfl
        exact absurd hc (by decide)
      · unfold isSurrogate
        simp only [Bool.and_eq_false_iff, decide_eq_false_iff_not]
        omega
    rw [hself, List.any_cons, hc]
    rfl
  | false =>
    rw [List.any_eq_false]
    intro d hd
    obtain ⟨rfl, -⟩ | hprint := quoteUnit_cases hd
    · rw [hc]
      exact Bool.false_ne_true
    · unfold IsPrintable at hprint
      unfold isSeparator
      simp only [Bool.or_eq_true, decide_eq_true_eq]
      omega

theorem any_isSeparator_quoteUnits (s : Utf16) :
    (Json.quoteUnits s).any isSeparator = s.any isSeparator := by
  induction s using pointInduction with
  | nil => rfl
  | pair c d rest hc hd ih =>
    rw [Json.quoteUnits, if_pos ⟨hc, hd⟩, List.any_cons, List.any_cons, List.any_cons,
      List.any_cons, ih]
  | unit c rest hsep ih =>
    rw [Json.quoteUnits_cons hsep, List.any_append, any_isSeparator_quoteUnit, ih, List.any_cons]

theorem any_isLineTerminator_quote (s : Utf16) :
    (Json.quote s).any isLineTerminator = s.any isSeparator := by
  rw [← any_isSeparator_quoteUnits, Bool.eq_iff_iff, List.any_eq_true, List.any_eq_true]
  constructor
  · rintro ⟨c, hc, hterminator⟩
    have hprint := quote_printable hc
    obtain rfl | rfl | hseparator := (isLineTerminator_iff c).mp hterminator
    · exact absurd hprint (by decide)
    · exact absurd hprint (by decide)
    · rcases List.mem_cons.mp hc with rfl | hc
      · exact absurd hseparator (by decide)
      · rcases List.mem_append.mp hc with hc | hc
        · exact ⟨c, hc, hseparator⟩
        · obtain rfl := List.mem_singleton.mp hc
          exact absurd hseparator (by decide)
  · rintro ⟨c, hc, hseparator⟩
    refine ⟨c, List.mem_cons_of_mem _ (List.mem_append_left _ hc), ?_⟩
    exact (isLineTerminator_iff c).mpr (.inr (.inr hseparator))

theorem trimEnd_concat {s : Utf16} {c : CodeUnit} (h : isWhiteSpace c = false) :
    trimEnd (s ++ [c]) = s ++ [c] := by
  unfold trimEnd
  rw [List.rdropWhile_concat_neg _ _ _ (by simp [h])]

theorem trim_quote (s : Utf16) : trim (Json.quote s) = Json.quote s := by
  have hstart : trimStart (Json.quote s) = Json.quote s := rfl
  rw [trim, hstart]
  show trimEnd ((unit '"' :: Json.quoteUnits s) ++ [unit '"']) = _
  rw [trimEnd_concat (by decide)]
  rfl

theorem unquote_quote (s : Utf16) : unquote (Json.quote s) = Json.quoteUnits s := by
  have hquotes : inQuotes (Json.quote s) = true := by
    unfold inQuotes
    have hlast : (Json.quote s).getLast? = some (unit '"') := by
      show ((unit '"' :: Json.quoteUnits s) ++ [unit '"']).getLast? = _
      rw [List.getLast?_concat]
    rw [hlast]
    simp [Json.quote]
  unfold unquote
  rw [if_pos hquotes]
  show (Json.quoteUnits s ++ [unit '"']).dropLast = _
  rw [List.dropLast_concat]

/-- Exactly the values that survive are read where they were written. -/
theorem readBack_eq_self_iff (value : Utf16) : readBack value = some value ↔ Survives value := by
  unfold readBack formatFrontmatterValue Survives
  by_cases hempty : value.length = 0
  · obtain rfl := List.length_eq_zero_iff.mp hempty
    decide
  · rw [if_neg hempty]
    cases hstructural : value.any isStructural with
    | true =>
      -- a value with structure in it is quoted
      rw [if_pos rfl, if_pos rfl, ← quoteUnits_eq_self_iff, restOfLine, trimStart_blank]
      have hstart : trimStart (Json.quote value) = Json.quote value := rfl
      rw [hstart, any_isLineTerminator_quote]
      cases value.any isSeparator with
      | true => simp
      | false => simp [trim_quote, unquote_quote]
    | false =>
      -- a plain value has no line break, but may have a separator that ends a line
      have hbreaks : ∀ c ∈ value, c ≠ LF ∧ c ≠ CR := by
        intro c hc
        have := List.any_eq_false.mp hstructural c hc
        constructor
        all_goals
          rintro rfl
          exact this (by decide)
      have hterminators : value.any isLineTerminator = value.any isSeparator := by
        rw [Bool.eq_iff_iff, List.any_eq_true, List.any_eq_true]
        constructor
        · rintro ⟨c, hc, hterminator⟩
          obtain rfl | rfl | hseparator := (isLineTerminator_iff c).mp hterminator
          · exact absurd rfl (hbreaks _ hc).1
          · exact absurd rfl (hbreaks _ hc).2
          · exact ⟨c, hc, hseparator⟩
        · rintro ⟨c, hc, hseparator⟩
          exact ⟨c, hc, (isLineTerminator_iff c).mpr (.inr (.inr hseparator))⟩
      rw [if_neg Bool.false_ne_true, if_neg Bool.false_ne_true, restOfLine, trimStart_blank,
        ← unquote_trim_eq_self_iff]
      constructor
      · intro h
        split at h
        · cases h
        · rename_i hnone
          have hvalue : unquote (trim value) = value := by
            rw [← trim_trimStart]
            exact Option.some.inj h
          refine ⟨?_, hvalue⟩
          have htrim := ((unquote_trim_eq_self_iff value).mp hvalue).1
          have hstart : trimStart value = value := by
            apply (List.dropWhile_suffix isWhiteSpace).sublist.eq_of_length_le
            rw [← htrim]
            exact (trimEnd_isPrefixOf _).length_le.trans (by rw [htrim]; exact le_rfl)
          rw [hstart, hterminators] at hnone
          simpa using hnone
      · rintro ⟨hseparator, hvalue⟩
        rw [← hterminators] at hseparator
        have hnone : (trimStart value).any isLineTerminator = false := by
          rw [List.any_eq_false] at hseparator ⊢
          exact fun c hc => hseparator c ((List.dropWhile_suffix isWhiteSpace).subset hc)
        rw [hnone, if_neg Bool.false_ne_true, Option.map_some, trim_trimStart, hvalue]

end Markdown
