import Mathlib.Algebra.GroupWithZero.Nat
import Mathlib.Data.Fin.Basic
import Mathlib.Data.List.Lex
import Mathlib.Order.Fin.Basic

/-!
# UTF-16 strings

The strings of the language as they are: lists of code units, surrogates that
are not paired included.
-/

abbrev CodeUnit := Fin 0x10000

abbrev Utf16 := List CodeUnit

theorem codeUnit_ne_zero : 0x10000 ≠ 0 := by decide

instance codeUnitNeZero : NeZero 0x10000 := ⟨codeUnit_ne_zero⟩

instance codeUnitLawfulBEq : LawfulBEq CodeUnit := inferInstanceAs (LawfulBEq (Fin 0x10000))

instance utf16LawfulBEq : LawfulBEq Utf16 := inferInstanceAs (LawfulBEq (List CodeUnit))

namespace Utf16

/-- The code unit of a character of the basic plane. -/
def unit (c : Char) : CodeUnit := Fin.ofNat 0x10000 c.toNat

/-- A text of characters of the basic plane. -/
def ofString (s : String) : Utf16 := s.toList.map unit

def isHighSurrogate (c : CodeUnit) : Bool := 0xD800 ≤ c.val && c.val < 0xDC00

def isLowSurrogate (c : CodeUnit) : Bool := 0xDC00 ≤ c.val && c.val < 0xE000

def isSurrogate (c : CodeUnit) : Bool := 0xD800 ≤ c.val && c.val < 0xE000

/-- No surrogate but in pairs of a high and a low one. -/
def isWellFormed : Utf16 → Bool
  | [] => true
  | [c] => !isSurrogate c
  | c :: d :: rest =>
    if isHighSurrogate c && isLowSurrogate d then isWellFormed rest
    else !isSurrogate c && isWellFormed (d :: rest)

/-- Induction over code points: pairs of surrogates, and units that start none. -/
theorem pointInduction {motive : Utf16 → Prop} (nil : motive [])
    (pair : ∀ c d rest, isHighSurrogate c = true → isLowSurrogate d = true → motive rest →
      motive (c :: d :: rest))
    (unit : ∀ c rest, (∀ d rest', rest = d :: rest' →
      ¬ (isHighSurrogate c = true ∧ isLowSurrogate d = true)) → motive rest → motive (c :: rest)) :
    ∀ s, motive s
  | [] => nil
  | [c] => unit c [] (by simp) nil
  | c :: d :: rest => by
    by_cases h : isHighSurrogate c = true ∧ isLowSurrogate d = true
    · exact pair c d rest h.1 h.2 (pointInduction nil pair unit rest)
    · refine unit c (d :: rest) ?_ (pointInduction nil pair unit (d :: rest))
      rintro d' rest' ⟨⟩
      exact h

/-- No pair of surrogates stands across the cut between two texts. -/
def IsCut (s t : Utf16) : Prop :=
  ∀ c d, s.getLast? = some c → t.head? = some d →
    ¬ (isHighSurrogate c = true ∧ isLowSurrogate d = true)

theorem isSurrogate_iff {c : CodeUnit} :
    isSurrogate c = true ↔ isHighSurrogate c = true ∨ isLowSurrogate c = true := by
  simp only [isSurrogate, isHighSurrogate, isLowSurrogate, Bool.and_eq_true, decide_eq_true_eq]
  omega

theorem isWellFormed_cons {c : CodeUnit} {rest : Utf16} (h : ∀ d rest', rest = d :: rest' →
    ¬ (isHighSurrogate c = true ∧ isLowSurrogate d = true)) :
    isWellFormed (c :: rest) = (!isSurrogate c && isWellFormed rest) := by
  cases rest with
  | nil => simp [isWellFormed]
  | cons d rest =>
    have := h d rest rfl
    rw [isWellFormed, if_neg (by simpa using this)]

/-- Induction over code points from the end of a text. -/
theorem pointInductionEnd {motive : Utf16 → Prop} (nil : motive [])
    (pair : ∀ c d s, isHighSurrogate c = true → isLowSurrogate d = true → motive s →
      motive (s ++ [c, d]))
    (unit : ∀ c s, (∀ t, IsCut s (c :: t)) → motive s → motive (s ++ [c])) (s : Utf16) :
    motive s := by
  induction hn : s.length using Nat.strong_induction_on generalizing s with
  | _ n ih =>
    rcases s.eq_nil_or_concat with rfl | ⟨s, d, rfl⟩
    · exact nil
    rw [List.concat_eq_append] at hn ⊢
    rw [List.length_append, List.length_singleton] at hn
    rcases s.eq_nil_or_concat with rfl | ⟨s, c, rfl⟩
    · exact unit d [] (fun t a b ha => by cases ha) nil
    rw [List.concat_eq_append] at hn ⊢
    have hlength : (s ++ [c]).length = s.length + 1 := by simp
    by_cases h : isHighSurrogate c = true ∧ isLowSurrogate d = true
    · rw [List.append_assoc]
      exact pair c d s h.1 h.2 (ih s.length (by omega) s rfl)
    · apply unit d (s ++ [c])
      · rintro t a b ha hb hpair
        rw [List.getLast?_concat] at ha
        obtain rfl : c = a := Option.some.inj ha
        obtain rfl : d = b := Option.some.inj hb
        exact h hpair
      · exact ih (s ++ [c]).length (by omega) (s ++ [c]) rfl

theorem isCut_cons {c d : CodeUnit} {s t : Utf16} : IsCut (c :: d :: s) t ↔ IsCut (d :: s) t := by
  unfold IsCut
  rw [List.getLast?_cons_cons]

/-- A well-formed text ends in no surrogate that still waits for its other half. -/
theorem isCut_of_isWellFormed {s : Utf16} (h : isWellFormed s = true) (t : Utf16) :
    IsCut s t := by
  induction s using pointInduction with
  | nil => simp [IsCut]
  | pair c d s hc hd ih =>
    rw [isWellFormed, if_pos (by simp [hc, hd])] at h
    cases s with
    | nil =>
      rintro a b ha - ⟨hhigh, -⟩
      obtain rfl : d = a := Option.some.inj ha
      simp only [isHighSurrogate, isLowSurrogate, Bool.and_eq_true, decide_eq_true_eq] at hd hhigh
      omega
    | cons a s => exact isCut_cons.mpr (isCut_cons.mpr (ih h))
  | unit c s hpair ih =>
    rw [isWellFormed_cons hpair, Bool.and_eq_true, Bool.not_eq_true'] at h
    cases s with
    | nil =>
      rintro a b ha - ⟨hhigh, -⟩
      obtain rfl : c = a := Option.some.inj ha
      rw [isSurrogate_iff.mpr (.inl hhigh)] at h
      cases h.1
    | cons a s => exact isCut_cons.mpr (ih h.2)

theorem isWellFormed_append {s t : Utf16} (hs : isWellFormed s = true)
    (ht : isWellFormed t = true) : isWellFormed (s ++ t) = true := by
  induction s using pointInduction with
  | nil => exact ht
  | pair c d s hc hd ih =>
    rw [isWellFormed, if_pos (by simp [hc, hd])] at hs
    rw [List.cons_append, List.cons_append, isWellFormed, if_pos (by simp [hc, hd])]
    exact ih hs
  | unit c s h ih =>
    rw [isWellFormed_cons h, Bool.and_eq_true] at hs
    obtain ⟨hc, hs⟩ := hs
    rw [List.cons_append, isWellFormed_cons, hc, ih hs]
    · rfl
    · intro d rest _ hpair
      rw [isSurrogate_iff.mpr (.inl hpair.1)] at hc
      cases hc

theorem isWellFormed_of_forall {s : Utf16} (h : ∀ c ∈ s, isSurrogate c = false) :
    isWellFormed s = true := by
  induction s with
  | nil => rfl
  | cons c s ih =>
    have hc := h c List.mem_cons_self
    rw [isWellFormed_cons, hc, ih fun d hd => h d (List.mem_cons_of_mem c hd)]
    · rfl
    · intro d rest _ hpair
      rw [isSurrogate_iff.mpr (.inl hpair.1)] at hc
      cases hc

/-- There are code units besides any two. -/
theorem exists_ne_ne (a b : Option CodeUnit) : ∃ x : CodeUnit, a ≠ some x ∧ b ≠ some x := by
  by_contra h
  push Not at h
  by_cases h0 : a = some 0
  · by_cases h1 : b = some 1
    · have h2 := h 2 (by rw [h0]; decide)
      rw [h1] at h2
      cases h2
    · exact h1 (h 1 (by rw [h0]; decide))
  · have hb := h 0 h0
    by_cases h1 : a = some 1
    · have h2 := h 2 (by rw [h1]; decide)
      rw [hb] at h2
      cases h2
    · have h2 := h 1 h1
      rw [hb] at h2
      cases h2
end Utf16
