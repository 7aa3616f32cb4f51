import Flashclaw.Lib.Lists
import Mathlib.Data.List.Basic
import Mathlib.Data.List.Infix
import Mathlib.Data.List.TakeWhile

/-!
# Ranges of positions in a list

What is between two positions, and ranges that follow each other with gaps at positions of one
kind.
-/

namespace Ranges

variable {α : Type*}

structure Range where
  start : ℕ
  stop : ℕ
deriving DecidableEq

/-- The first range starts before the second one, and ends inside of it. -/
def Range.Crosses (a b : Range) : Prop := a.start < b.start ∧ b.start < a.stop ∧ a.stop < b.stop

instance (a b : Range) : Decidable (a.Crosses b) := inferInstanceAs (Decidable (_ ∧ _ ∧ _))

/-- The elements from one position up to another. -/
def slice (l : List α) (start stop : ℕ) : List α := (l.drop start).take (stop - start)

section Slice

variable {l : List α} {a b c : ℕ}

theorem slice_zero_length (l : List α) : slice l 0 l.length = l := List.take_length

theorem slice_of_length_le (h : l.length ≤ b) : slice l a b = l.drop a := by
  apply List.take_of_length_le
  rw [List.length_drop]
  exact Nat.sub_le_sub_right h a

theorem slice_self (l : List α) (a : ℕ) : slice l a a = [] := by
  rw [slice, Nat.sub_self, List.take_zero]

theorem length_slice (h : b ≤ l.length) : (slice l a b).length = b - a := by
  rw [slice, List.length_take, List.length_drop]
  omega

theorem slice_append_slice (hab : a ≤ b) (hbc : b ≤ c) :
    slice l a b ++ slice l b c = slice l a c := by
  have hsplit : c - a = (b - a) + (c - b) := by omega
  rw [slice, slice, slice, hsplit, List.take_add, List.drop_drop, Nat.add_sub_cancel' hab]

theorem getElem?_slice (l : List α) (a b i : ℕ) :
    (slice l a b)[i]? = if a + i < b then l[a + i]? else none := by
  rw [slice, List.getElem?_take, List.getElem?_drop]
  congr 1
  exact propext (by omega)

theorem exists_of_mem_slice {x : α} (h : x ∈ slice l a b) : ∃ i, a ≤ i ∧ i < b ∧ l[i]? = some x := by
  obtain ⟨i, hi⟩ := List.mem_iff_getElem?.mp h
  rw [getElem?_slice] at hi
  split_ifs at hi with hlt
  exact ⟨a + i, Nat.le_add_right a i, hlt, hi⟩

/-- The position behind the elements of one kind from a position on. -/
def skipWhile (p : α → Bool) (l : List α) (a : ℕ) : ℕ := a + ((l.drop a).takeWhile p).length

theorem le_skipWhile (p : α → Bool) (l : List α) (a : ℕ) : a ≤ skipWhile p l a :=
  Nat.le_add_right _ _

theorem skipWhile_le_length {p : α → Bool} (h : a ≤ l.length) : skipWhile p l a ≤ l.length := by
  have hle := (List.takeWhile_prefix p (l := l.drop a)).length_le
  rw [List.length_drop] at hle
  rw [skipWhile]
  omega

/-- What is skipped. -/
theorem exists_of_lt_skipWhile {p : α → Bool} {i : ℕ} (hi : a ≤ i) (hlt : i < skipWhile p l a) :
    ∃ x, l[i]? = some x ∧ p x = true := by
  rw [skipWhile] at hlt
  generalize htaken : (l.drop a).takeWhile p = taken at hlt
  have hi' : i - a < taken.length := by omega
  obtain ⟨more, hmore⟩ : taken <+: l.drop a := htaken ▸ List.takeWhile_prefix _
  refine ⟨taken[i - a], ?_, ?_⟩
  · rw [← List.getElem?_eq_getElem hi', ← List.getElem?_append_left hi', hmore,
      List.getElem?_drop, Nat.add_sub_cancel' hi]
  · have hmem : taken[i - a] ∈ (l.drop a).takeWhile p := htaken ▸ List.getElem_mem hi'
    exact List.mem_takeWhile_imp hmem

/-- A slice behind a position where one list goes on as another. -/
theorem slice_moved {m : List α} {o d : ℕ} (h : l.drop o <+: m.drop d) (ho : o ≤ a)
    (hab : a ≤ b) (hb : b ≤ l.length) : slice l a b = slice m (a - o + d) (b - o + d) := by
  obtain ⟨more, hmore⟩ := h
  have hlength : (l.drop o).length = l.length - o := List.length_drop
  have hmiddle : m.drop (a - o + d) = (l.drop o).drop (a - o) ++ more := by
    rw [Nat.add_comm, ← List.drop_drop, ← hmore, List.drop_append_of_le_length (by omega)]
  have hback : o + (a - o) = a := by omega
  rw [slice, slice, hmiddle, List.drop_drop, hback, List.take_append_of_le_length]
  · congr 1
    omega
  · rw [List.length_drop]
    omega

end Slice

/-- The range where the position `o` is moved to `d`. -/
def Range.move (o d : ℕ) (range : Range) : Range := ⟨range.start - o + d, range.stop - o + d⟩

/-- Every position from one up to another. -/
def Between (P : ℕ → Prop) (a b : ℕ) : Prop := ∀ i, a ≤ i → i < b → P i

/-- Ranges that are not empty, in order, with gaps at positions of one kind only. -/
def Gapped (P : ℕ → Prop) : ℕ → List Range → ℕ → Prop
  | start, [], stop => start ≤ stop ∧ Between P start stop
  | start, range :: ranges, stop =>
    start ≤ range.start ∧ Between P start range.start ∧ range.start < range.stop ∧
      Gapped P range.stop ranges stop

/-- Some range is at a position. -/
def Covered (ranges : List Range) (i : ℕ) : Prop := ∃ range ∈ ranges, range.start ≤ i ∧ i < range.stop

/-- Ranges that are not empty and leave no gap. -/
def Contiguous : ℕ → List Range → ℕ → Prop
  | start, [], stop => start = stop
  | start, range :: ranges, stop =>
    range.start = start ∧ range.start < range.stop ∧ Contiguous range.stop ranges stop

section Ranges

variable {P : ℕ → Prop} {ranges : List Range} {start stop : ℕ}

theorem Between.self (P : ℕ → Prop) (a : ℕ) : Between P a a := fun _ h h' => absurd h' h.not_gt

theorem Gapped.le (h : Gapped P start ranges stop) : start ≤ stop := by
  induction ranges generalizing start with
  | nil => exact h.1
  | cons range ranges ih => exact (h.1.trans h.2.2.1.le).trans (ih h.2.2.2)

/-- A gap in front of the first range. -/
theorem Gapped.behind {before : ℕ} (h : Gapped P start ranges stop) (hle : before ≤ start)
    (hgap : Between P before start) : Gapped P before ranges stop := by
  have hjoin : ∀ first, start ≤ first → Between P start first → Between P before first := by
    intro first _ hfirst i hi hlt
    rcases Nat.lt_or_ge i start with h | h
    · exact hgap i hi h
    · exact hfirst i h hlt
  cases ranges with
  | nil => exact ⟨hle.trans h.1, hjoin stop h.1 h.2⟩
  | cons range ranges => exact ⟨hle.trans h.1, hjoin range.start h.1 h.2.1, h.2.2⟩

theorem Gapped.append {more : List Range} {last : ℕ} (h : Gapped P start ranges stop)
    (hmore : Gapped P stop more last) : Gapped P start (ranges ++ more) last := by
  induction ranges generalizing start with
  | nil => exact hmore.behind h.1 h.2
  | cons range ranges ih =>
    obtain ⟨hfirst, hgap, hlt, hrest⟩ := h
    exact ⟨hfirst, hgap, hlt, ih hrest⟩

/-- Ranges that are moved, with gaps of the kind that theirs become. -/
theorem Gapped.move {Q : ℕ → Prop} {o d : ℕ} (h : Gapped P start ranges stop) (ho : o ≤ start)
    (hPQ : ∀ i, start ≤ i → i < stop → P i → Q (i - o + d)) :
    Gapped Q (start - o + d) (ranges.map (Range.move o d)) (stop - o + d) := by
  have hgap : ∀ {a b}, start ≤ a → b ≤ stop → Between P a b →
      Between Q (a - o + d) (b - o + d) := by
    intro a b ha hb hbetween i hi hlt
    have hback : i - d + o - o + d = i := by omega
    rw [← hback]
    exact hPQ _ (by omega) (by omega) (hbetween _ (by omega) (by omega))
  induction ranges generalizing start with
  | nil => exact ⟨by have := h.1; omega, hgap (Nat.le_refl _) (Nat.le_refl _) h.2⟩
  | cons range ranges ih =>
    obtain ⟨hfirst, hbetween, hlt, hrest⟩ := h
    have hstop := hrest.le
    refine ⟨?_, hgap (Nat.le_refl _) (by omega) hbetween, ?_, ?_⟩
    · show start - o + d ≤ range.start - o + d
      omega
    · show range.start - o + d < range.stop - o + d
      omega
    · exact ih hrest (by omega) (fun i hi => hPQ i (by omega))
        fun ha => hgap (by omega)

/-- Ranges with gaps of one kind are the whole without some elements of that kind. -/
theorem Gapped.omits {l : List α} {p : α → Prop} (h : Gapped P start ranges stop)
    (hp : ∀ i x, P i → l[i]? = some x → p x) :
    Omission.Omits p (ranges.map fun range => slice l range.start range.stop).flatten
      (slice l start stop) := by
  have hgap : ∀ {a b}, Between P a b → Omission.Omits p [] (slice l a b) := by
    intro a b hbetween
    apply Omission.Omits.of_forall
    intro x hx
    obtain ⟨i, hi, hlt, hunit⟩ := exists_of_mem_slice hx
    exact hp i x (hbetween i hi hlt) hunit
  induction ranges generalizing start with
  | nil => exact hgap h.2
  | cons range ranges ih =>
    obtain ⟨hfirst, hbetween, hlt, hrest⟩ := h
    rw [List.map_cons, List.flatten_cons,
      ← slice_append_slice hfirst (hlt.le.trans hrest.le),
      ← slice_append_slice hlt.le hrest.le]
    exact (hgap hbetween).append ((Omission.Omits.refl p _).append (ih hrest))

theorem Gapped.bounds (h : Gapped P start ranges stop) :
    ∀ range ∈ ranges, start ≤ range.start ∧ range.start < range.stop ∧ range.stop ≤ stop := by
  induction ranges generalizing start with
  | nil => exact fun _ h => (List.not_mem_nil h).elim
  | cons range ranges ih =>
    obtain ⟨hfirst, -, hlt, hrest⟩ := h
    refine List.forall_mem_cons.mpr ⟨⟨hfirst, hlt, hrest.le⟩, fun other hother => ?_⟩
    obtain ⟨hle, hother⟩ := ih hrest other hother
    exact ⟨hfirst.trans (hlt.le.trans hle), hother⟩

/-- What is not of the kind of the gaps is in a range. -/
theorem Gapped.covered (h : Gapped P start ranges stop) {i : ℕ} (hstart : start ≤ i)
    (hstop : i < stop) (hi : ¬P i) : Covered ranges i := by
  induction ranges generalizing start with
  | nil => exact absurd (h.2 i hstart hstop) hi
  | cons range ranges ih =>
    obtain ⟨-, hgap, -, hrest⟩ := h
    rcases Nat.lt_or_ge i range.start with hlt | hge
    · exact absurd (hgap i hstart hlt) hi
    rcases Nat.lt_or_ge i range.stop with hlt | hbehind
    · exact ⟨range, List.mem_cons_self, hge, hlt⟩
    · obtain ⟨other, hother, hcovered⟩ := ih hrest hbehind
      exact ⟨other, List.mem_cons_of_mem range hother, hcovered⟩

/-- No position is in two of the ranges. -/
theorem Gapped.countP_le_one (h : Gapped P start ranges stop) (i : ℕ) :
    ranges.countP (fun range => range.start ≤ i ∧ i < range.stop) ≤ 1 := by
  induction ranges generalizing start with
  | nil => exact Nat.zero_le _
  | cons range ranges ih =>
    obtain ⟨-, -, -, hrest⟩ := h
    rw [List.countP_cons]
    split_ifs with hat
    · have hnone : ranges.countP (fun range => range.start ≤ i ∧ i < range.stop) = 0 := by
        rw [List.countP_eq_zero]
        intro other hother hcovers
        have hbehind := (hrest.bounds other hother).1
        simp only [decide_eq_true_eq] at hat hcovers
        omega
      omega
    · exact ih hrest

theorem Contiguous.le (h : Contiguous start ranges stop) : start ≤ stop := by
  induction ranges generalizing start with
  | nil => exact h.le
  | cons range ranges ih =>
    obtain ⟨rfl, hlt, hrest⟩ := h
    exact hlt.le.trans (ih hrest)

theorem Contiguous.append_gapped {more : List Range} {last : ℕ} (h : Contiguous start ranges stop)
    (hmore : Gapped P stop more last) : Gapped P start (ranges ++ more) last := by
  induction ranges generalizing start with
  | nil =>
    obtain rfl : start = stop := h
    exact hmore
  | cons range ranges ih =>
    obtain ⟨rfl, hlt, hrest⟩ := h
    exact ⟨Nat.le_refl _, .self P _, hlt, ih hrest⟩

/-- Ranges that are cut without a gap. -/
theorem Gapped.flatMap {cut : Range → List Range} (h : Gapped P start ranges stop)
    (hcut : ∀ range ∈ ranges, Contiguous range.start (cut range) range.stop) :
    Gapped P start (ranges.flatMap cut) stop := by
  induction ranges generalizing start with
  | nil => exact h
  | cons range ranges ih =>
    obtain ⟨hfirst, hgap, -, hrest⟩ := h
    obtain ⟨hrange, hranges⟩ := List.forall_mem_cons.mp hcut
    rw [List.flatMap_cons]
    exact (hrange.append_gapped (ih hrest hranges)).behind hfirst hgap

theorem Contiguous.bounds {ranges : List Range} {start stop : ℕ} (h : Contiguous start ranges stop) :
    ∀ range ∈ ranges, range.start < range.stop ∧ range.stop ≤ stop := by
  induction ranges generalizing start with
  | nil => exact fun _ h => (List.not_mem_nil h).elim
  | cons range ranges ih =>
    exact List.forall_mem_cons.mpr ⟨⟨h.2.1, h.2.2.le⟩, ih h.2.2⟩

theorem Contiguous.flatten {l : List α} (h : Contiguous start ranges stop) :
    (ranges.map fun range => slice l range.start range.stop).flatten = slice l start stop := by
  induction ranges generalizing start with
  | nil =>
    obtain rfl : start = stop := h
    exact (slice_self l start).symm
  | cons range ranges ih =>
    obtain ⟨rfl, hlt, hrest⟩ := h
    rw [List.map_cons, List.flatten_cons, ih hrest, slice_append_slice hlt.le hrest.le]

end Ranges

/-- Bisects the positions from one up to another for the first one at which a test fails. -/
def bisect (p : ℕ → Bool) (low high : ℕ) : ℕ :=
  if low < high then
    let middle := low + (high - low) / 2
    if p middle then bisect p (middle + 1) high else bisect p low middle
  else low
termination_by high - low

section Bisect

/-- The test holds in front of where the bisection ends, and at no position behind. -/
theorem bisect_spec {p : ℕ → Bool} (hp : ∀ i j, i ≤ j → p j = true → p i = true) (low high : ℕ)
    (hle : low ≤ high) : low ≤ bisect p low high ∧ bisect p low high ≤ high ∧
      (∀ i, low ≤ i → i < bisect p low high → p i = true) ∧
      ∀ i, bisect p low high ≤ i → i < high → p i = false := by
  induction low, high using bisect.induct p with
  | case1 low high hlt middle hmiddle ih =>
    have hbounds : low ≤ middle ∧ middle < high := by omega
    obtain ⟨hlow, hhigh, hfront, hbehind⟩ := ih hbounds.2
    have hbisect : bisect p low high = bisect p (middle + 1) high := by
      rw [bisect, if_pos hlt]
      exact if_pos hmiddle
    rw [hbisect]
    refine ⟨by omega, hhigh, ?_, hbehind⟩
    intro i _ hi
    rcases Nat.lt_or_ge middle i with h | h
    · exact hfront i h hi
    · exact hp i middle h hmiddle
  | case2 low high hlt middle hmiddle ih =>
    have hbounds : low ≤ middle ∧ middle < high := by omega
    obtain ⟨hlow, hhigh, hfront, hbehind⟩ := ih hbounds.1
    have hbisect : bisect p low high = bisect p low middle := by
      rw [bisect, if_pos hlt]
      exact if_neg hmiddle
    rw [hbisect]
    refine ⟨hlow, by omega, hfront, ?_⟩
    intro i hi hlt
    rcases Nat.lt_or_ge i middle with h | h
    · exact hbehind i hi h
    · rw [Bool.eq_false_iff]
      exact fun htrue => hmiddle (hp middle i h htrue)
  | case3 low high hlt =>
    rw [bisect, if_neg hlt]
    exact ⟨Nat.le_refl _, hle, fun i hi hi' => by omega, fun i hi hi' => by omega⟩

/-- What is behind a bisection of a list that has all elements of one kind in front. -/
theorem mem_drop_bisect {l : List α} {p : α → Bool}
    (hl : l.Pairwise fun a b => p b = true → p a = true) {a : α} :
    a ∈ l.drop (bisect (fun i => l[i]?.any p) 0 l.length) ↔ a ∈ l ∧ p a = false := by
  have hp : ∀ i j : ℕ, i ≤ j → (l[j]?.any p) = true → (l[i]?.any p) = true := by
    intro i j hij hj
    rcases Nat.lt_or_ge j l.length with hlt | hge
    · rw [List.getElem?_eq_getElem hlt, Option.any_some] at hj
      rw [List.getElem?_eq_getElem (hij.trans_lt hlt), Option.any_some]
      rcases hij.eq_or_lt with rfl | hij
      · exact hj
      · exact List.pairwise_iff_getElem.mp hl i j _ hlt hij hj
    · rw [List.getElem?_eq_none hge, Option.any_none] at hj
      exact absurd hj Bool.false_ne_true
  obtain ⟨-, -, hfront, hbehind⟩ := bisect_spec hp 0 l.length (Nat.zero_le _)
  generalize bisect (fun i => l[i]?.any p) 0 l.length = r at *
  have hat : ∀ {i}, l[i]? = some a → i < l.length ∧ (l[i]?.any p) = p a := by
    intro i hi
    rw [hi]
    exact ⟨(List.getElem?_eq_some_iff.mp hi).1, rfl⟩
  constructor
  · intro ha
    obtain ⟨i, hi⟩ := List.mem_iff_getElem?.mp ha
    rw [List.getElem?_drop] at hi
    obtain ⟨hlt, hany⟩ := hat hi
    rw [← hany]
    exact ⟨List.mem_of_getElem? hi, hbehind (r + i) (Nat.le_add_right r i) hlt⟩
  · rintro ⟨ha, hpa⟩
    obtain ⟨i, hi⟩ := List.mem_iff_getElem?.mp ha
    have hle : r ≤ i := by
      by_contra hlt
      have htrue := hfront i (Nat.zero_le i) (by omega)
      rw [(hat hi).2, hpa] at htrue
      exact Bool.false_ne_true htrue
    apply List.mem_of_getElem? (i := i - r)
    rw [List.getElem?_drop, Nat.add_sub_cancel' hle, hi]

end Bisect

end Ranges
