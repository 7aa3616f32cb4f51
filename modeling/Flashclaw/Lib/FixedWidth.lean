import Mathlib.Data.List.Lex
import Mathlib.Data.Nat.Digits.Defs
import Mathlib.Tactic.Ring
import Mathlib.Tactic.Linarith

/-!
# Numbers of a fixed width

The last digits of a number in a base, the most significant first.  On lists of one
length the lexicographic order is the order of the numbers.
-/

namespace FixedWidth

/-- The last `n` digits of a number. -/
def digits (base : ℕ) : ℕ → ℕ → List ℕ
  | 0, _ => []
  | n + 1, v => digits base n (v / base) ++ [v % base]

variable {base : ℕ}

@[simp] theorem length_digits (n v : ℕ) : (digits base n v).length = n := by
  induction n generalizing v with
  | zero => rfl
  | succ n ih => rw [digits, List.length_append, ih, List.length_singleton]

theorem lt_of_mem_digits (hbase : 0 < base) {n v d : ℕ} (h : d ∈ digits base n v) : d < base := by
  induction n generalizing v with
  | zero => cases h
  | succ n ih =>
    rcases List.mem_append.mp h with h | h
    · exact ih h
    · rw [List.mem_singleton.mp h]
      exact Nat.mod_lt v hbase

/-- The digits of two numbers of given widths, one behind the other. -/
theorem digits_add (n m v w : ℕ) (hw : w < base ^ m) :
    digits base (n + m) (v * base ^ m + w) = digits base n v ++ digits base m w := by
  induction m generalizing w with
  | zero =>
    rw [pow_zero] at hw ⊢
    obtain rfl : w = 0 := by omega
    simp [digits]
  | succ m ih =>
    have hbase : 0 < base := by
      rcases Nat.eq_zero_or_pos base with rfl | h
      · simp at hw
      · exact h
    have hdiv : (v * base ^ (m + 1) + w) / base = v * base ^ m + w / base := by
      rw [pow_succ, ← Nat.mul_assoc, Nat.add_comm, Nat.add_mul_div_right _ _ hbase, Nat.add_comm]
    have hmod : (v * base ^ (m + 1) + w) % base = w % base := by
      rw [pow_succ, ← Nat.mul_assoc, Nat.add_comm, Nat.add_mul_mod_self_right]
    have hlt : w / base < base ^ m := by
      rw [Nat.div_lt_iff_lt_mul hbase, ← pow_succ]
      exact hw
    show digits base (n + m) ((v * base ^ (m + 1) + w) / base) ++ [_ % base] = _
    rw [hdiv, hmod, ih (w / base) hlt, List.append_assoc]
    rfl

theorem append_lt_append {α : Type} [LinearOrder α] {l m : List α} (h : l < m)
    (hlength : l.length = m.length) (s t : List α) : l ++ s < m ++ t := by
  induction l generalizing m with
  | nil =>
    cases m with
    | nil => exact absurd h (lt_irrefl _)
    | cons b m => cases hlength
  | cons a l ih =>
    cases m with
    | nil => cases hlength
    | cons b m =>
      rw [List.cons_append, List.cons_append, List.cons_lt_cons_iff]
      rcases List.cons_lt_cons_iff.mp h with hab | ⟨rfl, hlm⟩
      · exact .inl hab
      · exact .inr ⟨rfl, ih hlm (Nat.succ.inj hlength)⟩

theorem append_lt_append_left {α : Type} [LinearOrder α] (l : List α) {s t : List α}
    (h : s < t) : l ++ s < l ++ t := by
  induction l with
  | nil => exact h
  | cons a l ih =>
    rw [List.cons_append, List.cons_append, List.cons_lt_cons_iff]
    exact .inr ⟨rfl, ih⟩

/-- Of two numbers of one width the digits of the smaller come first. -/
theorem digits_lt {n v w : ℕ} (h : v < w) (hw : w < base ^ n) :
    digits base n v < digits base n w := by
  induction n generalizing v w with
  | zero =>
    rw [pow_zero] at hw
    omega
  | succ n ih =>
    have hbase : 0 < base := by
      rcases Nat.eq_zero_or_pos base with rfl | hpos
      · simp at hw
      · exact hpos
    have hlt : w / base < base ^ n := by
      rw [Nat.div_lt_iff_lt_mul hbase, ← pow_succ]
      exact hw
    show digits base n (v / base) ++ [v % base] < digits base n (w / base) ++ [w % base]
    rcases Nat.lt_or_eq_of_le (Nat.div_le_div_right (c := base) h.le) with hdiv | hdiv
    · exact append_lt_append (ih hdiv hlt) (by simp) _ _
    · rw [hdiv]
      apply append_lt_append_left
      rw [List.cons_lt_cons_iff]
      left
      have hv := Nat.div_add_mod v base
      have hw := Nat.div_add_mod w base
      rw [hdiv] at hv
      omega

/-- Digits stay in order when they are written in an alphabet that is in order. -/
theorem map_lt_map {α β : Type} [LinearOrder α] [LinearOrder β] {f : α → β} {p : α → Prop}
    (hf : ∀ a b, p a → p b → a < b → f a < f b) {l m : List α} (hl : ∀ a ∈ l, p a)
    (hm : ∀ a ∈ m, p a) (h : l < m) : l.map f < m.map f := by
  induction l generalizing m with
  | nil =>
    cases m with
    | nil => exact absurd h (lt_irrefl _)
    | cons b m => exact List.nil_lt_cons _ _
  | cons a l ih =>
    cases m with
    | nil => exact absurd h (List.not_lt_nil _)
    | cons b m =>
      rw [List.map_cons, List.map_cons, List.cons_lt_cons_iff]
      rcases List.cons_lt_cons_iff.mp h with hab | ⟨rfl, hlm⟩
      · exact .inl (hf a b (hl a List.mem_cons_self) (hm b List.mem_cons_self) hab)
      · refine .inr ⟨rfl, ih ?_ ?_ hlm⟩
        · exact fun c hc => hl c (List.mem_cons_of_mem a hc)
        · exact fun c hc => hm c (List.mem_cons_of_mem a hc)

end FixedWidth
