import Mathlib.Data.Rat.Floor
import Mathlib.Algebra.Order.Ring.Rat

/-!
# ECMAScript numbers

The comparison and rounding part of the language's numbers: every finite double
is a rational, `NaN` compares as false with everything, and `Math.max` and
`Math.min` propagate it.  Rounding of arithmetic results is not modelled:
sums are exact.
-/

inductive JsNumber where
  | nan
  | negInfinity
  | finite (q : ℚ)
  | infinity
deriving DecidableEq

namespace JsNumber

def ofNat (n : ℕ) : JsNumber := finite n

def ofInt (n : ℤ) : JsNumber := finite n

/-- `a < b`. -/
def lt : JsNumber → JsNumber → Bool
  | nan, _ => false
  | _, nan => false
  | _, negInfinity => false
  | negInfinity, _ => true
  | infinity, _ => false
  | finite _, infinity => true
  | finite p, finite q => decide (p < q)

/-- `a <= b`; not the negation of `b < a`, as both are false on `NaN`. -/
def le : JsNumber → JsNumber → Bool
  | nan, _ => false
  | _, nan => false
  | negInfinity, _ => true
  | _, negInfinity => false
  | _, infinity => true
  | infinity, _ => false
  | finite p, finite q => decide (p ≤ q)

instance : LT JsNumber := ⟨fun a b => a.lt b = true⟩
instance : LE JsNumber := ⟨fun a b => a.le b = true⟩
instance (a b : JsNumber) : Decidable (a < b) := inferInstanceAs (Decidable (a.lt b = true))
instance (a b : JsNumber) : Decidable (a ≤ b) := inferInstanceAs (Decidable (a.le b = true))

/-- `Math.floor`. -/
def floor : JsNumber → JsNumber
  | finite q => finite q.floor
  | n => n

/-- `Math.trunc`. -/
def trunc : JsNumber → JsNumber
  | finite q => finite (if q < 0 then -(-q).floor else q.floor)
  | n => n

/-- `Math.max(a, b)`. -/
def max (a b : JsNumber) : JsNumber :=
  if a = nan ∨ b = nan then nan else if a < b then b else a

/-- `Math.min(a, b)`. -/
def min (a b : JsNumber) : JsNumber :=
  if a = nan ∨ b = nan then nan else if b < a then b else a

/-- `a + b`, exact as sums of whole numbers below `2 ^ 53` are. -/
def add : JsNumber → JsNumber → JsNumber
  | nan, _ => nan
  | _, nan => nan
  | infinity, negInfinity => nan
  | negInfinity, infinity => nan
  | infinity, _ => infinity
  | _, infinity => infinity
  | negInfinity, _ => negInfinity
  | _, negInfinity => negInfinity
  | finite p, finite q => finite (p + q)

/-- `-a`. -/
def neg : JsNumber → JsNumber
  | nan => nan
  | infinity => negInfinity
  | negInfinity => infinity
  | finite q => finite (-q)

instance : Add JsNumber := ⟨add⟩
instance : Sub JsNumber := ⟨fun a b => a.add b.neg⟩

/-- `Number.isFinite`. -/
def isFinite : JsNumber → Bool
  | finite _ => true
  | _ => false

/-- No fractional part; the non-finite values count as whole. -/
def IsInteger : JsNumber → Prop
  | finite q => ∃ n : ℤ, q = n
  | _ => True

theorem isInteger_ofNat (n : ℕ) : (ofNat n).IsInteger := ⟨n, by simp⟩

theorem isInteger_floor (a : JsNumber) : a.floor.IsInteger := by
  cases a with
  | finite q => exact ⟨q.floor, rfl⟩
  | nan => trivial
  | negInfinity => trivial
  | infinity => trivial

theorem isInteger_max {a b : JsNumber} (ha : a.IsInteger) (hb : b.IsInteger) :
    (max a b).IsInteger := by
  unfold max
  split_ifs
  · trivial
  · exact hb
  · exact ha

theorem ofNat_lt_ofNat {a b : ℕ} : ofNat a < ofNat b ↔ a < b := by
  change decide ((a : ℚ) < b) = true ↔ _
  simp

theorem ofNat_le_ofNat {a b : ℕ} : ofNat a ≤ ofNat b ↔ a ≤ b := by
  change decide ((a : ℚ) ≤ b) = true ↔ _
  simp

theorem ofInt_lt_ofInt {a b : ℤ} : ofInt a < ofInt b ↔ a < b := by
  change decide ((a : ℚ) < b) = true ↔ _
  simp

theorem ofInt_le_ofInt {a b : ℤ} : ofInt a ≤ ofInt b ↔ a ≤ b := by
  change decide ((a : ℚ) ≤ b) = true ↔ _
  simp

theorem ofInt_add_ofNat (a : ℤ) (n : ℕ) : ofInt a + ofNat n = ofInt (a + n) := by
  change finite ((a : ℚ) + n) = finite ((a + n : ℤ) : ℚ)
  push_cast
  rfl

theorem ofInt_sub_ofNat (a : ℤ) (n : ℕ) : ofInt a - ofNat n = ofInt (a - n) := by
  change finite ((a : ℚ) + -n) = finite ((a - n : ℤ) : ℚ)
  push_cast
  rw [sub_eq_add_neg]

theorem max_zero_ofInt {a : ℤ} (h : 0 ≤ a) : max (ofNat 0) (ofInt a) = ofInt a := by
  have hzero : ofNat 0 = ofInt 0 := by simp [ofNat, ofInt]
  unfold max
  rw [hzero, if_neg (by simp [ofInt])]
  split
  · rfl
  · rename_i hle
    rw [ofInt_lt_ofInt] at hle
    rw [le_antisymm (not_lt.mp hle) h]

theorem ofInt_injective : Function.Injective ofInt := by
  intro a b h
  exact_mod_cast finite.inj h

theorem not_lt_ofNat_of_le {n : ℕ} {m : JsNumber} (h : ofNat n ≤ m) : ¬ m < ofNat n := by
  intro h'
  cases m with
  | nan => cases h
  | negInfinity => cases h
  | infinity => cases h'
  | finite q => exact absurd (of_decide_eq_true h' : q < n) (not_lt.mpr (of_decide_eq_true h))

/-- A count below a whole limit leaves room for one more. -/
theorem succ_le_of_lt {n : ℕ} {m : JsNumber} (hm : m.IsInteger) (h : ofNat n < m) :
    ofNat (n + 1) ≤ m := by
  cases m with
  | nan => cases h
  | negInfinity => cases h
  | infinity => rfl
  | finite q =>
    obtain ⟨k, rfl⟩ := hm
    have hk : (n : ℚ) < k := of_decide_eq_true h
    have hk' : (n : ℤ) < k := by exact_mod_cast hk
    refine decide_eq_true ?_
    exact_mod_cast (by omega : (n : ℤ) + 1 ≤ k)

theorem ofNat_le_of_le {n k : ℕ} {m : JsNumber} (hn : n ≤ k) (h : ofNat k ≤ m) : ofNat n ≤ m := by
  cases m with
  | nan => cases h
  | negInfinity => cases h
  | infinity => rfl
  | finite q =>
    have hk : (k : ℚ) ≤ q := of_decide_eq_true h
    exact decide_eq_true ((Nat.cast_le.mpr hn).trans hk)

theorem lt_ofNat_of_lt_of_le {n k : ℕ} {m : JsNumber} (h : m < ofNat n) (hn : n ≤ k) :
    m < ofNat k := by
  cases m with
  | nan => cases h
  | negInfinity => rfl
  | infinity => cases h
  | finite q =>
    have hq : q < n := of_decide_eq_true h
    exact decide_eq_true (hq.trans_le (Nat.cast_le.mpr hn))

theorem ofNat_lt_of_le_of_lt {n k : ℕ} {m : JsNumber} (hn : n ≤ k) (h : ofNat k < m) :
    ofNat n < m := by
  cases m with
  | nan => cases h
  | negInfinity => cases h
  | infinity => rfl
  | finite q =>
    have hk : (k : ℚ) < q := of_decide_eq_true h
    exact decide_eq_true ((Nat.cast_le.mpr hn).trans_lt hk)

theorem ofNat_lt_of_lt_of_le {n k : ℕ} {m : JsNumber} (hn : n < k) (h : ofNat k ≤ m) :
    ofNat n < m := by
  cases m with
  | nan => cases h
  | negInfinity => cases h
  | infinity => rfl
  | finite q =>
    have hk : (k : ℚ) ≤ q := of_decide_eq_true h
    exact decide_eq_true ((Nat.cast_lt.mpr hn).trans_le hk)

section Order

variable {a b c : JsNumber}

theorem ne_nan_of_lt (h : a < b) : a ≠ nan ∧ b ≠ nan := by
  constructor
  · rintro rfl
    cases h
  · rintro rfl
    cases a <;> cases h

theorem not_le_of_lt (h : a < b) : ¬ b ≤ a := by
  intro h'
  cases a with
  | nan => cases h
  | infinity => cases b <;> cases h
  | negInfinity => cases b <;> first | (cases h; done) | cases h'
  | finite p =>
    cases b with
    | finite q => exact absurd (of_decide_eq_true h : p < q) (not_lt.mpr (of_decide_eq_true h'))
    | infinity => cases h'
    | _ => cases h

theorem lt_trans (h : a < b) (h' : b < c) : a < c := by
  cases a with
  | nan => cases h
  | infinity => cases b <;> cases h
  | negInfinity => cases b <;> cases c <;> first | rfl | (cases h; done) | cases h'
  | finite p =>
    cases b with
    | finite q =>
      cases c with
      | finite r =>
        exact decide_eq_true
          ((of_decide_eq_true h : p < q).trans (of_decide_eq_true h' : q < r))
      | infinity => rfl
      | _ => cases h'
    | infinity => cases c <;> cases h'
    | _ => cases h

theorem le_of_not_lt (ha : a ≠ nan) (hb : b ≠ nan) (h : ¬ a < b) : b ≤ a := by
  cases a with
  | nan => exact absurd rfl ha
  | infinity => cases b <;> first | rfl | exact absurd rfl hb
  | negInfinity =>
    cases b with
    | nan => exact absurd rfl hb
    | negInfinity => rfl
    | _ => exact absurd rfl h
  | finite p =>
    cases b with
    | nan => exact absurd rfl hb
    | negInfinity => rfl
    | infinity => exact absurd rfl h
    | finite q =>
      exact decide_eq_true (not_lt.mp fun hpq : p < q => h (decide_eq_true hpq))

theorem le_refl (ha : a ≠ nan) : a ≤ a := le_of_not_lt ha ha fun h => by
  cases a with
  | finite p => exact absurd (of_decide_eq_true h : p < p) (by simp)
  | _ => cases h

theorem lt_max_of_lt (h : c < a) (hb : b ≠ nan) : c < max a b := by
  rw [max, if_neg (not_or.mpr ⟨(ne_nan_of_lt h).2, hb⟩)]
  split
  · rename_i hlt
    exact lt_trans h hlt
  · exact h

theorem le_max_right (ha : a ≠ nan) (hb : b ≠ nan) : b ≤ max a b := by
  rw [max, if_neg (not_or.mpr ⟨ha, hb⟩)]
  split
  · exact le_refl hb
  · rename_i hlt
    exact le_of_not_lt ha hb hlt

end Order

end JsNumber
