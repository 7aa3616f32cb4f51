import Mathlib.Algebra.Order.Field.Power
import Mathlib.Data.Int.Log
import Mathlib.Data.Rat.Floor
import Mathlib.Tactic.Linarith
import Mathlib.Tactic.Positivity
import Mathlib.Tactic.Ring
import Mathlib.Algebra.Order.Ring.Rat

/-!
# Binary64 numbers

The finite doubles as rationals, and the double nearest to a rational, ties to
even, as `Number` and number literals have it.
-/

/-- A finite double other than `-0`. -/
structure Double where
  value : ℚ
  representable : ∃ m e : ℤ, |m| < 2 ^ 53 ∧ -1074 ≤ e ∧ e ≤ 971 ∧ value = m * 2 ^ e

namespace Double

@[ext]
theorem ext {a b : Double} (h : a.value = b.value) : a = b := by
  cases a
  cases b
  congr

instance : DecidableEq Double := fun a b =>
  decidable_of_iff (a.value = b.value) ⟨ext, congrArg value⟩

/-- The integer nearest to a rational, the even one of two. -/
def roundHalfEven (q : ℚ) : ℤ :=
  if q - ⌊q⌋ < 1 / 2 then ⌊q⌋
  else if 1 / 2 < q - ⌊q⌋ then ⌊q⌋ + 1
  else if ⌊q⌋ % 2 = 0 then ⌊q⌋
  else ⌊q⌋ + 1

theorem roundHalfEven_intCast (n : ℤ) : roundHalfEven n = n := by
  simp [roundHalfEven]

theorem roundHalfEven_nonneg {q : ℚ} (h : 0 ≤ q) : 0 ≤ roundHalfEven q := by
  have hfloor : 0 ≤ ⌊q⌋ := Int.floor_nonneg.mpr h
  unfold roundHalfEven
  split_ifs <;> omega

/-- Rounding does not pass an integer. -/
theorem roundHalfEven_le {q : ℚ} {n : ℤ} (h : q ≤ n) : roundHalfEven q ≤ n := by
  by_cases heq : q = n
  · rw [heq, roundHalfEven_intCast]
  · have hlt : ⌊q⌋ < n := Int.floor_lt.mpr (lt_of_le_of_ne h heq)
    unfold roundHalfEven
    split_ifs <;> omega

theorem le_roundHalfEven {q : ℚ} {n : ℤ} (h : n ≤ q) : n ≤ roundHalfEven q := by
  have hfloor : n ≤ ⌊q⌋ := Int.le_floor.mpr h
  unfold roundHalfEven
  split_ifs <;> omega

/-- The exponent of the last place of the doubles next to a positive rational. -/
def lastPlace (q : ℚ) : ℤ := max (Int.log 2 q - 52) (-1074)

/-- The multiple of the last place nearest to a rational. -/
def nearest (q : ℚ) : ℚ := roundHalfEven (q / 2 ^ lastPlace q) * 2 ^ lastPlace q

theorem zpow_pos_two (e : ℤ) : (0 : ℚ) < 2 ^ e := zpow_pos (by norm_num) e

theorem div_lastPlace_lt (q : ℚ) : q / 2 ^ lastPlace q < 2 ^ 53 := by
  rw [div_lt_iff₀ (zpow_pos_two _)]
  calc q < 2 ^ (Int.log 2 q + 1) := by
        simpa using Int.lt_zpow_succ_log_self (b := 2) (by norm_num) q
    _ ≤ 2 ^ (53 + lastPlace q) := by
        apply zpow_le_zpow_right₀ (by norm_num)
        have := le_max_left (Int.log 2 q - 52) (-1074)
        unfold lastPlace
        omega
    _ = 2 ^ 53 * 2 ^ lastPlace q := by
        rw [zpow_add₀ (by norm_num)]
        norm_num

/-- Above the least exponent the mantissa has all its 53 bits. -/
theorem le_div_lastPlace {q : ℚ} (h : 0 < q) (he : -1074 < lastPlace q) :
    2 ^ 52 ≤ q / 2 ^ lastPlace q := by
  have hlast : lastPlace q = Int.log 2 q - 52 := by
    unfold lastPlace at *
    omega
  rw [le_div_iff₀ (zpow_pos_two _), hlast]
  calc (2 : ℚ) ^ 52 * 2 ^ (Int.log 2 q - 52) = 2 ^ Int.log 2 q := by
        rw [zpow_sub₀ (by norm_num)]
        norm_num
        ring
    _ ≤ q := by simpa using Int.zpow_log_le_self (b := 2) (by norm_num) h

/-- From `2 ^ 53` on, rounding stays there. -/
theorem le_nearest {q : ℚ} (h : 2 ^ 53 ≤ q) : 2 ^ 53 ≤ nearest q := by
  have h0 : 0 < q := lt_of_lt_of_le (by norm_num) h
  have hlog : 53 ≤ Int.log 2 q := by
    rw [← Int.zpow_le_iff_le_log (by norm_num) h0]
    exact_mod_cast h
  have hplace : 1 ≤ lastPlace q := by
    unfold lastPlace
    omega
  have hround : (2 : ℚ) ^ 52 ≤ roundHalfEven (q / 2 ^ lastPlace q) := by
    have := le_roundHalfEven (n := 2 ^ 52) (by exact_mod_cast le_div_lastPlace h0 (by omega))
    exact_mod_cast this
  unfold nearest
  calc (2 : ℚ) ^ 53 = (2 : ℚ) ^ 52 * (2 : ℚ) ^ (1 : ℤ) := by norm_num
    _ ≤ (roundHalfEven (q / 2 ^ lastPlace q) : ℚ) * 2 ^ lastPlace q := by
      apply mul_le_mul hround _ (by positivity) (le_trans (by positivity) hround)
      exact zpow_le_zpow_right₀ (by norm_num) hplace

theorem nearest_representable {q : ℚ} (h0 : 0 < q) (hfinite : nearest q < 2 ^ 1024) :
    ∃ m e : ℤ, |m| < 2 ^ 53 ∧ -1074 ≤ e ∧ e ≤ 971 ∧ nearest q = m * 2 ^ e := by
  have he : -1074 ≤ lastPlace q := le_max_right ..
  have hm0 : 0 ≤ roundHalfEven (q / 2 ^ lastPlace q) :=
    roundHalfEven_nonneg (div_nonneg h0.le (zpow_pos_two _).le)
  have hm : roundHalfEven (q / 2 ^ lastPlace q) ≤ 2 ^ 53 := by
    apply roundHalfEven_le
    exact_mod_cast (div_lastPlace_lt q).le
  have hfull : -1074 < lastPlace q → 2 ^ 52 ≤ roundHalfEven (q / 2 ^ lastPlace q) := by
    intro hlast
    apply le_roundHalfEven
    exact_mod_cast le_div_lastPlace h0 hlast
  unfold nearest at *
  generalize roundHalfEven (q / 2 ^ lastPlace q) = m at *
  generalize lastPlace q = e at *
  have hbound : ∀ m' e' : ℤ, 2 ^ 52 ≤ m' → (m : ℚ) * 2 ^ e = m' * 2 ^ e' → e' ≤ 971 := by
    intro m' e' hm' heq
    by_contra hlt
    have hle : (2 : ℚ) ^ 1024 ≤ m' * 2 ^ e' := by
      calc (2 : ℚ) ^ 1024 = 2 ^ 52 * 2 ^ (972 : ℤ) := by
            rw [show (972 : ℤ) = (972 : ℕ) from rfl, zpow_natCast, ← pow_add]
        _ ≤ (m' : ℚ) * 2 ^ e' := by
          apply mul_le_mul
          · exact_mod_cast hm'
          · exact zpow_le_zpow_right₀ (by norm_num) (by omega)
          · exact (zpow_pos_two _).le
          · exact_mod_cast (by omega : (0 : ℤ) ≤ m')
    rw [← heq] at hle
    exact absurd hfinite (not_lt.mpr hle)
  by_cases htop : m = 2 ^ 53
  -- a mantissa of 2 ^ 53 is one of 2 ^ 52 a place further
  · have heq : (m : ℚ) * 2 ^ e = ((2 ^ 52 : ℤ) : ℚ) * 2 ^ (e + 1) := by
      rw [htop, zpow_add₀ (by norm_num)]
      push_cast
      ring
    exact ⟨2 ^ 52, e + 1, by norm_num, by omega, hbound _ _ le_rfl heq, heq⟩
  · refine ⟨m, e, ?_, he, ?_, rfl⟩
    · rw [abs_of_nonneg hm0]
      omega
    · by_cases hlast : -1074 < e
      · exact hbound m e (hfull hlast) rfl
      · omega

/-- A double is a multiple of its last place. -/
theorem nearest_eq_self {q : ℚ} (h0 : 0 < q)
    (h : ∃ m e : ℤ, |m| < 2 ^ 53 ∧ -1074 ≤ e ∧ e ≤ 971 ∧ q = m * 2 ^ e) : nearest q = q := by
  obtain ⟨m, e, hm, he, -, rfl⟩ := h
  have hpos : (0 : ℚ) < m := pos_of_mul_pos_left h0 (zpow_pos_two e).le
  have hplace : lastPlace (m * 2 ^ e) ≤ e := by
    have hlog : Int.log 2 ((m : ℚ) * 2 ^ e) < 53 + e := by
      rw [← Int.lt_zpow_iff_log_lt (by norm_num) h0, Nat.cast_ofNat, zpow_add₀ (by norm_num)]
      apply mul_lt_mul_of_pos_right _ (zpow_pos_two e)
      exact_mod_cast (abs_lt.mp hm).2
    unfold lastPlace
    omega
  obtain ⟨n, hn⟩ := Int.eq_ofNat_of_zero_le (sub_nonneg.mpr hplace)
  have hwhole : (m : ℚ) * 2 ^ e / 2 ^ lastPlace (m * 2 ^ e) = ((m * 2 ^ n : ℤ) : ℚ) := by
    rw [mul_div_assoc, ← zpow_sub₀ (by norm_num), hn]
    push_cast
    simp
  unfold nearest
  rw [hwhole, roundHalfEven_intCast, ← hwhole, div_mul_cancel₀]
  exact (zpow_pos_two _).ne'

/-- An integer that is rounded to is not farther than the other neighbour. -/
theorem sub_floor_le_of_roundHalfEven {q : ℚ} (h : roundHalfEven q = ⌊q⌋) :
    q - ⌊q⌋ ≤ ⌈q⌉ - q := by
  have hhalf : q - ⌊q⌋ ≤ 1 / 2 := by
    unfold roundHalfEven at h
    split_ifs at h <;> first | omega | linarith
  rcases (Int.floor_le_ceil q).lt_or_eq with hlt | heq
  · have hceil : (⌊q⌋ : ℚ) + 1 ≤ ⌈q⌉ := by exact_mod_cast hlt
    linarith
  · have hceil := Int.le_ceil q
    have hfloor := Int.floor_le q
    rw [← heq] at hceil ⊢
    linarith

theorem ceil_sub_le_of_roundHalfEven {q : ℚ} (h : roundHalfEven q ≠ ⌊q⌋) :
    ⌈q⌉ - q ≤ q - ⌊q⌋ := by
  have hhalf : 1 / 2 ≤ q - ⌊q⌋ := by
    by_contra hlt
    exact h (if_pos (not_le.mp hlt))
  have hceil : (⌈q⌉ : ℚ) ≤ ⌊q⌋ + 1 := by exact_mod_cast Int.ceil_le_floor_add_one q
  linarith

theorem roundHalfEven_mono {q r : ℚ} (h : q ≤ r) : roundHalfEven q ≤ roundHalfEven r := by
  rcases (Int.floor_le_floor h).lt_or_eq with hlt | heq
  · have hq : roundHalfEven q ≤ ⌊q⌋ + 1 := by
      apply roundHalfEven_le
      push_cast
      exact (Int.lt_floor_add_one q).le
    have hr : ⌊r⌋ ≤ roundHalfEven r := le_roundHalfEven (Int.floor_le r)
    omega
  · unfold roundHalfEven
    rw [heq]
    split_ifs <;> first | omega | linarith

theorem lastPlace_mono {q r : ℚ} (hq : 0 < q) (h : q ≤ r) : lastPlace q ≤ lastPlace r := by
  have hlog := Int.log_mono_right (b := 2) hq h
  unfold lastPlace
  omega

/-- Rounding does not pass a multiple of the last place. -/
theorem nearest_le {q : ℚ} {m : ℤ} (h : q ≤ m * 2 ^ lastPlace q) :
    nearest q ≤ m * 2 ^ lastPlace q := by
  apply mul_le_mul_of_nonneg_right _ (zpow_pos_two _).le
  exact_mod_cast roundHalfEven_le ((div_le_iff₀ (zpow_pos_two _)).mpr h)

theorem le_nearest_of_le {q : ℚ} {m : ℤ} (h : m * 2 ^ lastPlace q ≤ q) :
    m * 2 ^ lastPlace q ≤ nearest q := by
  apply mul_le_mul_of_nonneg_right _ (zpow_pos_two _).le
  exact_mod_cast le_roundHalfEven ((le_div_iff₀ (zpow_pos_two _)).mpr h)

theorem nearest_mono {q r : ℚ} (hq : 0 < q) (h : q ≤ r) : nearest q ≤ nearest r := by
  have hr : 0 < r := hq.trans_le h
  rcases (lastPlace_mono hq h).lt_or_eq with hlt | heq
  · -- the power of two that `r` starts with is between them
    have hplace : lastPlace r = Int.log 2 r - 52 := by
      have := le_max_right (Int.log 2 q - 52) (-1074)
      unfold lastPlace at *
      omega
    have hpower : ∀ e ≤ Int.log 2 r, (2 : ℚ) ^ Int.log 2 r =
        ((2 ^ (Int.log 2 r - e).toNat : ℤ) : ℚ) * 2 ^ e := by
      intro e he
      push_cast
      rw [← zpow_natCast, ← zpow_add₀ (by norm_num)]
      congr 1
      omega
    have hbelow : q < 2 ^ Int.log 2 r := by
      have hlog : Int.log 2 q < Int.log 2 r := by
        unfold lastPlace at *
        omega
      exact_mod_cast (Int.lt_zpow_iff_log_lt (b := 2) (by norm_num) hq).mpr hlog
    have habove : (2 : ℚ) ^ Int.log 2 r ≤ r := by
      exact_mod_cast Int.zpow_log_le_self (b := 2) (by norm_num) hr
    calc nearest q ≤ 2 ^ Int.log 2 r := by
          have hle : lastPlace q ≤ Int.log 2 r := by omega
          rw [hpower _ hle] at hbelow ⊢
          exact nearest_le hbelow.le
      _ ≤ nearest r := by
          have hle : lastPlace r ≤ Int.log 2 r := by omega
          rw [hpower _ hle] at habove ⊢
          exact le_nearest_of_le habove
  · unfold nearest
    rw [heq]
    apply mul_le_mul_of_nonneg_right _ (zpow_pos_two _).le
    have hround : roundHalfEven (q / 2 ^ lastPlace r) ≤ roundHalfEven (r / 2 ^ lastPlace r) :=
      roundHalfEven_mono (div_le_div_of_nonneg_right h (zpow_pos_two _).le)
    exact_mod_cast hround

theorem value_lt (d : Double) : d.value < 2 ^ 1024 := by
  obtain ⟨m, e, hm, -, he, hvalue⟩ := d.representable
  rw [hvalue]
  calc (m : ℚ) * 2 ^ e < 2 ^ 53 * 2 ^ e := by
        apply mul_lt_mul_of_pos_right _ (zpow_pos_two e)
        exact_mod_cast (abs_lt.mp hm).2
    _ ≤ 2 ^ 53 * 2 ^ (971 : ℤ) := by
        apply mul_le_mul_of_nonneg_left _ (by norm_num)
        exact zpow_le_zpow_right₀ (by norm_num) he
    _ = 2 ^ 1024 := by
        rw [show (971 : ℤ) = (971 : ℕ) from rfl, zpow_natCast, ← pow_add]

def zero : Double := ⟨0, 0, 0, by norm_num⟩

/-- A safe integer that is not negative. -/
def ofNat (n : ℕ) (h : n < 2 ^ 53) : Double where
  value := n
  representable :=
    ⟨n, 0, by rw [Nat.abs_cast]; exact_mod_cast h, by norm_num, by norm_num, by simp⟩

def neg (d : Double) : Double where
  value := -d.value
  representable := by
    obtain ⟨m, e, hm, he, he', hvalue⟩ := d.representable
    exact ⟨-m, e, by rwa [abs_neg], he, he', by rw [hvalue]; push_cast; ring⟩

end Double

/-- The values of the Number type. -/
inductive Number where
  | nan
  | infinity
  | negInfinity
  | negZero
  | finite (d : Double)
deriving DecidableEq

namespace Number

def neg : Number → Number
  | nan => nan
  | infinity => negInfinity
  | negInfinity => infinity
  | negZero => finite .zero
  | finite d => if d.value = 0 then negZero else finite d.neg

/-- The Number value for a rational that is not negative. -/
def ofRat (q : ℚ) : Number :=
  if h0 : 0 < q then
    if h : Double.nearest q < 2 ^ 1024 then
      finite ⟨Double.nearest q, Double.nearest_representable h0 h⟩
    else infinity
  else finite .zero

theorem ofRat_eq_finite {d : Double} (h : 0 ≤ d.value) : ofRat d.value = finite d := by
  unfold ofRat
  by_cases h0 : 0 < d.value
  · have hself := Double.nearest_eq_self h0 d.representable
    rw [dif_pos h0, dif_pos (by rw [hself]; exact d.value_lt)]
    exact congrArg finite (Double.ext hself)
  · rw [dif_neg h0]
    exact congrArg finite (Double.ext (le_antisymm h (not_lt.mp h0)))

theorem ofRat_natCast {n : ℕ} (h : n < 2 ^ 53) : ofRat n = finite (.ofNat n h) := by
  have hnonneg : (0 : ℚ) ≤ (Double.ofNat n h).value := Nat.cast_nonneg n
  exact ofRat_eq_finite hnonneg

theorem lt_of_ofRat_eq_finite {n : ℕ} {d : Double} (h : ofRat n = finite d)
    (hd : d.value < 2 ^ 53) : n < 2 ^ 53 := by
  by_contra hn
  have hlarge : (2 : ℚ) ^ 53 ≤ n := by exact_mod_cast not_lt.mp hn
  unfold ofRat at h
  split_ifs at h with h0
  · obtain rfl := Number.finite.inj h
    exact absurd hd (not_lt.mpr (Double.le_nearest hlarge))
  · exact h0 (lt_of_lt_of_le (by norm_num) hlarge)

theorem nearest_of_ofRat {q : ℚ} {d : Double} (h : ofRat q = finite d) (hd : 0 < d.value) :
    0 < q ∧ Double.nearest q = d.value := by
  unfold ofRat at h
  split_ifs at h with hq
  · obtain rfl := Number.finite.inj h
    exact ⟨hq, rfl⟩
  · obtain rfl := Number.finite.inj h
    exact absurd hd (lt_irrefl 0)

theorem ofRat_of_nearest {q : ℚ} {d : Double} (hq : 0 < q) (h : Double.nearest q = d.value) :
    ofRat q = finite d := by
  unfold ofRat
  rw [dif_pos hq, dif_pos (by rw [h]; exact d.value_lt)]
  exact congrArg finite (Double.ext h)

/-- What is between a rational and its double has that double. -/
theorem ofRat_of_between {q r : ℚ} {d : Double} (h : ofRat q = finite d) (hd : 0 < d.value)
    (hbetween : q ≤ r ∧ r ≤ d.value ∨ d.value ≤ r ∧ r ≤ q) : ofRat r = finite d := by
  obtain ⟨hq, hnearest⟩ := nearest_of_ofRat h hd
  have hself := Double.nearest_eq_self hd d.representable
  rcases hbetween with ⟨hqr, hrd⟩ | ⟨hdr, hrq⟩
  · have hr := hq.trans_le hqr
    apply ofRat_of_nearest hr
    apply le_antisymm
    · exact (Double.nearest_mono hr hrd).trans_eq hself
    · exact hnearest.symm.trans_le (Double.nearest_mono hq hqr)
  · have hr := hd.trans_le hdr
    apply ofRat_of_nearest hr
    apply le_antisymm
    · exact (Double.nearest_mono hr hrq).trans_eq hnearest
    · exact hself.symm.trans_le (Double.nearest_mono hd hdr)

end Number
