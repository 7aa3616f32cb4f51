import Flashclaw.Lib.Double
import Flashclaw.Lib.Utf16
import Mathlib.Data.Nat.Digits.Lemmas

/-!
# Decimal numbers

`Number::toString` with the fewest digits that read back as the number, and the
number literals of JSON.
-/

open Utf16

/-- A decimal of `k` digits: `0.d₁d₂…dₖ * 10 ^ n`. -/
structure Decimal where
  k : ℕ
  s : ℕ
  n : ℤ
  pos : 0 < k
  low : 10 ^ (k - 1) ≤ s
  high : s < 10 ^ k

namespace Decimal

def value (d : Decimal) : ℚ := d.s * 10 ^ (d.n - d.k)

theorem zpow_pos_ten (e : ℤ) : (0 : ℚ) < 10 ^ e := zpow_pos (by norm_num) e

/-- How many digits a positive rational has before its point. -/
def wholeDigits (x : ℚ) : ℤ := Int.log 10 x + 1

/-- A positive rational as a number of `k` digits and more, before it is rounded. -/
def scaled (k : ℕ) (x : ℚ) : ℚ := x / 10 ^ (wholeDigits x - k)

theorem scaled_lt (k : ℕ) (x : ℚ) : scaled k x < 10 ^ k := by
  unfold scaled
  rw [div_lt_iff₀ (zpow_pos_ten _), ← zpow_natCast, ← zpow_add₀ (by norm_num)]
  simpa [wholeDigits] using Int.lt_zpow_succ_log_self (b := 10) (by norm_num) x

theorem le_scaled {k : ℕ} (hk : 0 < k) {x : ℚ} (hx : 0 < x) : 10 ^ (k - 1) ≤ scaled k x := by
  have hlog : (10 : ℚ) ^ Int.log 10 x ≤ x := by
    simpa using Int.zpow_log_le_self (b := 10) (by norm_num) hx
  unfold scaled
  rw [le_div_iff₀ (zpow_pos_ten _), ← zpow_natCast, ← zpow_add₀ (by norm_num)]
  refine le_trans (le_of_eq ?_) hlog
  congr 1
  unfold wholeDigits
  omega

/-- A number of `k` digits at a place.  Of one digit more a zero is dropped. -/
def ofDigits (k : ℕ) (s : ℤ) (n : ℤ) (hk : 0 < k) (hlow : 10 ^ (k - 1) ≤ s) (hhigh : s ≤ 10 ^ k) :
    Decimal :=
  if h : s = 10 ^ k then
    ⟨k, 10 ^ (k - 1), n + 1, hk, le_rfl, Nat.pow_lt_pow_right (by norm_num) (by omega)⟩
  else
    have hlow : ((10 ^ (k - 1) : ℕ) : ℤ) ≤ s := by exact_mod_cast hlow
    have hhigh : s < ((10 ^ k : ℕ) : ℤ) := by exact_mod_cast lt_of_le_of_ne hhigh h
    have hpos : 0 < 10 ^ k := by positivity
    ⟨k, s.toNat, n, hk, by omega, by omega⟩

section OfDigits

variable {k : ℕ} {s n : ℤ} (hk : 0 < k) (hlow : 10 ^ (k - 1) ≤ s) (hhigh : s ≤ 10 ^ k)

theorem value_ofDigits : (ofDigits k s n hk hlow hhigh).value = s * 10 ^ (n - k) := by
  unfold ofDigits value
  split_ifs with h
  · obtain ⟨j, rfl⟩ := Nat.exists_eq_succ_of_ne_zero hk.ne'
    rw [h]
    push_cast
    rw [← zpow_natCast, ← zpow_natCast, ← zpow_add₀ (by norm_num), ← zpow_add₀ (by norm_num)]
    congr 1
    push_cast
    omega
  · have hs : 0 ≤ s := le_trans (by positivity) hlow
    have hcast : ((s.toNat : ℕ) : ℚ) = s := by exact_mod_cast Int.toNat_of_nonneg hs
    simp only [hcast]

theorem k_ofDigits : (ofDigits k s n hk hlow hhigh).k = k := by
  unfold ofDigits
  split_ifs <;> rfl

theorem n_ofDigits : n ≤ (ofDigits k s n hk hlow hhigh).n ∧
    (ofDigits k s n hk hlow hhigh).n ≤ n + 1 := by
  unfold ofDigits
  split_ifs <;> simp

end OfDigits

/-- The decimals of `k` digits next to a positive rational. -/
def below (k : ℕ) (hk : 0 < k) (x : ℚ) (hx : 0 < x) : Decimal :=
  ofDigits k ⌊scaled k x⌋ (wholeDigits x) hk
    (Int.le_floor.mpr (by exact_mod_cast le_scaled hk hx))
    (Int.floor_lt.mpr (by exact_mod_cast scaled_lt k x)).le

def above (k : ℕ) (hk : 0 < k) (x : ℚ) (hx : 0 < x) : Decimal :=
  ofDigits k ⌈scaled k x⌉ (wholeDigits x) hk
    (by exact_mod_cast (le_scaled hk hx).trans (Int.le_ceil _))
    (Int.ceil_le.mpr (by exact_mod_cast (scaled_lt k x).le))

/-- The decimal reads back as the double. -/
def Reads (d : Double) (c : Decimal) : Prop := Number.ofRat c.value = .finite d

instance (d : Double) : DecidablePred (Reads d) := fun _ => inferInstanceAs (Decidable (_ = _))

/-- The decimal of `k` digits nearest to a double, of those that read back as it. -/
def closest (k : ℕ) (hk : 0 < k) (d : Double) (hd : 0 < d.value) : Decimal :=
  let s := scaled k d.value
  if Reads d (below k hk d.value hd) ∧
      (¬Reads d (above k hk d.value hd) ∨ Double.roundHalfEven s = ⌊s⌋) then
    below k hk d.value hd
  else above k hk d.value hd

/-- Some decimal of `k` digits reads back as the double. -/
def ReadsAs (d : Double) (hd : 0 < d.value) (k : ℕ) : Prop :=
  ∃ hk : 0 < k, Reads d (below k hk d.value hd) ∨ Reads d (above k hk d.value hd)

instance (d : Double) (hd : 0 < d.value) : DecidablePred (ReadsAs d hd) :=
  fun _ => inferInstanceAs (Decidable (∃ _, _))

section Neighbours

variable {k : ℕ} (hk : 0 < k) {x : ℚ} (hx : 0 < x)

theorem scaled_mul (k : ℕ) (x : ℚ) : scaled k x * 10 ^ (wholeDigits x - k) = x :=
  div_mul_cancel₀ _ (zpow_pos_ten _).ne'

theorem value_below : (below k hk x hx).value = ⌊scaled k x⌋ * 10 ^ (wholeDigits x - k) :=
  value_ofDigits ..

theorem value_above : (above k hk x hx).value = ⌈scaled k x⌉ * 10 ^ (wholeDigits x - k) :=
  value_ofDigits ..

theorem below_le : (below k hk x hx).value ≤ x := by
  rw [value_below]
  calc (⌊scaled k x⌋ : ℚ) * 10 ^ (wholeDigits x - k)
      ≤ scaled k x * 10 ^ (wholeDigits x - k) :=
        mul_le_mul_of_nonneg_right (Int.floor_le _) (zpow_pos_ten _).le
    _ = x := scaled_mul k x

theorem le_above : x ≤ (above k hk x hx).value := by
  rw [value_above]
  calc x = scaled k x * 10 ^ (wholeDigits x - k) := (scaled_mul k x).symm
    _ ≤ (⌈scaled k x⌉ : ℚ) * 10 ^ (wholeDigits x - k) :=
        mul_le_mul_of_nonneg_right (Int.le_ceil _) (zpow_pos_ten _).le

/-- A rational that has at most `k` digits is a decimal of them. -/
theorem below_value {m : ℤ} (h : scaled k x = m) : (below k hk x hx).value = x := by
  rw [value_below, h, Int.floor_intCast, ← h]
  exact scaled_mul k x

theorem value_lt_pow (c : Decimal) : c.value < 10 ^ c.n := by
  have hs : (c.s : ℚ) < 10 ^ c.k := by exact_mod_cast c.high
  unfold value
  calc (c.s : ℚ) * 10 ^ (c.n - c.k) < 10 ^ c.k * 10 ^ (c.n - c.k) :=
        mul_lt_mul_of_pos_right hs (zpow_pos_ten _)
    _ = 10 ^ c.n := by
        rw [← zpow_natCast, ← zpow_add₀ (by norm_num)]
        congr 1
        omega

theorem pow_le_value (c : Decimal) : 10 ^ (c.n - 1) ≤ c.value := by
  have hs : (10 : ℚ) ^ (c.k - 1) ≤ c.s := by exact_mod_cast c.low
  have hk := c.pos
  unfold value
  calc (10 : ℚ) ^ (c.n - 1) = 10 ^ (c.k - 1) * 10 ^ (c.n - c.k) := by
        rw [← zpow_natCast, ← zpow_add₀ (by norm_num)]
        congr 1
        omega
    _ ≤ c.s * 10 ^ (c.n - c.k) := mul_le_mul_of_nonneg_right hs (zpow_pos_ten _).le

theorem pow_wholeDigits_le (hx : 0 < x) : (10 : ℚ) ^ (wholeDigits x - 1) ≤ x := by
  unfold wholeDigits
  rw [add_sub_cancel_right]
  exact_mod_cast Int.zpow_log_le_self (b := 10) (by norm_num) hx

theorem lt_pow_wholeDigits (x : ℚ) : x < 10 ^ wholeDigits x := by
  exact_mod_cast Int.lt_zpow_succ_log_self (b := 10) (by norm_num) x

/-- No decimal of as many digits is between a rational and the one below it. -/
theorem value_le_below {c : Decimal} (h : c.value ≤ x) :
    c.value ≤ (below c.k c.pos x hx).value := by
  rw [value_below]
  have hn : c.n ≤ wholeDigits x := by
    have hlt := (pow_le_value c).trans_lt (h.trans_lt (lt_pow_wholeDigits x))
    have := (zpow_lt_zpow_iff_right₀ (by norm_num : (1 : ℚ) < 10)).mp hlt
    omega
  rcases hn.lt_or_eq with hlt | heq
  · have hfloor : ((10 ^ (c.k - 1) : ℤ) : ℚ) ≤ ⌊scaled c.k x⌋ := by
      have hle : (10 ^ (c.k - 1) : ℤ) ≤ ⌊scaled c.k x⌋ :=
        Int.le_floor.mpr (by exact_mod_cast le_scaled c.pos hx)
      exact_mod_cast hle
    have hk := c.pos
    calc c.value ≤ 10 ^ c.n := (value_lt_pow c).le
      _ ≤ (10 : ℚ) ^ (wholeDigits x - 1) := zpow_le_zpow_right₀ (by norm_num) (by omega)
      _ = ((10 ^ (c.k - 1) : ℤ) : ℚ) * 10 ^ (wholeDigits x - c.k) := by
          push_cast
          rw [← zpow_natCast, ← zpow_add₀ (by norm_num)]
          congr 1
          omega
      _ ≤ ⌊scaled c.k x⌋ * 10 ^ (wholeDigits x - c.k) :=
          mul_le_mul_of_nonneg_right hfloor (zpow_pos_ten _).le
  · have hs : (c.s : ℤ) ≤ ⌊scaled c.k x⌋ := by
      rw [Int.le_floor, scaled, le_div_iff₀ (zpow_pos_ten _), ← heq]
      exact_mod_cast h
    rw [value, heq]
    apply mul_le_mul_of_nonneg_right _ (zpow_pos_ten _).le
    exact_mod_cast hs

theorem above_le_value {c : Decimal} (h : x ≤ c.value) :
    (above c.k c.pos x hx).value ≤ c.value := by
  rw [value_above]
  have hn : wholeDigits x ≤ c.n := by
    have hlt := (pow_wholeDigits_le hx).trans_lt (h.trans_lt (value_lt_pow c))
    have := (zpow_lt_zpow_iff_right₀ (by norm_num : (1 : ℚ) < 10)).mp hlt
    omega
  obtain ⟨j, hj⟩ := Int.eq_ofNat_of_zero_le (sub_nonneg.mpr hn)
  have hvalue : c.value = ((c.s * 10 ^ j : ℤ) : ℚ) * 10 ^ (wholeDigits x - c.k) := by
    unfold value
    push_cast
    rw [mul_assoc, ← zpow_natCast, ← zpow_add₀ (by norm_num)]
    congr 2
    omega
  rw [hvalue] at h ⊢
  apply mul_le_mul_of_nonneg_right _ (zpow_pos_ten _).le
  have hceil : ⌈scaled c.k x⌉ ≤ c.s * 10 ^ j := by
    rw [Int.ceil_le, scaled, div_le_iff₀ (zpow_pos_ten _)]
    exact h
  exact_mod_cast hceil

end Neighbours

/-- A double has a decimal expansion that ends. -/
theorem exists_scaled_eq (d : Double) : ∃ k₀ : ℕ, ∀ k, k₀ ≤ k → ∃ m : ℤ, scaled k d.value = m := by
  obtain ⟨m, e, -, -, -, hvalue⟩ := d.representable
  -- `2 ^ e` is `5 ^ a / 10 ^ a` for `e = -a`
  refine ⟨((-e).toNat + wholeDigits d.value).toNat, fun k hk => ?_⟩
  obtain ⟨j, hj⟩ := Int.eq_ofNat_of_zero_le (show 0 ≤ k - wholeDigits d.value - (-e).toNat by omega)
  refine ⟨m * 2 ^ e.toNat * 5 ^ (-e).toNat * 10 ^ j, ?_⟩
  have hten : (10 : ℚ) ^ (wholeDigits d.value - k) = (10 ^ (-e).toNat * 10 ^ j)⁻¹ := by
    rw [← zpow_natCast, ← zpow_natCast, ← zpow_add₀ (by norm_num), ← zpow_neg]
    congr 1
    omega
  have htwo : (2 : ℚ) ^ e = 2 ^ e.toNat / 2 ^ (-e).toNat := by
    rw [← zpow_natCast, ← zpow_natCast, ← zpow_sub₀ (by norm_num)]
    congr 1
    omega
  have hsplit : (10 : ℚ) ^ (-e).toNat = 2 ^ (-e).toNat * 5 ^ (-e).toNat := by
    rw [← mul_pow]
    norm_num
  unfold scaled
  rw [hten, div_inv_eq_mul, hvalue, htwo, hsplit]
  push_cast
  field_simp

theorem exists_readsAs (d : Double) (hd : 0 < d.value) : ∃ k, ReadsAs d hd k := by
  obtain ⟨k₀, hexact⟩ := exists_scaled_eq d
  obtain ⟨m, hm⟩ := hexact (k₀ + 1) (by omega)
  refine ⟨k₀ + 1, by omega, .inl ?_⟩
  rw [Reads, below_value (by omega) hd hm]
  exact Number.ofRat_eq_finite hd.le

/-- The decimal of a double with as few digits as possible, and of those the nearest. -/
def shortest (d : Double) (hd : 0 < d.value) : Decimal :=
  closest (Nat.find (exists_readsAs d hd)) (Nat.find_spec (exists_readsAs d hd)).1 d hd

section Shortest

variable {d : Double} (hd : 0 < d.value) {k : ℕ} (hk : 0 < k)

theorem closest_eq : closest k hk d hd = below k hk d.value hd ∨
    closest k hk d hd = above k hk d.value hd := by
  unfold closest
  dsimp only
  split_ifs
  · exact .inl rfl
  · exact .inr rfl

theorem reads_closest (h : Reads d (below k hk d.value hd) ∨ Reads d (above k hk d.value hd)) :
    Reads d (closest k hk d hd) := by
  unfold closest
  dsimp only
  split_ifs with hbelow
  · exact hbelow.1
  · rcases h with h | h
    · by_contra habove
      exact hbelow ⟨h, .inl habove⟩
    · exact h

theorem k_closest : (closest k hk d hd).k = k := by
  rcases closest_eq hd hk with h | h
  · rw [h]
    exact k_ofDigits ..
  · rw [h]
    exact k_ofDigits ..

theorem n_closest : wholeDigits d.value ≤ (closest k hk d hd).n ∧
    (closest k hk d hd).n ≤ wholeDigits d.value + 1 := by
  rcases closest_eq hd hk with h | h
  · rw [h]
    exact n_ofDigits ..
  · rw [h]
    exact n_ofDigits ..

/-- A decimal that reads back has the one next to the double on its side read back too. -/
theorem reads_neighbour {c : Decimal} (h : Reads d c) :
    c.value ≤ d.value ∧ Reads d (below c.k c.pos d.value hd) ∨
      d.value ≤ c.value ∧ Reads d (above c.k c.pos d.value hd) := by
  rcases le_total c.value d.value with hle | hle
  · exact .inl ⟨hle, Number.ofRat_of_between h hd (.inl ⟨value_le_below hd hle, below_le c.pos hd⟩)⟩
  · exact .inr ⟨hle, Number.ofRat_of_between h hd (.inr ⟨le_above c.pos hd, above_le_value hd hle⟩)⟩

theorem closest_le {c : Decimal} (h : Reads d c) :
    |(closest c.k c.pos d hd).value - d.value| ≤ |c.value - d.value| := by
  have hunit := zpow_pos_ten (wholeDigits d.value - c.k)
  have hscaled := scaled_mul c.k d.value
  unfold closest
  dsimp only
  rcases reads_neighbour hd h with ⟨hle, hreads⟩ | ⟨hle, hreads⟩
  · have hnear := value_le_below hd hle
    rw [abs_of_nonpos (sub_nonpos.mpr hle)]
    split_ifs with hpicked
    · rw [abs_of_nonpos (sub_nonpos.mpr (below_le c.pos hd))]
      linarith
    · -- the one above is nearer
      rw [not_and_or, not_or] at hpicked
      have hround := (hpicked.resolve_left (not_not.mpr hreads)).2
      have hhalf := Double.ceil_sub_le_of_roundHalfEven hround
      rw [abs_of_nonneg (sub_nonneg.mpr (le_above c.pos hd)), value_above]
      rw [value_below] at hnear
      nlinarith [mul_le_mul_of_nonneg_right hhalf hunit.le]
  · have hnear := above_le_value hd hle
    rw [abs_of_nonneg (sub_nonneg.mpr hle)]
    split_ifs with hpicked
    · have hround := hpicked.2.resolve_left (not_not.mpr hreads)
      have hhalf := Double.sub_floor_le_of_roundHalfEven hround
      rw [abs_of_nonpos (sub_nonpos.mpr (below_le c.pos hd)), value_below]
      rw [value_above] at hnear
      nlinarith [mul_le_mul_of_nonneg_right hhalf hunit.le]
    · rw [abs_of_nonneg (sub_nonneg.mpr (le_above c.pos hd))]
      linarith

end Shortest

theorem ofRat_shortest (d : Double) (hd : 0 < d.value) :
    Number.ofRat (shortest d hd).value = .finite d :=
  reads_closest hd _ (Nat.find_spec (exists_readsAs d hd)).2

/-- No decimal with fewer digits reads back as the double. -/
theorem shortest_k_le {d : Double} (hd : 0 < d.value) {c : Decimal}
    (h : Number.ofRat c.value = .finite d) : (shortest d hd).k ≤ c.k := by
  unfold shortest
  rw [k_closest]
  apply Nat.find_min'
  exact ⟨c.pos, (reads_neighbour hd h).imp And.right And.right⟩

/-- None with as many digits that reads back is nearer. -/
theorem shortest_closest {d : Double} (hd : 0 < d.value) {c : Decimal}
    (h : Number.ofRat c.value = .finite d) (hk : c.k = (shortest d hd).k) :
    |(shortest d hd).value - d.value| ≤ |c.value - d.value| := by
  have hsame : ∀ {k k' : ℕ} (hk : 0 < k) (hk' : 0 < k'), k = k' →
      closest k hk d hd = closest k' hk' d hd := by
    rintro k k' hk hk' rfl
    rfl
  unfold shortest at hk ⊢
  rw [k_closest] at hk
  rw [hsame _ c.pos hk.symm]
  exact closest_le hd h

/-- A whole number has no more digits than those before its point. -/
theorem shortest_ofNat {n : ℕ} (h : n < 2 ^ 53) (hn : 0 < (Double.ofNat n h).value) :
    (shortest (.ofNat n h) hn).k ≤ (shortest (.ofNat n h) hn).n ∧
      (shortest (.ofNat n h) hn).n ≤ 17 := by
  have hvalue : (Double.ofNat n h).value = n := rfl
  have hpos : 1 ≤ n := by
    rw [hvalue] at hn
    exact_mod_cast hn
  have hlow : 0 ≤ Int.log 10 (n : ℚ) := by
    rw [← Int.zpow_le_iff_le_log (by norm_num) (by exact_mod_cast hpos)]
    simpa using hpos
  have hhigh : Int.log 10 (n : ℚ) < 16 := by
    rw [← Int.lt_zpow_iff_log_lt (by norm_num) (by exact_mod_cast hpos)]
    have : n < 10 ^ 16 := h.trans (by norm_num)
    exact_mod_cast this
  have hwhole : ((wholeDigits (n : ℚ)).toNat : ℤ) = wholeDigits (n : ℚ) := by
    unfold wholeDigits
    omega
  have hdigits : 0 < (wholeDigits (n : ℚ)).toNat := by
    unfold wholeDigits
    omega
  have hscaled : scaled (wholeDigits (n : ℚ)).toNat (n : ℚ) = ((n : ℤ) : ℚ) := by
    unfold scaled
    rw [hwhole, sub_self]
    simp
  have hreads : ReadsAs (.ofNat n h) hn (wholeDigits (n : ℚ)).toNat := by
    refine ⟨hdigits, .inl ?_⟩
    rw [Reads, below_value hdigits hn hscaled]
    exact Number.ofRat_eq_finite hn.le
  have hk := Nat.find_min' (exists_readsAs (.ofNat n h) hn) hreads
  obtain ⟨hlown, hhighn⟩ := n_closest hn (Nat.find_spec (exists_readsAs (.ofNat n h) hn)).1
  unfold shortest
  rw [k_closest]
  have hsame : wholeDigits (Double.ofNat n h).value = wholeDigits (n : ℚ) := rfl
  rw [hsame] at hlown hhighn
  have hdef : wholeDigits (n : ℚ) = Int.log 10 (n : ℚ) + 1 := rfl
  constructor <;> omega

end Decimal

namespace Digits

/-- The digits of a number, the first ones first. -/
def ofNat (n : ℕ) : List ℕ := (Nat.digits 10 n).reverse

/-- The number that digits write. -/
def value (ds : List ℕ) : ℕ := ds.foldl (fun n d => 10 * n + d) 0

def toText (ds : List ℕ) : Utf16 := ds.map fun d => Fin.ofNat 0x10000 (0x30 + d)

theorem value_append (ds es : List ℕ) : value (ds ++ es) = value ds * 10 ^ es.length + value es := by
  induction es using List.reverseRecOn with
  | nil => simp [value]
  | append_singleton es e ih =>
    rw [← List.append_assoc]
    unfold value at *
    simp only [List.foldl_append, List.foldl_cons, List.foldl_nil, List.length_append,
      List.length_singleton] at *
    rw [ih]
    ring

theorem value_replicate_zero (k : ℕ) : value (List.replicate k 0) = 0 := by
  induction k with
  | zero => rfl
  | succ k ih =>
    rw [List.replicate_succ', value_append, ih]
    simp [value]

theorem value_ofNat (n : ℕ) : value (ofNat n) = n := by
  unfold value ofNat
  rw [List.foldl_reverse]
  have h := Nat.ofDigits_digits 10 n
  rw [Nat.ofDigits_eq_foldr] at h
  refine Eq.trans ?_ h
  congr 1
  funext d acc
  simp
  ring

theorem lt_of_mem_ofNat {n d : ℕ} (h : d ∈ ofNat n) : d < 10 :=
  Nat.digits_lt_base (by norm_num) (List.mem_reverse.mp h)

/-- The first digit of a number is not a zero. -/
theorem exists_ofNat_eq_cons {n : ℕ} (hn : 0 < n) : ∃ d ds, ofNat n = d :: ds ∧ 0 < d := by
  have hne : Nat.digits 10 n ≠ [] := Nat.digits_ne_nil_iff_ne_zero.mpr hn.ne'
  have hlast := Nat.getLast_digit_ne_zero 10 hn.ne'
  refine ⟨(Nat.digits 10 n).getLast hne, (Nat.digits 10 n).dropLast.reverse, ?_,
    Nat.pos_of_ne_zero hlast⟩
  unfold ofNat
  conv_lhs => rw [← List.dropLast_append_getLast hne]
  simp

theorem length_ofNat {n k : ℕ} (hlow : 10 ^ (k - 1) ≤ n) (hhigh : n < 10 ^ k) :
    (ofNat n).length = k := by
  unfold ofNat
  rw [List.length_reverse]
  apply le_antisymm
  · exact (Nat.digits_length_le_iff (by norm_num) n).mpr hhigh
  · by_contra hlt
    have : (Nat.digits 10 n).length ≤ k - 1 := by omega
    have := (Nat.digits_length_le_iff (by norm_num) n).mp this
    omega

def digitValue (c : CodeUnit) : Option ℕ :=
  if 0x30 ≤ c.val ∧ c.val < 0x3A then some (c.val - 0x30) else none

/-- The digits a text starts with, and what follows. -/
def span : Utf16 → List ℕ × Utf16
  | [] => ([], [])
  | c :: s =>
    match digitValue c with
    | some d => (d :: (span s).1, (span s).2)
    | none => ([], c :: s)

/-- A text that starts with no digit. -/
def NoDigit (s : Utf16) : Prop := ∀ c rest, s = c :: rest → digitValue c = none

theorem digitValue_ofNat {d : ℕ} (h : d < 10) :
    digitValue (Fin.ofNat 0x10000 (0x30 + d)) = some d := by
  interval_cases d <;> rfl

theorem span_append {ds : List ℕ} (hds : ∀ d ∈ ds, d < 10) {rest : Utf16} (h : NoDigit rest) :
    span (toText ds ++ rest) = (ds, rest) := by
  induction ds with
  | nil =>
    cases rest with
    | nil => rfl
    | cons c rest =>
      show span (c :: rest) = _
      unfold span
      rw [h c rest rfl]
  | cons d ds ih =>
    show span (Fin.ofNat 0x10000 (0x30 + d) :: (toText ds ++ rest)) = _
    unfold span
    rw [digitValue_ofNat (hds d List.mem_cons_self),
      ih fun e he => hds e (List.mem_cons_of_mem d he)]

end Digits

namespace Number

open Digits

/-- The parts of a literal without sign. -/
structure Literal where
  whole : List ℕ
  fraction : List ℕ
  exponent : Option ℤ

namespace Literal

def value (l : Literal) : ℚ :=
  Digits.value (l.whole ++ l.fraction) * 10 ^ (l.exponent.getD 0 - l.fraction.length)

def fractionText (l : Literal) : Utf16 :=
  if l.fraction = [] then [] else unit '.' :: toText l.fraction

def exponentText (l : Literal) : Utf16 :=
  match l.exponent with
  | none => []
  | some e => unit 'e' :: unit (if 0 ≤ e then '+' else '-') :: toText (Digits.ofNat e.natAbs)

def toText (l : Literal) : Utf16 :=
  Digits.toText l.whole ++ (l.fractionText ++ l.exponentText)

end Literal

/-- The literal of a decimal, as `Number::toString` has it. -/
def literal (d : Decimal) : Literal :=
  let digits := Digits.ofNat d.s
  if d.k ≤ d.n ∧ d.n ≤ 21 then
    ⟨digits ++ List.replicate (d.n - d.k).toNat 0, [], none⟩
  else if 0 < d.n ∧ d.n ≤ 21 then
    ⟨digits.take d.n.toNat, digits.drop d.n.toNat, none⟩
  else if -6 < d.n ∧ d.n ≤ 0 then
    ⟨[0], List.replicate (-d.n).toNat 0 ++ digits, none⟩
  else
    ⟨digits.take 1, digits.drop 1, some (d.n - 1)⟩

/-- `Number::toString`. -/
def toText : Number → Utf16
  | nan => ofString "NaN"
  | infinity => ofString "Infinity"
  | negInfinity => ofString "-Infinity"
  | negZero => ofString "0"
  | finite d =>
    if h : 0 < d.value then (literal (Decimal.shortest d h)).toText
    else if h' : 0 < d.neg.value then unit '-' :: (literal (Decimal.shortest d.neg h')).toText
    else ofString "0"

/-- The digits before the point: no zero but a single one first. -/
def readWhole (s : Utf16) : Option (List ℕ × Utf16) :=
  match Digits.span s with
  | ([], _) => none
  | (0 :: _ :: _, _) => none
  | result => some result

def readFraction (s : Utf16) : Option (List ℕ × Utf16) :=
  match s with
  | [] => some ([], [])
  | c :: rest =>
    if c = unit '.' then
      match Digits.span rest with
      | ([], _) => none
      | result => some result
    else some ([], c :: rest)

/-- The digits of an exponent, after its sign. -/
def readPower (negative : Bool) (s : Utf16) : Option (Option ℤ × Utf16) :=
  match Digits.span s with
  | ([], _) => none
  | (ds, rest) => some (some (if negative then -Digits.value ds else Digits.value ds), rest)

def readExponent (s : Utf16) : Option (Option ℤ × Utf16) :=
  match s with
  | [] => some (none, [])
  | c :: rest =>
    if c = unit 'e' ∨ c = unit 'E' then
      match rest with
      | [] => none
      | sign :: rest' =>
        if sign = unit '-' then readPower true rest'
        else if sign = unit '+' then readPower false rest'
        else readPower false rest
    else some (none, c :: rest)

def readLiteral (s : Utf16) : Option (Literal × Utf16) := do
  let (whole, s) ← readWhole s
  let (fraction, s) ← readFraction s
  let (exponent, s) ← readExponent s
  return (⟨whole, fraction, exponent⟩, s)

/-- A JSON number at the start of a text, and what follows. -/
def read (s : Utf16) : Option (Number × Utf16) :=
  match s with
  | [] => none
  | c :: rest =>
    if c = unit '-' then (readLiteral rest).map fun (l, s) => ((ofRat l.value).neg, s)
    else (readLiteral s).map fun (l, s) => (ofRat l.value, s)

section RoundTrip

/-- A text that does not go on with a number. -/
def EndsNumber (s : Utf16) : Prop :=
  ∀ c rest, s = c :: rest → digitValue c = none ∧ c ≠ unit '.' ∧ c ≠ unit 'e' ∧ c ≠ unit 'E'

theorem EndsNumber.noDigit {s : Utf16} (h : EndsNumber s) : NoDigit s :=
  fun c rest hs => (h c rest hs).1

/-- The literals that the grammar of numbers has. -/
structure Literal.Ok (l : Literal) : Prop where
  whole : l.whole = [0] ∨ ∃ d ds, l.whole = d :: ds ∧ 0 < d
  wholeDigits : ∀ d ∈ l.whole, d < 10
  fractionDigits : ∀ d ∈ l.fraction, d < 10
  exponent : l.exponent ≠ some 0

theorem readWhole_append {l : Literal} (h : l.Ok) {rest : Utf16} (hr : NoDigit rest) :
    readWhole (Digits.toText l.whole ++ rest) = some (l.whole, rest) := by
  unfold readWhole
  rw [Digits.span_append h.wholeDigits hr]
  rcases h.whole with hw | ⟨d, ds, hw, hd⟩
  · rw [hw]
    rfl
  · rw [hw]
    obtain ⟨d, rfl⟩ := Nat.exists_eq_succ_of_ne_zero hd.ne'
    rfl

theorem readFraction_append {l : Literal} (h : l.Ok) {rest : Utf16} (hr : NoDigit rest)
    (hpoint : ∀ s, rest ≠ unit '.' :: s) :
    readFraction (l.fractionText ++ rest) = some (l.fraction, rest) := by
  unfold Literal.fractionText
  split_ifs with hf
  · rw [hf, List.nil_append]
    unfold readFraction
    cases rest with
    | nil => rfl
    | cons c rest =>
      simp only
      rw [if_neg]
      rintro rfl
      exact hpoint rest rfl
  · rw [List.cons_append]
    unfold readFraction
    simp only [if_true]
    rw [Digits.span_append h.fractionDigits hr]
    cases hfraction : l.fraction with
    | nil => exact absurd hfraction hf
    | cons d ds => rfl

theorem readPower_append {e : ℤ} (h : e ≠ 0) {rest : Utf16} (hr : NoDigit rest) :
    readPower (e < 0) (Digits.toText (Digits.ofNat e.natAbs) ++ rest) = some (some e, rest) := by
  obtain ⟨d, ds, hds, -⟩ := Digits.exists_ofNat_eq_cons (Int.natAbs_pos.mpr h)
  have hvalue := Digits.value_ofNat e.natAbs
  unfold readPower
  rw [Digits.span_append (fun d => Digits.lt_of_mem_ofNat) hr]
  rw [hds] at hvalue ⊢
  simp only [hvalue, Option.some.injEq, Prod.mk.injEq, and_true, decide_eq_true_eq]
  split_ifs <;> omega

theorem readExponent_append {l : Literal} (h : l.Ok) {rest : Utf16} (hr : EndsNumber rest) :
    readExponent (l.exponentText ++ rest) = some (l.exponent, rest) := by
  unfold Literal.exponentText
  cases he : l.exponent with
  | none =>
    unfold readExponent
    cases rest with
    | nil => rfl
    | cons c rest =>
      obtain ⟨-, -, hlower, hupper⟩ := hr c rest rfl
      simp [hlower, hupper]
  | some e =>
    have hne : e ≠ 0 := fun h0 => h.exponent (by rw [he, h0])
    have hpower := readPower_append hne hr.noDigit
    unfold readExponent
    by_cases hneg : 0 ≤ e
    · have hdec : decide (e < 0) = false := by simpa using hneg
      rw [hdec] at hpower
      simp [hneg, hpower, show unit '+' ≠ unit '-' by decide]
    · have hdec : decide (e < 0) = true := by simpa using hneg
      rw [hdec] at hpower
      simp [hneg, hpower]

theorem noDigit_exponentText (l : Literal) {rest : Utf16} (hr : EndsNumber rest) :
    NoDigit (l.exponentText ++ rest) ∧ ∀ s, l.exponentText ++ rest ≠ unit '.' :: s := by
  unfold Literal.exponentText
  cases l.exponent with
  | none =>
    refine ⟨hr.noDigit, fun s hs => ?_⟩
    exact (hr _ s hs).2.1 rfl
  | some e =>
    refine ⟨fun c s hs => ?_, fun s hs => ?_⟩
    · obtain ⟨rfl, -⟩ := List.cons.inj hs
      rfl
    · exact absurd (List.cons.inj hs).1 (by decide)

theorem noDigit_fractionText (l : Literal) {rest : Utf16} (hr : NoDigit rest) :
    NoDigit (l.fractionText ++ rest) := by
  unfold Literal.fractionText
  split_ifs
  · exact hr
  · intro c s hs
    obtain ⟨rfl, -⟩ := List.cons.inj hs
    rfl

theorem readLiteral_append {l : Literal} (h : l.Ok) {rest : Utf16} (hr : EndsNumber rest) :
    readLiteral (l.toText ++ rest) = some (l, rest) := by
  obtain ⟨hdigit, hpoint⟩ := noDigit_exponentText l hr
  unfold readLiteral Literal.toText
  rw [List.append_assoc, readWhole_append h, List.append_assoc]
  · simp only [Option.bind_eq_bind, Option.bind_some]
    rw [readFraction_append h hdigit hpoint]
    simp only [Option.bind_some]
    rw [readExponent_append h hr]
    rfl
  · rw [List.append_assoc]
    exact noDigit_fractionText l hdigit

/-- A literal starts with a digit. -/
theorem exists_toText_eq_cons {l : Literal} (h : l.Ok) :
    ∃ c s d, l.toText = c :: s ∧ digitValue c = some d := by
  have hne : l.whole ≠ [] := by
    rcases h.whole with hw | ⟨d, ds, hw, -⟩ <;> simp [hw]
  obtain ⟨d, ds, hds⟩ := List.exists_cons_of_ne_nil hne
  refine ⟨Fin.ofNat 0x10000 (0x30 + d), Digits.toText ds ++ (l.fractionText ++ l.exponentText), d,
    ?_, Digits.digitValue_ofNat (h.wholeDigits d (by simp [hds]))⟩
  unfold Literal.toText
  rw [hds]
  rfl

theorem literal_ok (d : Decimal) : (literal d).Ok := by
  have hs : 0 < d.s := lt_of_lt_of_le (by positivity) d.low
  obtain ⟨first, rest, hdigits, hfirst⟩ := Digits.exists_ofNat_eq_cons hs
  have hlt : ∀ e ∈ Digits.ofNat d.s, e < 10 := fun e => Digits.lt_of_mem_ofNat
  unfold literal
  simp only
  split_ifs with h1 h2 h3
  · refine ⟨.inr ⟨first, _, by rw [hdigits, List.cons_append], hfirst⟩, ?_, by simp, by simp⟩
    intro e he
    rcases List.mem_append.mp he with he | he
    · exact hlt e he
    · rw [List.eq_of_mem_replicate he]
      norm_num
  · obtain ⟨n, hn⟩ : ∃ n, d.n.toNat = n + 1 := ⟨d.n.toNat - 1, by omega⟩
    refine ⟨.inr ⟨first, rest.take n, by rw [hdigits, hn, List.take_succ_cons], hfirst⟩,
      fun e he => hlt e (List.mem_of_mem_take he), fun e he => hlt e (List.mem_of_mem_drop he),
      by simp⟩
  · refine ⟨.inl rfl, by simp, ?_, by simp⟩
    intro e he
    rcases List.mem_append.mp he with he | he
    · rw [List.eq_of_mem_replicate he]
      norm_num
    · exact hlt e he
  · refine ⟨.inr ⟨first, [], by rw [hdigits]; rfl, hfirst⟩,
      fun e he => hlt e (List.mem_of_mem_take he), fun e he => hlt e (List.mem_of_mem_drop he), ?_⟩
    have hk := d.pos
    simp only [ne_eq, Option.some.injEq]
    omega

theorem value_literal (d : Decimal) : (literal d).value = d.value := by
  have hlength := Digits.length_ofNat d.low d.high
  have hk := d.pos
  have hvalue := Digits.value_ofNat d.s
  unfold literal Literal.value Decimal.value
  simp only
  split_ifs with h1 h2 h3
  · simp only [List.append_nil, Digits.value_append, List.length_replicate, hvalue,
      Digits.value_replicate_zero, Option.getD_none, List.length_nil]
    push_cast
    rw [show (d.n - d.k : ℤ) = ((d.n - d.k).toNat : ℤ) by omega, zpow_natCast]
    simp
  · simp only [List.take_append_drop, hvalue, List.length_drop, hlength, Option.getD_none]
    congr 2
    omega
  · simp only [List.cons_append, List.nil_append, List.length_append, List.length_replicate,
      hlength, Option.getD_none]
    have hzeros : Digits.value (0 :: (List.replicate (-d.n).toNat 0 ++ Digits.ofNat d.s)) = d.s := by
      rw [← List.cons_append, ← List.replicate_succ, Digits.value_append,
        Digits.value_replicate_zero, hvalue, zero_mul, zero_add]
    rw [hzeros]
    congr 2
    push_cast
    omega
  · simp only [List.take_append_drop, hvalue, List.length_drop, hlength, Option.getD_some]
    congr 2
    omega

theorem digit_ne_minus {c : CodeUnit} {d : ℕ} (h : digitValue c = some d) : c ≠ unit '-' := by
  rintro rfl
  cases h

theorem read_append {l : Literal} (h : l.Ok) {rest : Utf16} (hr : EndsNumber rest) :
    read (l.toText ++ rest) = some (ofRat l.value, rest) := by
  obtain ⟨c, s, digit, hc, hdigit⟩ := exists_toText_eq_cons h
  have hread := readLiteral_append h hr
  rw [hc, List.cons_append] at hread ⊢
  unfold read
  simp only [if_neg (digit_ne_minus hdigit), hread, Option.map_some]

/-- The text of a finite number starts with a digit or a minus. -/
theorem exists_toText_finite_eq_cons (d : Double) :
    ∃ c s, toText (finite d) = c :: s ∧ (c = unit '-' ∨ ∃ n, digitValue c = some n) := by
  unfold toText
  simp only
  split_ifs with h h'
  · obtain ⟨c, s, n, hc, hn⟩ := exists_toText_eq_cons (literal_ok (Decimal.shortest d h))
    exact ⟨c, s, hc, .inr ⟨n, hn⟩⟩
  · exact ⟨_, _, rfl, .inl rfl⟩
  · exact ⟨unit '0', [], rfl, .inr ⟨0, rfl⟩⟩

/-- The text of a finite number reads back as it. -/
theorem read_toText_append (d : Double) {rest : Utf16} (hr : EndsNumber rest) :
    read (toText (finite d) ++ rest) = some (finite d, rest) := by
  unfold toText
  simp only
  split_ifs with h h'
  · rw [read_append (literal_ok _) hr, value_literal, Decimal.ofRat_shortest]
  · rw [List.cons_append]
    unfold read
    have hread := readLiteral_append (literal_ok (Decimal.shortest d.neg h')) hr
    simp only [if_true, hread, Option.map_some, value_literal, Decimal.ofRat_shortest]
    unfold neg
    simp only [if_neg h'.ne']
    congr 2
    rw [Number.finite.injEq]
    ext
    show - -d.value = d.value
    ring
  · have hzero : d = .zero := by
      ext
      apply le_antisymm
      · exact not_lt.mp h
      · have : ¬ 0 < -d.value := h'
        show (0 : ℚ) ≤ d.value
        linarith
    have hok : (⟨[0], [], none⟩ : Literal).Ok := ⟨.inl rfl, by simp, by simp, by simp⟩
    show read ((⟨[0], [], none⟩ : Literal).toText ++ rest) = _
    rw [read_append hok hr, hzero]
    simp [Literal.value, Digits.value, ofRat]

end RoundTrip

section Units

/-- The range of the characters of numbers. -/
def IsNumberUnit (c : CodeUnit) : Prop := 0x2B ≤ c.val ∧ c.val < 0x66

instance (c : CodeUnit) : Decidable (IsNumberUnit c) := inferInstanceAs (Decidable (_ ∧ _))

theorem isNumberUnit_digits {ds : List ℕ} (h : ∀ d ∈ ds, d < 10) :
    ∀ c ∈ Digits.toText ds, IsNumberUnit c := by
  intro c hc
  obtain ⟨d, hd, rfl⟩ := List.mem_map.mp hc
  have := h d hd
  interval_cases d <;> decide

theorem isNumberUnit_literal {l : Literal} (h : l.Ok) : ∀ c ∈ l.toText, IsNumberUnit c := by
  unfold Literal.toText Literal.fractionText Literal.exponentText
  intro c hc
  rw [List.mem_append, List.mem_append] at hc
  rcases hc with hc | hc | hc
  · exact isNumberUnit_digits h.wholeDigits c hc
  · split_ifs at hc
    · cases hc
    · rcases List.mem_cons.mp hc with rfl | hc
      · decide
      · exact isNumberUnit_digits h.fractionDigits c hc
  · cases he : l.exponent with
    | none =>
      rw [he] at hc
      cases hc
    | some e =>
      rw [he] at hc
      rcases List.mem_cons.mp hc with rfl | hc
      · decide
      · rcases List.mem_cons.mp hc with rfl | hc
        · split_ifs <;> decide
        · exact isNumberUnit_digits (fun d => Digits.lt_of_mem_ofNat) c hc

theorem isNumberUnit_toText (d : Double) : ∀ c ∈ toText (finite d), IsNumberUnit c := by
  unfold toText
  simp only
  split_ifs
  · exact isNumberUnit_literal (literal_ok _)
  · intro c hc
    rcases List.mem_cons.mp hc with rfl | hc
    · decide
    · exact isNumberUnit_literal (literal_ok _) c hc
  · intro c hc
    obtain rfl := List.mem_singleton.mp hc
    decide

/-- The text of a number has no surrogates. -/
theorem isWellFormed_toText (n : Number) : isWellFormed n.toText = true := by
  cases n with
  | nan => decide
  | infinity => decide
  | negInfinity => decide
  | negZero => decide
  | finite d =>
    apply isWellFormed_of_forall
    intro c hc
    have hunit : c.val < 0x66 := (isNumberUnit_toText d c hc).2
    unfold isSurrogate
    simp only [Bool.and_eq_false_iff, decide_eq_false_iff_not]
    omega

end Units

/-- A whole number is written with its digits. -/
theorem toText_ofNat {n : ℕ} (h : n < 2 ^ 53) :
    ∃ ds, (∀ d ∈ ds, d < 10) ∧ ds.length ≤ 17 ∧ toText (finite (.ofNat n h)) = Digits.toText ds := by
  unfold toText
  simp only
  split_ifs with hn hneg
  · obtain ⟨hk, hd⟩ := Decimal.shortest_ofNat h hn
    have hlength := Digits.length_ofNat (Decimal.shortest _ hn).low (Decimal.shortest _ hn).high
    refine ⟨_, (literal_ok (Decimal.shortest _ hn)).wholeDigits, ?_, ?_⟩
    · unfold literal
      simp only
      rw [if_pos ⟨hk, by omega⟩, List.length_append, hlength, List.length_replicate]
      omega
    · unfold literal Literal.toText Literal.fractionText Literal.exponentText
      simp only
      rw [if_pos ⟨hk, by omega⟩]
      simp
  · have hvalue : (Double.ofNat n h).neg.value = -n := rfl
    rw [hvalue] at hneg
    have : (0 : ℚ) ≤ n := Nat.cast_nonneg n
    linarith
  · exact ⟨[0], by simp, by simp, rfl⟩

end Number
