import Flashclaw.Reef.Encoding
import Mathlib.Data.Nat.ModEq

/-!
# Reef: base64url

The register of `fromBase64url` is never masked.  Only its lowest `count` bits are read
again, so that it may as well be one without a bound.
-/

namespace Flashclaw.Reef

open Utf16

/-- `base64urlBytes` with a register that keeps all its bits. -/
def unboundedBytes (bits count : ℕ) : Utf16 → Bytes × ℕ × ℕ
  | [] => ([], bits, count)
  | character :: value =>
    let bits := bits * 0x40 + base64urlAlphabet.idxOf character
    let count := count + 6
    if 8 ≤ count then
      let (output, rest) := unboundedBytes bits (count - 8) value
      (Utf8.byte (bits / 2 ^ (count - 8)) :: output, rest)
    else unboundedBytes bits count value

/-- Two results of the loop that agree in what is read of them. -/
def SameBytes (x y : Bytes × ℕ × ℕ) : Prop :=
  x.1 = y.1 ∧ x.2.2 = y.2.2 ∧ x.2.1 % 2 ^ x.2.2 = y.2.1 % 2 ^ x.2.2

theorem SameBytes.cons {x y : Bytes × ℕ × ℕ} (h : SameBytes x y) (b : Byte) :
    SameBytes (b :: x.1, x.2) (b :: y.1, y.2) :=
  ⟨congrArg (b :: ·) h.1, h.2⟩

theorem modEq_of_le {a b m n : ℕ} (h : a ≡ b [MOD 2 ^ n]) (hmn : m ≤ n) : a ≡ b [MOD 2 ^ m] :=
  h.of_dvd (pow_dvd_pow 2 hmn)

/-- Six more bits, in a register of 32. -/
theorem shifted_modEq {bits bits' count : ℕ} (digit : ℕ) (h : bits ≡ bits' [MOD 2 ^ count])
    (hcount : count < 8) :
    (bits * 0x40 + digit) % 2 ^ 32 ≡ bits' * 0x40 + digit [MOD 2 ^ (count + 6)] := by
  have hmasked : (bits * 0x40 + digit) % 2 ^ 32 ≡ bits * 0x40 + digit [MOD 2 ^ (count + 6)] :=
    modEq_of_le (Nat.mod_modEq _ _) (by omega)
  have hshift : bits * 0x40 ≡ bits' * 0x40 [MOD 2 ^ (count + 6)] := by
    rw [pow_add]
    exact h.mul_right' 0x40
  exact hmasked.trans (hshift.add_right digit)

/-- The byte that leaves a register of `n + 8` bits. -/
theorem byte_of_modEq {bits bits' n : ℕ} (h : bits ≡ bits' [MOD 2 ^ (n + 8)]) :
    Utf8.byte (bits / 2 ^ n) = Utf8.byte (bits' / 2 ^ n) := by
  refine Fin.ext ?_
  show bits / 2 ^ n % 0x100 = bits' / 2 ^ n % 0x100
  have hpow : 2 ^ n * 0x100 = 2 ^ (n + 8) := (pow_add 2 n 8).symm
  rw [← Nat.mod_mul_right_div_self, ← Nat.mod_mul_right_div_self, hpow, h]

theorem base64urlBytes_unbounded (value : Utf16) {bits bits' count : ℕ}
    (h : bits ≡ bits' [MOD 2 ^ count]) (hcount : count < 8) :
    SameBytes (base64urlBytes bits count value) (unboundedBytes bits' count value) := by
  induction value generalizing bits bits' count with
  | nil => exact ⟨rfl, rfl, h⟩
  | cons character value ih =>
    have hshifted := shifted_modEq (base64urlAlphabet.idxOf character) h hcount
    unfold base64urlBytes unboundedBytes
    dsimp only
    split
    · rename_i hfull
      have hbyte : Utf8.byte _ = Utf8.byte _ :=
        byte_of_modEq ((Nat.sub_add_cancel hfull).symm ▸ hshifted)
      rw [hbyte]
      exact (ih (modEq_of_le hshifted (by omega)) (by omega)).cons _
    · exact ih hshifted (by omega)

theorem SameBytes.symm {x y : Bytes × ℕ × ℕ} (h : SameBytes x y) : SameBytes y x :=
  ⟨h.1.symm, h.2.1.symm, h.2.1 ▸ h.2.2.symm⟩

theorem SameBytes.trans {x y z : Bytes × ℕ × ℕ} (h : SameBytes x y) (h' : SameBytes y z) :
    SameBytes x z :=
  ⟨h.1.trans h'.1, h.2.1.trans h'.2.1, by rw [h.2.2, h.2.1, h'.2.2, h'.2.1]⟩

theorem base64urlDigit_facts : ∀ n < 64, base64urlDigit n ∈ base64urlAlphabet ∧
    base64urlAlphabet.idxOf (base64urlDigit n) = n := by decide +kernel

theorem base64urlAlphabet_facts {c : CodeUnit} (h : c ∈ base64urlAlphabet) :
    base64urlAlphabet.idxOf c < 64 ∧ base64urlDigit (base64urlAlphabet.idxOf c) = c := by
  refine ⟨List.idxOf_lt_length_of_mem h, ?_⟩
  have hget : base64urlAlphabet[base64urlAlphabet.idxOf c]? = some c := by
    rw [List.getElem?_eq_getElem (List.idxOf_lt_length_of_mem h)]
    exact congrArg some (List.getElem_idxOf _)
  rw [base64urlDigit, List.getD_eq_getElem?_getD, hget]
  rfl

theorem unboundedBytes_first (bits : ℕ) (c : CodeUnit) (value : Utf16) :
    unboundedBytes bits 0 (c :: value) =
      unboundedBytes (bits * 0x40 + base64urlAlphabet.idxOf c) 6 value := rfl

theorem unboundedBytes_next (bits count : ℕ) (c : CodeUnit) (value : Utf16) :
    unboundedBytes bits (count + 2) (c :: value) =
      (Utf8.byte ((bits * 0x40 + base64urlAlphabet.idxOf c) / 2 ^ count) ::
          (unboundedBytes (bits * 0x40 + base64urlAlphabet.idxOf c) count value).1,
        (unboundedBytes (bits * 0x40 + base64urlAlphabet.idxOf c) count value).2) := by
  rw [unboundedBytes]
  simp only
  rw [if_pos (by omega), show count + 2 + 6 - 8 = count by omega]

/-- Between two groups the loop keeps nothing. -/
theorem base64urlBytes_group (c₁ c₂ c₃ c₄ : CodeUnit) (value : Utf16) :
    SameBytes (base64urlBytes 0 0 (c₁ :: c₂ :: c₃ :: c₄ :: value))
      (Utf8.byte ((base64urlAlphabet.idxOf c₁ * 0x40 + base64urlAlphabet.idxOf c₂) / 0x10) ::
        Utf8.byte (((base64urlAlphabet.idxOf c₁ * 0x40 + base64urlAlphabet.idxOf c₂) * 0x40 +
          base64urlAlphabet.idxOf c₃) / 4) ::
        Utf8.byte (((base64urlAlphabet.idxOf c₁ * 0x40 + base64urlAlphabet.idxOf c₂) * 0x40 +
          base64urlAlphabet.idxOf c₃) * 0x40 + base64urlAlphabet.idxOf c₄) ::
        (base64urlBytes 0 0 value).1, (base64urlBytes 0 0 value).2) := by
  have hrest : ∀ bits, SameBytes (unboundedBytes bits 0 value) (base64urlBytes 0 0 value) :=
    fun bits => ((base64urlBytes_unbounded value (Nat.modEq_one : 0 ≡ bits [MOD 2 ^ 0])
      (by decide))).symm
  refine (base64urlBytes_unbounded _ rfl (by decide)).trans ?_
  rw [unboundedBytes_first, unboundedBytes_next, unboundedBytes_next, unboundedBytes_next,
    Nat.zero_mul, Nat.zero_add, pow_zero, Nat.div_one]
  exact (((hrest _).cons _).cons _).cons _

theorem base64urlBytes_two (c₁ c₂ : CodeUnit) :
    SameBytes (base64urlBytes 0 0 [c₁, c₂])
      ([Utf8.byte ((base64urlAlphabet.idxOf c₁ * 0x40 + base64urlAlphabet.idxOf c₂) / 0x10)],
        base64urlAlphabet.idxOf c₁ * 0x40 + base64urlAlphabet.idxOf c₂, 4) := by
  refine (base64urlBytes_unbounded _ rfl (by decide)).trans ?_
  rw [unboundedBytes_first, unboundedBytes_next, Nat.zero_mul, Nat.zero_add]
  exact ⟨rfl, rfl, rfl⟩

theorem base64urlBytes_three (c₁ c₂ c₃ : CodeUnit) :
    SameBytes (base64urlBytes 0 0 [c₁, c₂, c₃])
      ([Utf8.byte ((base64urlAlphabet.idxOf c₁ * 0x40 + base64urlAlphabet.idxOf c₂) / 0x10),
          Utf8.byte (((base64urlAlphabet.idxOf c₁ * 0x40 + base64urlAlphabet.idxOf c₂) * 0x40 +
            base64urlAlphabet.idxOf c₃) / 4)],
        (base64urlAlphabet.idxOf c₁ * 0x40 + base64urlAlphabet.idxOf c₂) * 0x40 +
          base64urlAlphabet.idxOf c₃, 2) := by
  refine (base64urlBytes_unbounded _ rfl (by decide)).trans ?_
  rw [unboundedBytes_first, unboundedBytes_next, unboundedBytes_next, Nat.zero_mul, Nat.zero_add]
  exact ⟨rfl, rfl, rfl⟩

/-- The loop ends with this output and nothing but zeros behind it. -/
def ReadsAs (value : Utf16) (output : Bytes) : Prop :=
  (base64urlBytes 0 0 value).1 = output ∧
    (base64urlBytes 0 0 value).2.1 % 2 ^ (base64urlBytes 0 0 value).2.2 = 0

theorem readsAs_iff {value : Utf16} {output out : Bytes} {bits count : ℕ}
    (h : SameBytes (base64urlBytes 0 0 value) (out, bits, count)) :
    ReadsAs value output ↔ out = output ∧ bits % 2 ^ count = 0 := by
  obtain ⟨h₁, h₂, h₃⟩ := h
  simp only at h₁ h₂ h₃
  rw [ReadsAs, h₃, h₁, h₂]

theorem fromBase64url_eq_ok_iff {value : Utf16} {output : Bytes} :
    fromBase64url value = .ok output ↔
      (∀ c ∈ value, c ∈ base64urlAlphabet) ∧ value.length % 4 ≠ 1 ∧ ReadsAs value output := by
  unfold fromBase64url ReadsAs
  split
  · rename_i hbad
    refine ⟨fun h => (by cases h), fun ⟨hall, hlength, _⟩ => ?_⟩
    rcases hbad with hbad | hbad
    · obtain ⟨c, hc, hout⟩ := List.any_eq_true.mp hbad
      exact absurd (hall c hc) (of_decide_eq_true hout)
    · exact absurd hbad hlength
  · rename_i hgood
    rw [not_or] at hgood
    have hall : ∀ c ∈ value, c ∈ base64urlAlphabet := by
      intro c hc
      by_contra hout
      exact hgood.1 (List.any_eq_true.mpr ⟨c, hc, decide_eq_true hout⟩)
    simp only
    split
    · rename_i hpadding
      exact ⟨fun h => (by cases h), fun ⟨_, _, _, hzero⟩ => absurd hzero hpadding.2⟩
    · rename_i hpadding
      rw [Except.ok.injEq]
      refine ⟨fun h => ⟨hall, hgood.2, h, ?_⟩, fun h => h.2.2.1⟩
      by_contra hzero
      refine hpadding ⟨Nat.pos_of_ne_zero fun hcount => hzero ?_, hzero⟩
      rw [hcount, pow_zero, Nat.mod_one]

theorem base64urlAlphabet_idxOf {n : ℕ} :
    base64urlAlphabet.idxOf (base64urlDigit (n % 64)) = n % 64 :=
  (base64urlDigit_facts _ (Nat.mod_lt n (by norm_num))).2

theorem byte_eq {b : Byte} {n : ℕ} (h : n % 0x100 = b.val) : Utf8.byte n = b := Fin.ext h

theorem readsAs_base64url (value : Bytes) : ReadsAs (base64url value) value := by
  induction value using base64url.induct with
  | case1 => exact ⟨rfl, rfl⟩
  | case2 a =>
    have ha := a.isLt
    refine (readsAs_iff (base64urlBytes_two _ _)).mpr ⟨?_, ?_⟩
    · rw [base64urlAlphabet_idxOf, base64urlAlphabet_idxOf, byte_eq]
      omega
    · rw [base64urlAlphabet_idxOf, base64urlAlphabet_idxOf]
      omega
  | case3 a b =>
    have ha := a.isLt
    have hb := b.isLt
    refine (readsAs_iff (base64urlBytes_three _ _ _)).mpr ⟨?_, ?_⟩
    · rw [base64urlAlphabet_idxOf, base64urlAlphabet_idxOf, base64urlAlphabet_idxOf]
      congr 1
      · exact byte_eq (by omega)
      · congr 1
        exact byte_eq (by omega)
    · rw [base64urlAlphabet_idxOf, base64urlAlphabet_idxOf, base64urlAlphabet_idxOf]
      omega
  | case4 a b c value ih =>
    have ha := a.isLt
    have hb := b.isLt
    have hc := c.isLt
    refine (readsAs_iff (base64urlBytes_group _ _ _ _ _)).mpr ⟨?_, ih.2⟩
    rw [base64urlAlphabet_idxOf, base64urlAlphabet_idxOf, base64urlAlphabet_idxOf,
      base64urlAlphabet_idxOf, ih.1]
    congr 1
    · exact byte_eq (by omega)
    · congr 1
      · exact byte_eq (by omega)
      · congr 1
        exact byte_eq (by omega)

theorem base64urlDigit_eq {c : CodeUnit} {n : ℕ} (h : c ∈ base64urlAlphabet)
    (hn : n = base64urlAlphabet.idxOf c) : base64urlDigit n = c :=
  hn ▸ (base64urlAlphabet_facts h).2

/-- Induction over groups of four. -/
theorem quadInduction {α : Type*} {motive : List α → Prop} (nil : motive [])
    (one : ∀ a, motive [a]) (two : ∀ a b, motive [a, b]) (three : ∀ a b c, motive [a, b, c])
    (four : ∀ a b c d l, motive l → motive (a :: b :: c :: d :: l)) : ∀ l, motive l
  | [] => nil
  | [a] => one a
  | [a, b] => two a b
  | [a, b, c] => three a b c
  | a :: b :: c :: d :: l => four a b c d l (quadInduction nil one two three four l)

theorem base64url_of_readsAs {value : Utf16} {output : Bytes}
    (hall : ∀ c ∈ value, c ∈ base64urlAlphabet) (hlength : value.length % 4 ≠ 1)
    (h : ReadsAs value output) : base64url output = value := by
  have hbyte : ∀ n, (Utf8.byte n).val = n % 0x100 := fun _ => rfl
  induction value using quadInduction generalizing output with
  | nil =>
    obtain ⟨rfl, -⟩ := h
    rfl
  | one c => exact absurd rfl hlength
  | two c₁ c₂ =>
    obtain ⟨rfl, hzero⟩ := (readsAs_iff (base64urlBytes_two c₁ c₂)).mp h
    simp only [List.forall_mem_cons] at hall
    obtain ⟨h₁, h₂, -⟩ := hall
    have hd₁ := (base64urlAlphabet_facts h₁).1
    have hd₂ := (base64urlAlphabet_facts h₂).1
    simp only [base64url, hbyte]
    rw [base64urlDigit_eq h₁ (by omega), base64urlDigit_eq h₂ (by omega)]
  | three c₁ c₂ c₃ =>
    obtain ⟨rfl, hzero⟩ := (readsAs_iff (base64urlBytes_three c₁ c₂ c₃)).mp h
    simp only [List.forall_mem_cons] at hall
    obtain ⟨h₁, h₂, h₃, -⟩ := hall
    have hd₁ := (base64urlAlphabet_facts h₁).1
    have hd₂ := (base64urlAlphabet_facts h₂).1
    have hd₃ := (base64urlAlphabet_facts h₃).1
    simp only [base64url, hbyte]
    rw [base64urlDigit_eq h₁ (by omega), base64urlDigit_eq h₂ (by omega),
      base64urlDigit_eq h₃ (by omega)]
  | four c₁ c₂ c₃ c₄ value ih =>
    obtain ⟨rfl, hzero⟩ := (readsAs_iff (base64urlBytes_group c₁ c₂ c₃ c₄ value)).mp h
    simp only [List.forall_mem_cons] at hall
    obtain ⟨h₁, h₂, h₃, h₄, hrest⟩ := hall
    have hd₁ := (base64urlAlphabet_facts h₁).1
    have hd₂ := (base64urlAlphabet_facts h₂).1
    have hd₃ := (base64urlAlphabet_facts h₃).1
    have hd₄ := (base64urlAlphabet_facts h₄).1
    simp only [List.length_cons] at hlength
    have hvalue := ih hrest (by omega) ⟨rfl, hzero⟩
    simp only [base64url, hbyte, hvalue]
    rw [base64urlDigit_eq h₁ (by omega), base64urlDigit_eq h₂ (by omega),
      base64urlDigit_eq h₃ (by omega), base64urlDigit_eq h₄ (by omega)]

theorem mem_base64url {value : Bytes} {c : CodeUnit} (hc : c ∈ base64url value) :
    c ∈ base64urlAlphabet := by
  have hdigit : ∀ n, base64urlDigit (n % 64) ∈ base64urlAlphabet := fun n =>
    (base64urlDigit_facts _ (Nat.mod_lt n (by norm_num))).1
  revert c
  show ∀ c ∈ base64url value, c ∈ base64urlAlphabet
  induction value using base64url.induct with
  | case1 => simp [base64url]
  | case2 a => simp [base64url, hdigit]
  | case3 a b => simp [base64url, hdigit]
  | case4 a b c value ih => simpa [base64url, hdigit] using ih

theorem length_base64url (value : Bytes) : (base64url value).length % 4 ≠ 1 := by
  induction value using base64url.induct with
  | case1 => decide
  | case2 a => simp [base64url]
  | case3 a b => simp [base64url]
  | case4 a b c value ih =>
    simp only [base64url, List.length_cons]
    omega

theorem fromBase64url_base64url (value : Bytes) : fromBase64url (base64url value) = .ok value :=
  fromBase64url_eq_ok_iff.mpr
    ⟨fun _ => mem_base64url, length_base64url value, readsAs_base64url value⟩

theorem base64url_of_fromBase64url {text : Utf16} {value : Bytes}
    (h : fromBase64url text = .ok value) : base64url value = text := by
  obtain ⟨hall, hlength, hreads⟩ := fromBase64url_eq_ok_iff.mp h
  exact base64url_of_readsAs hall hlength hreads

theorem base64_of_fromBase64 {text : Utf16} {value : Bytes} (h : fromBase64 text = .ok value) :
    base64 value = text := by
  unfold fromBase64 at h
  split at h
  · cases h
  · simp only at h
    split at h
    · cases h
    · rename_i hcanonical
      rw [← Except.ok.inj h]
      exact not_not.mp hcanonical

/-- Both codecs are bijections between the byte strings and the texts that are accepted, and no
bit that the register of `fromBase64url` loses is ever read. -/
theorem base64_codecs_bijective :
    (∀ value, fromBase64 (base64 value) = .ok value) ∧
    (∀ value, fromBase64url (base64url value) = .ok value) ∧
    (∀ text value, fromBase64 text = .ok value → base64 value = text) ∧
    (∀ text value, fromBase64url text = .ok value → base64url value = text) ∧
    (∀ text, (∃ value, fromBase64 text = .ok value) ↔ ∃ value, base64 value = text) ∧
    (∀ text, (∃ value, fromBase64url text = .ok value) ↔ ∃ value, base64url value = text) ∧
    (∀ text, SameBytes (base64urlBytes 0 0 text) (unboundedBytes 0 0 text)) := by
  refine ⟨fromBase64_base64, fromBase64url_base64url, fun _ _ => base64_of_fromBase64,
    fun _ _ => base64url_of_fromBase64url, fun text => ⟨?_, ?_⟩, fun text => ⟨?_, ?_⟩,
    fun text => base64urlBytes_unbounded text rfl (by decide)⟩
  · rintro ⟨value, h⟩
    exact ⟨value, base64_of_fromBase64 h⟩
  · rintro ⟨value, rfl⟩
    exact ⟨value, fromBase64_base64 value⟩
  · rintro ⟨value, h⟩
    exact ⟨value, base64url_of_fromBase64url h⟩
  · rintro ⟨value, rfl⟩
    exact ⟨value, fromBase64url_base64url value⟩

end Flashclaw.Reef
