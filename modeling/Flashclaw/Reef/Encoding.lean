import Flashclaw.Lib.Utf8

/-!
# Reef: encodings

`protocol/encoding.ts`.  Shifts and masks are products and remainders: the bits
never overlap.
-/

namespace Flashclaw.Reef

open Utf16

/-- A thrown error. -/
structure JsError where
  name : String
  message : String
deriving DecidableEq

def utf8 (s : Utf16) : Bytes := Utf8.encode s

def decodeUtf8 (value : Bytes) : Except JsError Utf16 :=
  match Utf8.decode value with
  | some s => .ok s
  | none => .error ⟨"TypeError", "The encoded data was not valid for encoding utf-8"⟩

def hexDigit (n : ℕ) : CodeUnit := unit (Nat.digitChar n)

/-- `bytesToHex`. -/
def hex (value : Bytes) : Utf16 :=
  value.flatMap fun b => [hexDigit (b.val / 0x10), hexDigit (b.val % 0x10)]

def base64Alphabet : Utf16 :=
  ofString "ABCDEFGHIJKLMNOPQRSTUVWXYZabcdefghijklmnopqrstuvwxyz0123456789+/"

def base64Digit (n : ℕ) : CodeUnit := base64Alphabet.getD n 0

def base64 : Bytes → Utf16
  | [] => []
  | [a] =>
    let bits := a.val * 0x10000
    [base64Digit (bits / 0x40000 % 64), base64Digit (bits / 0x1000 % 64), unit '=', unit '=']
  | [a, b] =>
    let bits := a.val * 0x10000 + b.val * 0x100
    [base64Digit (bits / 0x40000 % 64), base64Digit (bits / 0x1000 % 64),
      base64Digit (bits / 0x40 % 64), unit '=']
  | a :: b :: c :: value =>
    let bits := a.val * 0x10000 + b.val * 0x100 + c.val
    base64Digit (bits / 0x40000 % 64) :: base64Digit (bits / 0x1000 % 64) ::
      base64Digit (bits / 0x40 % 64) :: base64Digit (bits % 64) :: base64 value

def isBase64Digit (c : CodeUnit) : Bool := c ∈ base64Alphabet

/-- `/^(?:[A-Za-z0-9+/]{4})*(?:[A-Za-z0-9+/]{2}==|[A-Za-z0-9+/]{3}=)?$/`. -/
def isBase64 : Utf16 → Bool
  | [] => true
  | [a, b, c, d] =>
    isBase64Digit a && isBase64Digit b &&
      (isBase64Digit c && (isBase64Digit d || d = unit '=') || c = unit '=' && d = unit '=')
  | a :: b :: c :: d :: value =>
    isBase64Digit a && isBase64Digit b && isBase64Digit c && isBase64Digit d && isBase64 value
  | _ => false

/-- The six bits of a character, none for padding. -/
def base64Value (c : CodeUnit) : ℕ := if c = unit '=' then 0 else base64Alphabet.idxOf c

/-- The bytes of the groups of four characters, with those of the padding. -/
def base64Groups : Utf16 → Bytes
  | a :: b :: c :: d :: value =>
    let bits := base64Value a * 0x40000 + base64Value b * 0x1000 + base64Value c * 0x40 +
      base64Value d
    Utf8.byte (bits / 0x10000) :: Utf8.byte (bits / 0x100 % 0x100) :: Utf8.byte (bits % 0x100) ::
      base64Groups value
  | _ => []

def base64Padding (value : Utf16) : ℕ :=
  if [unit '=', unit '='] <:+ value then 2 else if [unit '='] <:+ value then 1 else 0

def fromBase64 (value : Utf16) : Except JsError Bytes :=
  if ¬ (value.length % 4 = 0 ∧ isBase64 value) then .error ⟨"Error", "invalid base64"⟩
  else
    let output := (base64Groups value).take (value.length / 4 * 3 - base64Padding value)
    if base64 output ≠ value then .error ⟨"Error", "non-canonical base64"⟩ else .ok output

def base64urlAlphabet : Utf16 :=
  ofString "ABCDEFGHIJKLMNOPQRSTUVWXYZabcdefghijklmnopqrstuvwxyz0123456789-_"

def base64urlDigit (n : ℕ) : CodeUnit := base64urlAlphabet.getD n 0

def base64url : Bytes → Utf16
  | [] => []
  | [a] =>
    let bits := a.val * 0x10000
    [base64urlDigit (bits / 0x40000 % 64), base64urlDigit (bits / 0x1000 % 64)]
  | [a, b] =>
    let bits := a.val * 0x10000 + b.val * 0x100
    [base64urlDigit (bits / 0x40000 % 64), base64urlDigit (bits / 0x1000 % 64),
      base64urlDigit (bits / 0x40 % 64)]
  | a :: b :: c :: value =>
    let bits := a.val * 0x10000 + b.val * 0x100 + c.val
    base64urlDigit (bits / 0x40000 % 64) :: base64urlDigit (bits / 0x1000 % 64) ::
      base64urlDigit (bits / 0x40 % 64) :: base64urlDigit (bits % 64) :: base64url value

/-- The loop of `fromBase64url` from its registers `bits` and `count` on: the bytes that follow
and the registers at the end. -/
def base64urlBytes (bits count : ℕ) : Utf16 → Bytes × ℕ × ℕ
  | [] => ([], bits, count)
  | character :: value =>
    -- a register of 32 bits
    let bits := (bits * 0x40 + base64urlAlphabet.idxOf character) % 2 ^ 32
    let count := count + 6
    if 8 ≤ count then
      let (output, rest) := base64urlBytes bits (count - 8) value
      (Utf8.byte (bits / 2 ^ (count - 8)) :: output, rest)
    else base64urlBytes bits count value

def fromBase64url (value : Utf16) : Except JsError Bytes :=
  if value.any (· ∉ base64urlAlphabet) ∨ value.length % 4 = 1 then
    .error ⟨"Error", "invalid base64url"⟩
  else
    let (output, bits, count) := base64urlBytes 0 0 value
    if 0 < count ∧ bits % 2 ^ count ≠ 0 then .error ⟨"Error", "invalid base64url padding"⟩
    else .ok output

section RoundTrip

theorem base64Digit_facts : ∀ n < 64, isBase64Digit (base64Digit n) = true ∧
    base64Value (base64Digit n) = n ∧ base64Digit n ≠ unit '=' := by decide +kernel

theorem isBase64Digit_base64Digit {n : ℕ} (h : n < 64) : isBase64Digit (base64Digit n) = true :=
  (base64Digit_facts n h).1

theorem base64Value_base64Digit {n : ℕ} (h : n < 64) : base64Value (base64Digit n) = n :=
  (base64Digit_facts n h).2.1

theorem base64Value_padding : base64Value (unit '=') = 0 := if_pos rfl

theorem length_base64 (value : Bytes) : (base64 value).length = (value.length + 2) / 3 * 4 := by
  induction value using base64.induct with
  | case1 => rfl
  | case2 a => simp [base64]
  | case3 a b => simp [base64]
  | case4 a b c value ih =>
    simp only [base64, List.length_cons, ih]
    omega

theorem isBase64_base64 (value : Bytes) : isBase64 (base64 value) = true := by
  have hdigit : ∀ n, isBase64Digit (base64Digit (n % 64)) = true := fun n =>
    isBase64Digit_base64Digit (Nat.mod_lt n (by norm_num))
  induction value using base64.induct with
  | case1 => rfl
  | case2 a => simp [base64, isBase64, hdigit]
  | case3 a b => simp [base64, isBase64, hdigit]
  | case4 a b c value ih =>
    rw [base64]
    cases hrest : base64 value with
    | nil => simp [isBase64, hdigit]
    | cons d rest =>
      rw [hrest] at ih
      simp only [isBase64, hdigit, ih, Bool.and_self]

/-- The bytes of a text of base64, and what its padding adds. -/
theorem base64Groups_base64 (value : Bytes) :
    ∃ padding, base64Groups (base64 value) = value ++ padding := by
  have hvalue : ∀ n, base64Value (base64Digit (n % 64)) = n % 64 := fun n =>
    base64Value_base64Digit (Nat.mod_lt n (by norm_num))
  have hbyte : ∀ (b : Byte) n, n = b.val → Utf8.byte n = b := by
    rintro b n rfl
    exact Fin.ext (Nat.mod_eq_of_lt b.isLt)
  induction value using base64.induct with
  | case1 => exact ⟨[], rfl⟩
  | case2 a =>
    have ha := a.isLt
    refine ⟨[Utf8.byte 0, Utf8.byte 0], ?_⟩
    simp only [base64, base64Groups, hvalue, base64Value_padding, List.singleton_append]
    refine List.cons_eq_cons.mpr ⟨hbyte a _ (by omega), List.cons_eq_cons.mpr ⟨?_, ?_⟩⟩
    · congr 1
      omega
    · congr 2
      omega
  | case3 a b =>
    have ha := a.isLt
    have hb := b.isLt
    refine ⟨[Utf8.byte 0], ?_⟩
    simp only [base64, base64Groups, hvalue, base64Value_padding, List.cons_append, List.nil_append]
    refine List.cons_eq_cons.mpr ⟨hbyte a _ (by omega), List.cons_eq_cons.mpr
      ⟨hbyte b _ (by omega), ?_⟩⟩
    congr 2
    omega
  | case4 a b c value ih =>
    have ha := a.isLt
    have hb := b.isLt
    have hc := c.isLt
    obtain ⟨padding, hpadding⟩ := ih
    refine ⟨padding, ?_⟩
    simp only [base64, base64Groups, hvalue, hpadding, List.cons_append]
    exact List.cons_eq_cons.mpr ⟨hbyte a _ (by omega), List.cons_eq_cons.mpr
      ⟨hbyte b _ (by omega), List.cons_eq_cons.mpr ⟨hbyte c _ (by omega), rfl⟩⟩⟩

theorem base64Padding_base64 (value : Bytes) :
    (base64 value).length / 4 * 3 - base64Padding (base64 value) = value.length := by
  have hne : ∀ n, unit '=' ≠ base64Digit (n % 64) := fun n =>
    ((base64Digit_facts _ (Nat.mod_lt n (by norm_num))).2.2).symm
  have hpadding : base64Padding (base64 value) = (3 - value.length % 3) % 3 := by
    induction value using base64.induct with
    | case1 => rfl
    | case2 a => simp [base64, base64Padding, List.suffix_cons_iff, hne]
    | case3 a b => simp [base64, base64Padding, List.suffix_cons_iff, hne]
    | case4 a b c value ih =>
      have hlength := length_base64 value
      simp only [List.length_cons]
      rw [show (value.length + 1 + 1 + 1) % 3 = value.length % 3 by omega, ← ih]
      unfold base64Padding
      simp only [base64]
      cases value with
      | nil => simp [base64, List.suffix_cons_iff, hne]
      | cons d value =>
        rw [List.length_cons] at hlength
        have hlen : 4 ≤ (base64 (d :: value)).length := by omega
        have hsuffix : ∀ (l w : Utf16), l.length ≤ 4 →
            (l <:+ w ++ base64 (d :: value) ↔ l <:+ base64 (d :: value)) := fun l w hl =>
          ⟨fun h => List.suffix_of_suffix_length_le h (List.suffix_append w _) (hl.trans hlen),
            fun h => h.trans (List.suffix_append w _)⟩
        exact if_congr (hsuffix [unit '=', unit '='] [_, _, _, _] (by decide)) rfl
          (if_congr (hsuffix [unit '='] [_, _, _, _] (by decide)) rfl rfl)
  rw [hpadding, length_base64]
  omega

theorem fromBase64_base64 (value : Bytes) : fromBase64 (base64 value) = .ok value := by
  obtain ⟨padding, hgroups⟩ := base64Groups_base64 value
  unfold fromBase64
  rw [if_neg]
  · rw [base64Padding_base64, hgroups, List.take_left]
    simp
  · rw [not_not]
    refine ⟨?_, isBase64_base64 value⟩
    rw [length_base64]
    omega

end RoundTrip

end Flashclaw.Reef
