import Flashclaw.Lib.Utf16
import Mathlib.Data.List.Basic
import Mathlib.Tactic.IntervalCases

/-!
# UTF-8

`TextEncoder`, which writes lone surrogates as the replacement character, and a
fatal `TextDecoder`, which drops a byte order mark.
-/

abbrev Byte := Fin 0x100

abbrev Bytes := List Byte

theorem byte_ne_zero : 0x100 ≠ 0 := by decide

instance byteNeZero : NeZero 0x100 := ⟨byte_ne_zero⟩

namespace Utf8

open Utf16

def byte (n : ℕ) : Byte := Fin.ofNat 0x100 n

def encodePoint (n : ℕ) : Bytes :=
  if n < 0x80 then [byte n]
  else if n < 0x800 then [byte (0xC0 + n / 0x40), byte (0x80 + n % 0x40)]
  else if n < 0x10000 then
    [byte (0xE0 + n / 0x1000), byte (0x80 + n / 0x40 % 0x40), byte (0x80 + n % 0x40)]
  else
    [byte (0xF0 + n / 0x40000), byte (0x80 + n / 0x1000 % 0x40), byte (0x80 + n / 0x40 % 0x40),
      byte (0x80 + n % 0x40)]

/-- The code point of a unit that is not in a pair. -/
def loneScalar (c : CodeUnit) : ℕ := if isSurrogate c then 0xFFFD else c.val

def pairPoint (c d : CodeUnit) : ℕ := 0x10000 + (c.val - 0xD800) * 0x400 + (d.val - 0xDC00)

/-- The scalar values of a string. -/
def scalars : Utf16 → List ℕ
  | [] => []
  | [c] => [loneScalar c]
  | c :: d :: rest =>
    if isHighSurrogate c ∧ isLowSurrogate d then pairPoint c d :: scalars rest
    else loneScalar c :: scalars (d :: rest)

/-- `TextEncoder.encode`. -/
def encode (s : Utf16) : Bytes := (scalars s).flatMap encodePoint

def isTail (b : Byte) : Bool := 0x80 ≤ b.val && b.val < 0xC0

/-- The scalar values of well-formed UTF-8. -/
def decodePoints : Bytes → Option (List ℕ)
  | [] => some []
  | a :: rest =>
    if a.val < 0x80 then (decodePoints rest).map (a.val :: ·)
    else
      match rest with
      | [] => none
      | b :: rest =>
        if 0xC2 ≤ a.val ∧ a.val < 0xE0 then
          if isTail b then
            (decodePoints rest).map (((a.val - 0xC0) * 0x40 + (b.val - 0x80)) :: ·)
          else none
        else
          match rest with
          | [] => none
          | c :: rest =>
            if 0xE0 ≤ a.val ∧ a.val < 0xF0 then
              if isTail b ∧ isTail c ∧ (a.val = 0xE0 → 0xA0 ≤ b.val) ∧
                  (a.val = 0xED → b.val < 0xA0) then
                (decodePoints rest).map
                  (((a.val - 0xE0) * 0x1000 + (b.val - 0x80) * 0x40 + (c.val - 0x80)) :: ·)
              else none
            else
              match rest with
              | [] => none
              | d :: rest =>
                if 0xF0 ≤ a.val ∧ a.val < 0xF5 ∧ isTail b ∧ isTail c ∧ isTail d ∧
                    (a.val = 0xF0 → 0x90 ≤ b.val) ∧ (a.val = 0xF4 → b.val < 0x90) then
                  (decodePoints rest).map
                    (((a.val - 0xF0) * 0x40000 + (b.val - 0x80) * 0x1000 + (c.val - 0x80) * 0x40 +
                      (d.val - 0x80)) :: ·)
                else none

/-- The code units of a scalar value. -/
def units (n : ℕ) : Utf16 :=
  if n < 0x10000 then [Fin.ofNat 0x10000 n]
  else [Fin.ofNat 0x10000 (0xD800 + (n - 0x10000) / 0x400),
    Fin.ofNat 0x10000 (0xDC00 + (n - 0x10000) % 0x400)]

/-- Decoding without a look at the byte order mark. -/
def decodeAll (bytes : Bytes) : Option Utf16 := (decodePoints bytes).map (·.flatMap units)

def dropByteOrderMark : Bytes → Bytes
  | a :: b :: c :: rest =>
    if a.val = 0xEF ∧ b.val = 0xBB ∧ c.val = 0xBF then rest else a :: b :: c :: rest
  | bytes => bytes

/-- `TextDecoder.decode` of a decoder for UTF-8 with `fatal`. -/
def decode (bytes : Bytes) : Option Utf16 := decodeAll (dropByteOrderMark bytes)

/-- `String.prototype.toWellFormed`. -/
def toWellFormed (s : Utf16) : Utf16 := (scalars s).flatMap units

section Points

/-- The scalar values of Unicode. -/
def IsScalar (n : ℕ) : Prop := n < 0x110000 ∧ ¬ (0xD800 ≤ n ∧ n < 0xE000)

theorem val_byte {n : ℕ} (h : n < 0x100) : (byte n).val = n := Nat.mod_eq_of_lt h

theorem isTail_byte {n : ℕ} (h : n < 0x40) : isTail (byte (0x80 + n)) = true := by
  unfold isTail
  rw [val_byte (by omega)]
  simp only [Bool.and_eq_true, decide_eq_true_eq]
  omega

theorem decodePoints_encodePoint {n : ℕ} (h : IsScalar n) (rest : Bytes) :
    decodePoints (encodePoint n ++ rest) = (decodePoints rest).map (n :: ·) := by
  obtain ⟨hmax, hsurrogate⟩ := h
  have htail : isTail (byte (0x80 + n % 0x40)) = true := isTail_byte (by omega)
  have htail' : isTail (byte (0x80 + n / 0x40 % 0x40)) = true := isTail_byte (by omega)
  have htail'' : isTail (byte (0x80 + n / 0x1000 % 0x40)) = true := isTail_byte (by omega)
  unfold encodePoint
  split_ifs with h1 h2 h3
  · rw [List.singleton_append, decodePoints.eq_def]
    simp only [val_byte (by omega : n < 0x100), if_pos h1]
  · rw [List.cons_append, List.singleton_append, decodePoints.eq_def]
    simp only [val_byte (by omega : 0xC0 + n / 0x40 < 0x100),
      val_byte (by omega : 0x80 + n % 0x40 < 0x100), htail, if_true]
    rw [if_neg (by omega), if_pos (by omega)]
    refine congrArg (fun f => Option.map f (decodePoints rest)) (funext fun l => ?_)
    refine congrArg (fun m => m :: l) ?_
    omega
  · rw [List.cons_append, List.cons_append, List.singleton_append, decodePoints.eq_def]
    simp only [val_byte (by omega : 0xE0 + n / 0x1000 < 0x100),
      val_byte (by omega : 0x80 + n / 0x40 % 0x40 < 0x100),
      val_byte (by omega : 0x80 + n % 0x40 < 0x100), htail, htail', true_and]
    rw [if_neg (by omega), if_neg (by omega), if_pos (by omega), if_pos (by omega)]
    refine congrArg (fun f => Option.map f (decodePoints rest)) (funext fun l => ?_)
    refine congrArg (fun m => m :: l) ?_
    omega
  · rw [List.cons_append, List.cons_append, List.cons_append, List.singleton_append, decodePoints.eq_def]
    simp only [val_byte (by omega : 0xF0 + n / 0x40000 < 0x100),
      val_byte (by omega : 0x80 + n / 0x1000 % 0x40 < 0x100),
      val_byte (by omega : 0x80 + n / 0x40 % 0x40 < 0x100),
      val_byte (by omega : 0x80 + n % 0x40 < 0x100), htail, htail', htail'', true_and]
    rw [if_neg (by omega), if_neg (by omega), if_neg (by omega), if_pos (by omega)]
    refine congrArg (fun f => Option.map f (decodePoints rest)) (funext fun l => ?_)
    refine congrArg (fun m => m :: l) ?_
    omega

theorem decodePoints_flatMap {l : List ℕ} (h : ∀ n ∈ l, IsScalar n) :
    decodePoints (l.flatMap encodePoint) = some l := by
  induction l with
  | nil => rfl
  | cons n l ih =>
    rw [List.flatMap_cons, decodePoints_encodePoint (h n List.mem_cons_self),
      ih fun m hm => h m (List.mem_cons_of_mem n hm)]
    rfl

theorem isScalar_loneScalar (c : CodeUnit) : IsScalar (loneScalar c) := by
  have := c.isLt
  unfold loneScalar isSurrogate IsScalar
  split_ifs with h
  · norm_num
  · simp only [Bool.and_eq_true, decide_eq_true_eq] at h
    omega

theorem pairPoint_bounds {c d : CodeUnit} (hc : isHighSurrogate c = true)
    (hd : isLowSurrogate d = true) : 0x10000 ≤ pairPoint c d ∧ pairPoint c d < 0x110000 := by
  unfold pairPoint
  simp only [isHighSurrogate, isLowSurrogate, Bool.and_eq_true, decide_eq_true_eq] at hc hd
  omega

theorem scalars_cons {c : CodeUnit} {rest : Utf16} (h : ∀ d rest', rest = d :: rest' →
    ¬ (isHighSurrogate c = true ∧ isLowSurrogate d = true)) :
    scalars (c :: rest) = loneScalar c :: scalars rest := by
  cases rest with
  | nil => rfl
  | cons d rest => rw [scalars, if_neg (h d rest rfl)]

theorem isScalar_scalars (s : Utf16) : ∀ n ∈ scalars s, IsScalar n := by
  induction s using pointInduction with
  | nil => simp [scalars]
  | pair c d s hc hd ih =>
    obtain ⟨hlow, hhigh⟩ := pairPoint_bounds hc hd
    rw [scalars, if_pos ⟨hc, hd⟩]
    intro n hn
    rcases List.mem_cons.mp hn with hn | hn
    · rw [hn]
      exact ⟨hhigh, by omega⟩
    · exact ih n hn
  | unit c s h ih =>
    rw [scalars_cons h]
    intro n hn
    rcases List.mem_cons.mp hn with rfl | hn
    · exact isScalar_loneScalar c
    · exact ih n hn

theorem decodeAll_encode (s : Utf16) : decodeAll (encode s) = some (toWellFormed s) := by
  unfold decodeAll encode
  rw [decodePoints_flatMap (isScalar_scalars s)]
  rfl

end Points

section WellFormed

theorem units_pairPoint {c d : CodeUnit} (hc : isHighSurrogate c = true)
    (hd : isLowSurrogate d = true) : units (pairPoint c d) = [c, d] := by
  obtain ⟨hlow, -⟩ := pairPoint_bounds hc hd
  unfold units
  rw [if_neg (by omega)]
  simp only [isHighSurrogate, isLowSurrogate, Bool.and_eq_true, decide_eq_true_eq] at hc hd
  unfold pairPoint
  refine List.cons_eq_cons.mpr ⟨Fin.ext ?_, congrArg (fun e => [e]) (Fin.ext ?_)⟩
  · show (_ % 0x10000 : ℕ) = _
    omega
  · show (_ % 0x10000 : ℕ) = _
    omega

theorem units_loneScalar (c : CodeUnit) :
    units (loneScalar c) = [if isSurrogate c then 0xFFFD else c] := by
  have := c.isLt
  unfold loneScalar units
  split_ifs with h1 h2
  · rfl
  · exact absurd (by norm_num) h2
  · exact congrArg (fun e => [e]) (Fin.ext (Nat.mod_eq_of_lt this))

theorem toWellFormed_pair {c d : CodeUnit} (hc : isHighSurrogate c = true)
    (hd : isLowSurrogate d = true) (s : Utf16) :
    toWellFormed (c :: d :: s) = c :: d :: toWellFormed s := by
  unfold toWellFormed
  rw [scalars, if_pos ⟨hc, hd⟩, List.flatMap_cons, units_pairPoint hc hd]
  rfl

theorem toWellFormed_cons {c : CodeUnit} {rest : Utf16} (h : ∀ d rest', rest = d :: rest' →
    ¬ (isHighSurrogate c = true ∧ isLowSurrogate d = true)) :
    toWellFormed (c :: rest) = (if isSurrogate c then 0xFFFD else c) :: toWellFormed rest := by
  unfold toWellFormed
  rw [scalars_cons h, List.flatMap_cons, units_loneScalar]
  rfl

theorem length_toWellFormed (s : Utf16) : (toWellFormed s).length = s.length := by
  induction s using pointInduction with
  | nil => rfl
  | pair c d s hc hd ih => rw [toWellFormed_pair hc hd, List.length_cons, List.length_cons, ih]; rfl
  | unit c s h ih => rw [toWellFormed_cons h, List.length_cons, List.length_cons, ih]

theorem toWellFormed_eq_self_iff (s : Utf16) : toWellFormed s = s ↔ isWellFormed s = true := by
  induction s using pointInduction with
  | nil => simp [isWellFormed, toWellFormed, scalars]
  | pair c d s hc hd ih =>
    rw [toWellFormed_pair hc hd, isWellFormed, if_pos (by simp [hc, hd]), ← ih]
    simp
  | unit c s h ih =>
    rw [toWellFormed_cons h, isWellFormed_cons h, List.cons.injEq, Bool.and_eq_true, ← ih]
    apply and_congr_left'
    cases hc : isSurrogate c with
    | false => simp
    | true =>
      simp only [if_true, Bool.not_true, Bool.false_eq_true, iff_false]
      rintro rfl
      revert hc
      decide

end WellFormed

section ByteOrderMark

/-- A string that starts with the character of the byte order mark. -/
def StartsWithMark (s : Utf16) : Prop := s.head? = some 0xFEFF

instance (s : Utf16) : Decidable (StartsWithMark s) := inferInstanceAs (Decidable (_ = _))

theorem dropByteOrderMark_cases (bytes : Bytes) :
    (∃ rest, bytes = encodePoint 0xFEFF ++ rest ∧ dropByteOrderMark bytes = rest) ∨
      dropByteOrderMark bytes = bytes := by
  unfold dropByteOrderMark
  split
  · rename_i a b c rest
    split_ifs with h
    · refine .inl ⟨rest, ?_, rfl⟩
      obtain ⟨ha, hb, hc⟩ := h
      show _ = byte 0xEF :: byte 0xBB :: byte 0xBF :: rest
      rw [show a = byte 0xEF from Fin.ext ha, show b = byte 0xBB from Fin.ext hb,
        show c = byte 0xBF from Fin.ext hc]
    · exact .inr rfl
  · exact .inr rfl

theorem head_scalars {s : Utf16} {l : List ℕ} (h : scalars s = 0xFEFF :: l) : StartsWithMark s := by
  induction s using pointInduction with
  | nil => cases h
  | pair c d s hc hd ih =>
    rw [scalars, if_pos ⟨hc, hd⟩] at h
    have := (pairPoint_bounds hc hd).1
    have := (List.cons.inj h).1
    omega
  | unit c s hpair ih =>
    rw [scalars_cons hpair] at h
    have hc := (List.cons.inj h).1
    unfold loneScalar at hc
    split_ifs at hc
    · cases hc
    · exact congrArg some (Fin.ext hc)

theorem scalars_mark (s : Utf16) : scalars (0xFEFF :: s) = 0xFEFF :: scalars s := by
  rw [scalars_cons fun d rest _ => by simp [isHighSurrogate]]
  rfl

/-- What a decoder makes of the UTF-8 of a string. -/
theorem decode_encode (s : Utf16) :
    decode (encode s) = some (if StartsWithMark s then toWellFormed s.tail else toWellFormed s) := by
  unfold decode
  split_ifs with h
  · obtain ⟨rest, rfl⟩ : ∃ rest, s = 0xFEFF :: rest := by
      cases s with
      | nil => cases h
      | cons c rest => exact ⟨rest, by rw [Option.some.inj h]⟩
    rw [← decodeAll_encode]
    congr 1
    unfold encode
    rw [scalars_mark]
    rfl
  · rcases dropByteOrderMark_cases (encode s) with ⟨rest, hrest, -⟩ | hnone
    · refine absurd ?_ h
      have hpoints := decodePoints_flatMap (isScalar_scalars s)
      change decodePoints (encode s) = _ at hpoints
      rw [hrest, decodePoints_encodePoint ⟨by norm_num, by norm_num⟩] at hpoints
      obtain ⟨l, -, hl⟩ := Option.map_eq_some_iff.mp hpoints
      exact head_scalars hl.symm
    · rw [hnone, decodeAll_encode]

/-- A string survives UTF-8 if it is well formed and starts with no byte order mark. -/
theorem decode_encode_eq_self_iff (s : Utf16) :
    decode (encode s) = some s ↔ isWellFormed s = true ∧ ¬ StartsWithMark s := by
  rw [decode_encode, Option.some.injEq]
  split_ifs with h
  · simp only [h, not_true, and_false, iff_false]
    intro heq
    have hlength := congrArg List.length heq
    rw [length_toWellFormed, List.length_tail] at hlength
    cases s with
    | nil => cases h
    | cons c rest =>
      rw [List.length_cons] at hlength
      omega
  · simp only [h, not_false_iff, and_true]
    exact toWellFormed_eq_self_iff s

theorem scalars_append {s t : Utf16} (h : IsCut s t) : scalars (s ++ t) = scalars s ++ scalars t := by
  induction s using pointInduction with
  | nil => rfl
  | pair c d s hc hd ih =>
    have htail : IsCut s t := by
      cases s with
      | nil => simp [IsCut]
      | cons a s => exact isCut_cons.mp (isCut_cons.mp h)
    rw [List.cons_append, List.cons_append, scalars, if_pos ⟨hc, hd⟩, ih htail, scalars,
      if_pos ⟨hc, hd⟩]
    rfl
  | unit c s hpair ih =>
    cases s with
    | nil =>
      have hcut : ∀ d rest', t = d :: rest' →
          ¬ (isHighSurrogate c = true ∧ isLowSurrogate d = true) := by
        rintro d rest' rfl
        exact h c d rfl rfl
      exact scalars_cons hcut
    | cons a s =>
      have hcut : ∀ d rest', a :: s ++ t = d :: rest' →
          ¬ (isHighSurrogate c = true ∧ isLowSurrogate d = true) := by
        rintro d rest' heq
        obtain ⟨rfl, -⟩ := List.cons.inj heq
        exact hpair a s rfl
      rw [List.cons_append, scalars_cons hcut, ih (isCut_cons.mp h), scalars_cons hpair]
      rfl

theorem encode_append_of_isCut {s t : Utf16} (h : IsCut s t) :
    encode (s ++ t) = encode s ++ encode t := by
  unfold encode
  rw [scalars_append h, List.flatMap_append]

theorem encode_append {s : Utf16} (h : isWellFormed s = true) (t : Utf16) :
    encode (s ++ t) = encode s ++ encode t :=
  encode_append_of_isCut (isCut_of_isWellFormed h t)

theorem encode_cons_ascii {c : CodeUnit} (hc : c.val < 0x80) (t : Utf16) :
    encode (c :: t) = byte c.val :: encode t := by
  have hhigh : isHighSurrogate c = false := by
    unfold isHighSurrogate
    simp
    omega
  have hself : scalars (c :: t) = c.val :: scalars t := by
    rw [scalars_cons fun d rest' _ => by simp [hhigh], loneScalar, if_neg]
    unfold isSurrogate
    simp
    omega
  have hpoint : encodePoint c.val = [byte c.val] := by
    unfold encodePoint
    rw [if_pos hc]
  unfold encode
  rw [hself, List.flatMap_cons, hpoint]
  rfl

/-- A character of ASCII never pairs up with what stands around it. -/
theorem encode_append_cons {c : CodeUnit} (hc : c.val < 0x80) (s t : Utf16) :
    encode (s ++ c :: t) = encode s ++ byte c.val :: encode t := by
  have hcut : IsCut s (c :: t) := by
    rintro a d - hd ⟨-, hlow⟩
    obtain rfl := Option.some.inj hd
    simp only [isLowSurrogate, Bool.and_eq_true, decide_eq_true_eq] at hlow
    omega
  rw [encode_append_of_isCut hcut, encode_cons_ascii hc]

/-- A byte of ASCII stands for its own character. -/
theorem mem_of_mem_encode {b : Byte} (hb : b.val < 0x80) {s : Utf16} (h : b ∈ encode s) :
    Fin.ofNat 0x10000 b.val ∈ s := by
  have hpoint : ∀ n, IsScalar n → b ∈ encodePoint n → n = b.val := by
    intro n hn hmem
    obtain ⟨hmax, -⟩ := hn
    unfold encodePoint at hmem
    split_ifs at hmem
    · rw [List.mem_singleton.mp hmem, val_byte (by omega)]
    all_goals
      simp only [List.mem_cons, List.not_mem_nil, or_false] at hmem
      rcases hmem with rfl | rfl | rfl | rfl <;> (rw [val_byte (by omega)] at hb; omega)
  obtain ⟨n, hn, hmem⟩ := List.mem_flatMap.mp h
  obtain rfl := hpoint n (isScalar_scalars s n hn) hmem
  induction s using pointInduction with
  | nil => cases hn
  | pair c d s hc hd ih =>
    rw [scalars, if_pos ⟨hc, hd⟩] at hn
    rcases List.mem_cons.mp hn with hn | hn
    · have := (pairPoint_bounds hc hd).1
      omega
    · have hs := ih (List.mem_flatMap.mpr ⟨_, hn, hmem⟩) hn
      exact List.mem_cons_of_mem c (List.mem_cons_of_mem d hs)
  | unit c s hpair ih =>
    rw [scalars_cons hpair] at hn
    rcases List.mem_cons.mp hn with hn | hn
    · unfold loneScalar at hn
      split_ifs at hn
      · omega
      · rw [List.mem_cons]
        exact .inl (Fin.ext (by simp [hn]))
    · exact List.mem_cons_of_mem c (ih (List.mem_flatMap.mpr ⟨_, hn, hmem⟩) hn)

theorem encode_injective {s t : Utf16} (hs : isWellFormed s = true) (ht : isWellFormed t = true)
    (h : encode s = encode t) : s = t := by
  have hdecode := congrArg decodeAll h
  rw [decodeAll_encode, decodeAll_encode, Option.some.injEq] at hdecode
  rw [← (toWellFormed_eq_self_iff s).mpr hs, hdecode, (toWellFormed_eq_self_iff t).mpr ht]

end ByteOrderMark

/-- A text of ASCII has one byte for each code unit. -/
theorem length_encode_of_ascii {s : Utf16} (h : ∀ c ∈ s, c.val < 0x80) :
    (encode s).length = s.length := by
  induction s with
  | nil => rfl
  | cons c rest ih =>
    rw [encode_cons_ascii (h c List.mem_cons_self), List.length_cons, List.length_cons,
      ih fun d hd => h d (List.mem_cons_of_mem c hd)]

section Sizes

/-- The bytes of a unit that is not in a pair. -/
def unitSize (c : CodeUnit) : ℕ := if c.val < 0x80 then 1 else if c.val < 0x800 then 2 else 3

theorem length_encode_pair {c d : CodeUnit} (hc : isHighSurrogate c = true)
    (hd : isLowSurrogate d = true) (s : Utf16) :
    (encode (c :: d :: s)).length = 4 + (encode s).length := by
  have hpoint := (pairPoint_bounds hc hd).1
  unfold encode
  rw [scalars, if_pos ⟨hc, hd⟩, List.flatMap_cons, List.length_append]
  unfold encodePoint
  rw [if_neg (by omega), if_neg (by omega), if_neg (by omega)]
  rfl

theorem length_encode_cons {c : CodeUnit} {s : Utf16} (h : ∀ d rest', s = d :: rest' →
    ¬ (isHighSurrogate c = true ∧ isLowSurrogate d = true)) :
    (encode (c :: s)).length = unitSize c + (encode s).length := by
  have hpoint : (encodePoint (loneScalar c)).length = unitSize c := by
    have := c.isLt
    unfold loneScalar unitSize
    split_ifs with hs h1 h2
    all_goals
      simp only [isSurrogate, Bool.and_eq_true, decide_eq_true_eq] at hs
      unfold encodePoint
      first
      | omega
      | (split_ifs <;> first | rfl | omega)
  unfold encode
  rw [scalars_cons h, List.flatMap_cons, List.length_append, hpoint]

theorem encode_toWellFormed (s : Utf16) : encode (toWellFormed s) = encode s := by
  have hscalars : scalars (toWellFormed s) = scalars s := by
    induction s using pointInduction with
    | nil => rfl
    | pair c d s hc hd ih =>
      rw [toWellFormed_pair hc hd, scalars, if_pos ⟨hc, hd⟩, ih, scalars, if_pos ⟨hc, hd⟩]
    | unit c s h ih =>
      have hlone : isHighSurrogate (if isSurrogate c then 0xFFFD else c) = false := by
        split_ifs with hc
        · decide
        · rw [isSurrogate_iff, not_or, Bool.not_eq_true] at hc
          exact hc.1
      have hsame : loneScalar (if isSurrogate c then 0xFFFD else c) = loneScalar c := by
        unfold loneScalar
        split_ifs <;> rfl
      rw [toWellFormed_cons h, scalars_cons fun d rest _ => by simp [hlone], ih, hsame,
        scalars_cons h]
  unfold encode
  rw [hscalars]

/-- A text has at least the bytes of each of its ends. -/
theorem length_encode_le_cons (c : CodeUnit) (s : Utf16) :
    (encode s).length ≤ (encode (c :: s)).length := by
  by_cases h : ∃ d rest, s = d :: rest ∧ isHighSurrogate c = true ∧ isLowSurrogate d = true
  · obtain ⟨d, rest, rfl, hc, hd⟩ := h
    have hnot : isHighSurrogate d = false := by
      simp only [isHighSurrogate, isLowSurrogate, Bool.and_eq_true, Bool.and_eq_false_iff,
        decide_eq_true_eq, decide_eq_false_iff_not] at hd ⊢
      omega
    rw [length_encode_pair hc hd, length_encode_cons fun e rest' _ => by simp [hnot]]
    unfold unitSize
    split_ifs <;> omega
  · rw [length_encode_cons fun d rest hs hpair => h ⟨d, rest, hs, hpair⟩]
    omega

theorem length_encode_le_append (s t : Utf16) :
    (encode t).length ≤ (encode (s ++ t)).length := by
  induction s with
  | nil => exact le_rfl
  | cons c s ih => exact ih.trans (length_encode_le_cons c (s ++ t))

theorem mem_toWellFormed {s : Utf16} {c : CodeUnit} (h : c ∈ toWellFormed s) :
    c ∈ s ∨ c = 0xFFFD := by
  induction s using pointInduction with
  | nil => cases h
  | pair a b s ha hb ih =>
    rw [toWellFormed_pair ha hb, List.mem_cons, List.mem_cons] at h
    rcases h with rfl | rfl | h
    · simp
    · simp
    · exact (ih h).imp_left fun hs => by simp [hs]
  | unit a s hpair ih =>
    rw [toWellFormed_cons hpair, List.mem_cons] at h
    rcases h with rfl | h
    · split_ifs
      · exact .inr rfl
      · exact .inl List.mem_cons_self
    · exact (ih h).imp_left fun hs => by simp [hs]

end Sizes

end Utf8
