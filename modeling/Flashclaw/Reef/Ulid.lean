import Flashclaw.Lib.FixedWidth
import Flashclaw.Lib.JsNumber
import Flashclaw.Reef.Identity

/-!
# Reef: monotonic ULIDs

`createMonotonicUlidFactory` of `protocol/ulid.ts`, and when the ids that a factory
returns go up.
-/

namespace Flashclaw.Reef

open Utf16

def CROCKFORD : Utf16 := ofString "0123456789ABCDEFGHJKMNPQRSTVWXYZ"

def crockford (d : ℕ) : CodeUnit := CROCKFORD.getD d 0

/-- Five bits at a time, in front of what there is. -/
def encodeBits : ℕ → ℕ → Utf16 → Utf16
  | 0, _, output => output
  | n + 1, value, output => encodeBits n (value / 32) (crockford (value % 32) :: output)

def encodeTime (time : ℕ) : Utf16 := encodeBits 10 time []

def bytesValue (bytes : Bytes) : ℕ := bytes.foldl (fun value byte => value * 256 + byte.val) 0

def encodeRandom (bytes : Bytes) : Utf16 := encodeBits 16 (bytesValue bytes) []

/-- Adds one to bytes, the last of them first; whether it runs over is returned as well. -/
def incrementFrom : Bytes → Bytes × Bool
  | [] => ([], true)
  | b :: rest =>
    if b + 1 ≠ 0 then ((b + 1) :: rest, false)
    else ((b + 1) :: (incrementFrom rest).1, (incrementFrom rest).2)

theorem length_incrementFrom (bytes : Bytes) : (incrementFrom bytes).1.length = bytes.length := by
  induction bytes with
  | nil => rfl
  | cons b rest ih =>
    unfold incrementFrom
    split
    · rfl
    · rw [List.length_cons, ih, List.length_cons]

/-- `increment`; an overflow leaves zeros. -/
def increment (value : Bytes) : Bytes × Bool :=
  ((incrementFrom value.reverse).1.reverse, (incrementFrom value.reverse).2)

structure UlidFactory where
  lastTime : ℤ
  lastTime_lt : lastTime < 2 ^ 48
  randomness : Bytes
  length_randomness : randomness.length = 10

/-- What the clock and the random source give to one call. -/
structure UlidCall where
  clock : JsNumber
  rng : Bytes

namespace UlidFactory

def start : UlidFactory := ⟨-1, by decide, List.replicate 10 0, rfl⟩

def id (s : UlidFactory) : Utf16 := encodeTime s.lastTime.toNat ++ encodeRandom s.randomness

theorem floor_toNat_lt {q : ℚ} (h : ¬ 0xffffffffffff < q) : q.floor.toNat < 2 ^ 48 := by
  have hle : q.floor ≤ 0xffffffffffff := by
    have hfloor : (q.floor : ℚ) ≤ q := Int.floor_le q
    have hq : q ≤ 0xffffffffffff := not_lt.mp h
    exact_mod_cast hfloor.trans hq
  omega

/-- `Math.floor(clock())`, where it is a safe integer of 48 bits. -/
def time (clock : JsNumber) : Option {now : ℕ // now < 2 ^ 48} :=
  match clock.floor with
  | .finite q =>
    if h : |q| < 2 ^ 53 ∧ ¬ q < 0 ∧ ¬ 0xffffffffffff < q then
      some ⟨q.floor.toNat, floor_toNat_lt h.2.2⟩
    else none
  | _ => none

def fresh (now : {now : ℕ // now < 2 ^ 48}) (rng : Bytes) (h : rng.length = 10) : UlidFactory :=
  ⟨now.val, by exact_mod_cast now.property, rng, h⟩

def incremented (s : UlidFactory) : UlidFactory :=
  { s with
    randomness := (increment s.randomness).1
    length_randomness := by
      rw [increment, List.length_reverse, length_incrementFrom, List.length_reverse,
        s.length_randomness] }

/-- One call. -/
def next (s : UlidFactory) (c : UlidCall) : UlidFactory × Except JsError Utf16 :=
  match time c.clock with
  | none => (s, .error ⟨"Error", "invalid ULID clock"⟩)
  | some now =>
    if s.lastTime < now.val then
      if h : c.rng.length = 10 then (fresh now c.rng h, .ok (fresh now c.rng h).id)
      else (s, .error ⟨"Error", "invalid ULID rng"⟩)
    else if (increment s.randomness).2 then
      (s.incremented, .error ⟨"Error", "ULID monotonic overflow"⟩)
    else (s.incremented, .ok s.incremented.id)

/-- The ids that calls return, those that throw left out. -/
def returned (s : UlidFactory) : List UlidCall → List Utf16
  | [] => []
  | c :: calls =>
    match (s.next c).2 with
    | .ok id => id :: returned (s.next c).1 calls
    | .error _ => returned (s.next c).1 calls

/-- Behind an overflow the next call with a valid clock has a later one. -/
def RestsAfterOverflow (s : UlidFactory) (overflown : Bool) : List UlidCall → Prop
  | [] => True
  | c :: calls =>
    match time c.clock with
    | none => RestsAfterOverflow s overflown calls
    | some now =>
      if s.lastTime < now.val then RestsAfterOverflow (s.next c).1 false calls
      else overflown = false ∧
        RestsAfterOverflow (s.next c).1 (s.randomness.all (· = 0xFF)) calls

end UlidFactory

theorem encodeBits_eq (n value : ℕ) (output : Utf16) :
    encodeBits n value output = (FixedWidth.digits 32 n value).map crockford ++ output := by
  induction n generalizing value output with
  | zero => rfl
  | succ n ih =>
    rw [encodeBits, ih, FixedWidth.digits, List.map_append, List.append_assoc]
    rfl

theorem bytesValue_concat (bytes : Bytes) (b : Byte) :
    bytesValue (bytes ++ [b]) = bytesValue bytes * 256 + b.val := by
  unfold bytesValue
  rw [List.foldl_append]
  rfl

theorem bytesValue_lt (bytes : Bytes) : bytesValue bytes < 256 ^ bytes.length := by
  induction bytes using List.reverseRecOn with
  | nil => exact Nat.one_pos
  | append_singleton bytes b ih =>
    have hb : b.val < 256 := b.isLt
    rw [bytesValue_concat, List.length_append, List.length_singleton, pow_succ]
    omega

/-- The bytes are the next number, or they were all at their end and are zeros. -/
theorem incrementFrom_cases (bytes : Bytes) :
    ((incrementFrom bytes).2 = false ∧ bytes.all (· = 0xFF) = false ∧
        bytesValue (incrementFrom bytes).1.reverse = bytesValue bytes.reverse + 1) ∨
      ((incrementFrom bytes).2 = true ∧ bytes.all (· = 0xFF) = true ∧
        bytesValue (incrementFrom bytes).1.reverse = 0 ∧
        bytesValue bytes.reverse + 1 = 256 ^ bytes.length) := by
  induction bytes with
  | nil => exact .inr ⟨rfl, rfl, rfl, rfl⟩
  | cons b rest ih =>
    rw [List.reverse_cons, bytesValue_concat, List.all_cons]
    unfold incrementFrom
    by_cases hb : b + 1 = 0
    · obtain rfl : b = 0xFF := by
        have hval := congrArg Fin.val hb
        rw [Fin.val_add] at hval
        apply Fin.ext
        have := b.isLt
        simp only [Fin.val_one, Fin.val_zero] at hval
        show b.val = 0xFF
        omega
      rw [if_neg (not_not.mpr hb), List.reverse_cons, bytesValue_concat]
      rcases ih with ⟨hover, hall, hvalue⟩ | ⟨hover, hall, hvalue, hfull⟩
      · refine .inl ⟨hover, by rw [hall]; rfl, ?_⟩
        rw [hvalue]
        show (_ + 1) * 256 + 0 = _ * 256 + 0xFF + 1
        ring
      · refine .inr ⟨hover, by rw [hall]; rfl, by rw [hvalue]; rfl, ?_⟩
        rw [List.length_cons, pow_succ, ← hfull]
        show _ * 256 + 0xFF + 1 = _
        ring
    · have hlt : b.val + 1 < 256 := by
        by_contra hge
        apply hb
        have := b.isLt
        apply Fin.ext
        rw [Fin.val_add]
        simp only [Fin.val_one, Fin.val_zero]
        omega
      have hval : (b + 1).val = b.val + 1 := by
        rw [Fin.val_add]
        exact Nat.mod_eq_of_lt hlt
      have hne : (b = 0xFF) = False := by
        rw [eq_iff_iff, iff_false]
        rintro rfl
        exact absurd hlt (by decide)
      rw [if_pos hb, List.reverse_cons, bytesValue_concat, hval]
      exact .inl ⟨rfl, by simp [hne], by ring⟩

namespace UlidFactory

/-- The number that an id writes. -/
def number (s : UlidFactory) : ℕ := s.lastTime.toNat * 2 ^ 80 + bytesValue s.randomness

def idOf (n : ℕ) : Utf16 := (FixedWidth.digits 32 26 n).map crockford

theorem bytesValue_randomness (s : UlidFactory) : bytesValue s.randomness < 2 ^ 80 := by
  have h := bytesValue_lt s.randomness
  rw [s.length_randomness] at h
  exact h

theorem number_lt (s : UlidFactory) : s.number < 2 ^ 128 := by
  have h1 := s.bytesValue_randomness
  have h2 := s.lastTime_lt
  unfold number
  omega

theorem id_eq (s : UlidFactory) : s.id = idOf s.number := by
  have h : FixedWidth.digits 32 (10 + 16)
      (s.lastTime.toNat * 32 ^ 16 + bytesValue s.randomness) = _ :=
    FixedWidth.digits_add 10 16 s.lastTime.toNat (bytesValue s.randomness) s.bytesValue_randomness
  unfold id idOf number encodeTime encodeRandom
  rw [encodeBits_eq, encodeBits_eq, List.append_nil, List.append_nil, ← List.map_append, ← h]
  norm_num

theorem crockford_lt (a b : ℕ) (_ : a < 32) (hb : b < 32) (h : a < b) :
    crockford a < crockford b := by
  have hall : ∀ b < 32, ∀ a < b, crockford a < crockford b := by decide
  exact hall b hb a h

theorem idOf_lt {n m : ℕ} (h : n < m) (hm : m < 2 ^ 128) : idOf n < idOf m := by
  apply FixedWidth.map_lt_map crockford_lt
  · exact fun d hd => FixedWidth.lt_of_mem_digits (by norm_num) hd
  · exact fun d hd => FixedWidth.lt_of_mem_digits (by norm_num) hd
  · apply FixedWidth.digits_lt h
    omega

theorem isUlid_idOf {n : ℕ} (h : n < 2 ^ 128) : isUlid (idOf n) = true := by
  have hfirst : ∀ d < 8, inRange '0' '7' (crockford d) = true := by decide
  have hall : ∀ d < 32, isCrockford (crockford d) = true := by decide
  have hsplit : FixedWidth.digits 32 (1 + 25) (n / 32 ^ 25 * 32 ^ 25 + n % 32 ^ 25) = _ :=
    FixedWidth.digits_add 1 25 (n / 32 ^ 25) (n % 32 ^ 25) (Nat.mod_lt _ (by norm_num))
  rw [Nat.div_add_mod'] at hsplit
  have htop : n / 32 ^ 25 < 8 := by
    rw [Nat.div_lt_iff_lt_mul (by norm_num)]
    omega
  unfold isUlid idOf
  rw [Bool.and_eq_true, Bool.and_eq_true]
  refine ⟨⟨by simp, ?_⟩, ?_⟩
  · show List.all (List.take 1 (List.map crockford (FixedWidth.digits 32 (1 + 25) n))) _ = true
    rw [hsplit]
    show List.all [crockford (n / 32 ^ 25 % 32)] _ = true
    rw [Nat.mod_eq_of_lt (by omega), List.all_cons, hfirst _ htop]
    rfl
  · rw [List.all_eq_true]
    intro c hc
    obtain ⟨d, hd, rfl⟩ := List.mem_map.mp hc
    exact hall d (FixedWidth.lt_of_mem_digits (by norm_num) hd)

theorem number_fresh_gt {s : UlidFactory} {now : {now : ℕ // now < 2 ^ 48}} {rng : Bytes}
    (hrng : rng.length = 10) (h : s.lastTime < now.val) (hlast : 0 ≤ s.lastTime) :
    s.lastTime.toNat * 2 ^ 80 + 2 ^ 80 ≤ (fresh now rng hrng).number := by
  have hle : s.lastTime.toNat + 1 ≤ now.val := by omega
  show _ ≤ ((now.val : ℤ)).toNat * 2 ^ 80 + _
  rw [Int.toNat_natCast]
  calc s.lastTime.toNat * 2 ^ 80 + 2 ^ 80 = (s.lastTime.toNat + 1) * 2 ^ 80 := by ring
    _ ≤ now.val * 2 ^ 80 := Nat.mul_le_mul_right _ hle
    _ ≤ now.val * 2 ^ 80 + bytesValue rng := Nat.le_add_right _ _

theorem randomness_incremented (s : UlidFactory) : s.incremented.randomness =
    (incrementFrom s.randomness.reverse).1.reverse := rfl

/-- Calls that fall back to the time before either take the next number or find none. -/
theorem incremented_cases (s : UlidFactory) :
    ((increment s.randomness).2 = false ∧ s.randomness.all (· = 0xFF) = false ∧
        s.incremented.number = s.number + 1) ∨
      ((increment s.randomness).2 = true ∧ s.randomness.all (· = 0xFF) = true ∧
        bytesValue s.incremented.randomness = 0 ∧
        s.number + 1 = s.lastTime.toNat * 2 ^ 80 + 2 ^ 80) := by
  have hall : s.randomness.reverse.all (· = 0xFF) = s.randomness.all (· = 0xFF) :=
    List.all_reverse
  rcases incrementFrom_cases s.randomness.reverse with ⟨hover, hfull, hvalue⟩ |
    ⟨hover, hfull, hvalue, hend⟩
  · rw [List.reverse_reverse] at hvalue
    rw [hall] at hfull
    refine .inl ⟨hover, hfull, ?_⟩
    unfold number
    rw [randomness_incremented, hvalue, ← Nat.add_assoc]
    rfl
  · rw [List.reverse_reverse, List.length_reverse, s.length_randomness] at hend
    rw [hall] at hfull
    refine .inr ⟨hover, hfull, hvalue, ?_⟩
    unfold number
    rw [Nat.add_assoc, hend]
    norm_num

/-- The number that the last id had: an overflow has left zeros where all bits were set. -/
def lastNumber (s : UlidFactory) (overflown : Bool) : ℕ :=
  if overflown then s.lastTime.toNat * 2 ^ 80 + (2 ^ 80 - 1) else s.number

theorem lastNumber_false (s : UlidFactory) : s.lastNumber false = s.number := if_neg (by decide)

/-- What the state of a factory has behind an overflow. -/
def Spent (s : UlidFactory) (overflown : Bool) : Prop :=
  overflown = true → 0 ≤ s.lastTime ∧ bytesValue s.randomness = 0

/-- Ids that go up from the last one that was returned, if there was one. -/
def GoUp (s : UlidFactory) (overflown : Bool) (ids : List Utf16) : Prop :=
  (0 ≤ s.lastTime → ∀ id ∈ ids, idOf (s.lastNumber overflown) < id) ∧ ids.Pairwise (· < ·)

theorem goUp_cons {s s' : UlidFactory} {overflown : Bool} {ids : List Utf16}
    (hlast : 0 ≤ s'.lastTime)
    (h : 0 ≤ s.lastTime → idOf (s.lastNumber overflown) < idOf s'.number) :
    GoUp s overflown (idOf s'.number :: ids) ↔ GoUp s' false ids := by
  unfold GoUp
  rw [List.pairwise_cons, lastNumber_false]
  constructor
  · rintro ⟨-, hfirst, hpairwise⟩
    exact ⟨fun _ => hfirst, hpairwise⟩
  · rintro ⟨hall, hpairwise⟩
    refine ⟨?_, hall hlast, hpairwise⟩
    intro hs id hid
    obtain heq | hid := List.mem_cons.mp hid
    · rw [heq]
      exact h hs
    · exact lt_trans (h hs) (hall hlast id hid)

theorem lastNumber_lt (s : UlidFactory) (overflown : Bool) :
    s.lastNumber overflown < s.lastTime.toNat * 2 ^ 80 + 2 ^ 80 := by
  have h := s.bytesValue_randomness
  unfold lastNumber number
  split <;> omega

theorem goUp_iff (calls : List UlidCall) (h : ∀ c ∈ calls, c.rng.length = 10) (s : UlidFactory)
    (overflown : Bool) (hspent : s.Spent overflown) :
    s.GoUp overflown (s.returned calls) ↔ s.RestsAfterOverflow overflown calls := by
  induction calls generalizing s overflown with
  | nil => exact ⟨fun _ => trivial, fun _ => ⟨fun _ => List.forall_mem_nil _, .nil⟩⟩
  | cons c calls ih =>
    have ih := ih fun d hd => h d (List.mem_cons_of_mem c hd)
    have hrng := h c List.mem_cons_self
    unfold returned RestsAfterOverflow
    cases htime : time c.clock with
    | none =>
      have hnext : s.next c = (s, .error ⟨"Error", "invalid ULID clock"⟩) := by
        unfold next
        rw [htime]
      rw [hnext]
      exact ih s overflown hspent
    | some now =>
      dsimp only
      by_cases hlt : s.lastTime < now.val
      · have hnext : s.next c = (fresh now c.rng hrng, .ok (fresh now c.rng hrng).id) := by
          unfold next
          rw [htime]
          dsimp only
          rw [if_pos hlt, dif_pos hrng]
        rw [if_pos hlt, hnext]
        dsimp only
        have hfresh : 0 ≤ (fresh now c.rng hrng).lastTime := Int.natCast_nonneg _
        rw [id_eq, goUp_cons hfresh, ih _ false (by rintro ⟨⟩)]
        -- a later time is in front of all numbers of the one before
        intro hlast
        apply idOf_lt _ (number_lt _)
        exact (s.lastNumber_lt overflown).trans_le (number_fresh_gt hrng hlt hlast)
      · have hlast : 0 ≤ s.lastTime := by omega
        rw [if_neg hlt]
        rcases s.incremented_cases with ⟨hover, hfull, hnumber⟩ | ⟨hover, hfull, hzero, hnumber⟩
        · have hnext : s.next c = (s.incremented, .ok s.incremented.id) := by
            unfold next
            rw [htime]
            dsimp only
            rw [if_neg hlt, hover, if_neg Bool.false_ne_true]
          rw [hnext, hfull]
          dsimp only
          rw [id_eq]
          cases overflown with
          | false =>
            have hup : 0 ≤ s.lastTime →
                idOf (s.lastNumber false) < idOf s.incremented.number := by
              intro _
              apply idOf_lt _ (number_lt _)
              rw [lastNumber_false]
              omega
            have hcons : ∀ ids, GoUp s false (idOf s.incremented.number :: ids) ↔
                GoUp s.incremented false ids := fun _ => goUp_cons hlast hup
            rw [hcons, ih _ false (by rintro ⟨⟩)]
            exact (and_iff_right rfl).symm
          | true =>
            -- the counter has started again: its number is below the one at the overflow
            obtain ⟨-, hzero⟩ := hspent rfl
            constructor
            · rintro ⟨hall, -⟩
              exfalso
              have hup := hall hlast _ List.mem_cons_self
              have hdown : idOf s.incremented.number < idOf (s.lastNumber true) := by
                apply idOf_lt
                · rw [hnumber]
                  unfold number lastNumber
                  rw [hzero, if_pos rfl]
                  omega
                · have := s.lastTime_lt
                  unfold lastNumber
                  rw [if_pos rfl]
                  omega
              exact lt_asymm hup hdown
            · rintro ⟨hfalse, -⟩
              cases hfalse
        · have hnext : s.next c = (s.incremented, .error ⟨"Error", "ULID monotonic overflow"⟩) := by
            unfold next
            rw [htime]
            dsimp only
            rw [if_neg hlt, hover, if_pos rfl]
          rw [hnext, hfull]
          dsimp only
          cases overflown with
          | false =>
            have hsame : s.incremented.lastNumber true = s.lastNumber false := by
              rw [lastNumber_false]
              show (if true = true then s.lastTime.toNat * 2 ^ 80 + (2 ^ 80 - 1) else _) = s.number
              rw [if_pos rfl]
              omega
            have hgoUp : s.GoUp false (s.incremented.returned calls) ↔
                s.incremented.GoUp true (s.incremented.returned calls) := by
              unfold GoUp
              rw [hsame]
              rfl
            rw [hgoUp, ih s.incremented true fun _ => ⟨hlast, hzero⟩]
            exact (and_iff_right rfl).symm
          | true =>
            obtain ⟨-, hzero'⟩ := hspent rfl
            unfold number at hnumber
            omega

theorem isUlid_returned (calls : List UlidCall) (s : UlidFactory) :
    ∀ id ∈ s.returned calls, isUlid id = true := by
  induction calls generalizing s with
  | nil =>
    intro id hid
    cases hid
  | cons c calls ih =>
    intro id hid
    unfold returned at hid
    split at hid
    · rename_i new hnew
      rcases List.mem_cons.mp hid with rfl | hid
      · obtain ⟨s', rfl⟩ : ∃ s' : UlidFactory, id = s'.id := by
          unfold next at hnew
          split at hnew
          · cases hnew
          · split at hnew
            · split at hnew
              · exact ⟨_, (Except.ok.inj hnew).symm⟩
              · cases hnew
            · split at hnew
              · cases hnew
              · exact ⟨_, (Except.ok.inj hnew).symm⟩
        rw [id_eq]
        exact isUlid_idOf s'.number_lt
      · exact ih _ id hid
    · exact ih _ id hid

/-- The ids of a factory go up as long as none is returned at the time of an overflow. -/
theorem returned_increase_iff (calls : List UlidCall) (h : ∀ c ∈ calls, c.rng.length = 10) :
    (∀ id ∈ start.returned calls, isUlid id = true) ∧ (start.returned calls).Pairwise (· < ·) ↔
      start.RestsAfterOverflow false calls := by
  rw [← goUp_iff calls h start false (by rintro ⟨⟩), and_iff_right (isUlid_returned calls start)]
  unfold GoUp
  constructor
  · intro hpairwise
    exact ⟨fun hlast => absurd hlast (by decide), hpairwise⟩
  · rintro ⟨-, hpairwise⟩
    exact hpairwise

def fullCall : UlidCall := ⟨.ofNat 1000, List.replicate 10 0xFF⟩

/-- A call a millisecond later. -/
def laterCall : UlidCall := ⟨.ofNat 1001, List.replicate 10 0⟩

/-- An id, an overflow, and two more ids at a later time. -/
theorem returned_increase_laterCall :
    (start.returned [fullCall, fullCall, laterCall, laterCall]).length = 3 ∧
    (∀ id ∈ start.returned [fullCall, fullCall, laterCall, laterCall], isUlid id = true) ∧
      (start.returned [fullCall, fullCall, laterCall, laterCall]).Pairwise (· < ·) := by
  refine ⟨by decide +kernel, ?_⟩
  apply (returned_increase_iff [fullCall, fullCall, laterCall, laterCall] (by decide)).mpr
  exact ⟨rfl, rfl, trivial⟩

/-- The call behind an overflow returns an id that is smaller than the first one. -/
theorem returned_decrease :
    start.returned [fullCall, fullCall, fullCall] =
      [ofString "00000000Z8ZZZZZZZZZZZZZZZZ", ofString "00000000Z80000000000000001"] ∧
    ¬ (start.returned [fullCall, fullCall, fullCall]).Pairwise (· < ·) := by
  have hids : start.returned [fullCall, fullCall, fullCall] =
      [ofString "00000000Z8ZZZZZZZZZZZZZZZZ", ofString "00000000Z80000000000000001"] := by
    decide +kernel
  refine ⟨hids, ?_⟩
  rw [hids]
  decide +kernel

end UlidFactory

end Flashclaw.Reef
