import Flashclaw.Lib.Utf8

/-!
# Lossy UTF-8

The decoder of `Buffer.toString("utf8")` and `readFile(path, "utf8")`: the
longest start of a sequence that does not go on is one replacement character.
-/

namespace Utf8

open Utf16

/-- A sequence that waits for more bytes, the next of them in a range. -/
structure Pending where
  point : ℕ
  needed : ℕ
  lower : ℕ
  upper : ℕ

/-- The points that the first byte of a sequence gives, and what it waits for. -/
def feedFirst (b : Byte) : List ℕ × Option Pending :=
  if b.val < 0x80 then ([b.val], none)
  else if 0xC2 ≤ b.val ∧ b.val < 0xE0 then ([], some ⟨b.val - 0xC0, 1, 0x80, 0xBF⟩)
  else if 0xE0 ≤ b.val ∧ b.val < 0xF0 then
    ([], some ⟨b.val - 0xE0, 2, if b.val = 0xE0 then 0xA0 else 0x80,
      if b.val = 0xED then 0x9F else 0xBF⟩)
  else if 0xF0 ≤ b.val ∧ b.val < 0xF5 then
    ([], some ⟨b.val - 0xF0, 3, if b.val = 0xF0 then 0x90 else 0x80,
      if b.val = 0xF4 then 0x8F else 0xBF⟩)
  else ([0xFFFD], none)

/-- One step of the decoder. -/
def feed : Option Pending → Byte → List ℕ × Option Pending
  | none, b => feedFirst b
  | some p, b =>
    if p.lower ≤ b.val ∧ b.val ≤ p.upper then
      let point := p.point * 0x40 + (b.val - 0x80)
      if p.needed ≤ 1 then ([point], none) else ([], some ⟨point, p.needed - 1, 0x80, 0xBF⟩)
    else (0xFFFD :: (feedFirst b).1, (feedFirst b).2)

/-- The points of the bytes that follow a state of the decoder. -/
def lossyPoints : Option Pending → Bytes → List ℕ
  | none, [] => []
  | some _, [] => [0xFFFD]
  | state, b :: rest => (feed state b).1 ++ lossyPoints (feed state b).2 rest

/-- A decoder without `fatal` that keeps the byte order mark. -/
def decodeLossy (bytes : Bytes) : Utf16 := (lossyPoints none bytes).flatMap units

section Feeding

/-- The points and the state after some bytes. -/
def feedAll : Option Pending → Bytes → List ℕ × Option Pending
  | state, [] => ([], state)
  | state, b :: rest =>
    ((feed state b).1 ++ (feedAll (feed state b).2 rest).1, (feedAll (feed state b).2 rest).2)

theorem lossyPoints_append (state : Option Pending) (bytes rest : Bytes) :
    lossyPoints state (bytes ++ rest) =
      (feedAll state bytes).1 ++ lossyPoints (feedAll state bytes).2 rest := by
  induction bytes generalizing state with
  | nil => rfl
  | cons b bytes ih =>
    rw [List.cons_append, lossyPoints.eq_def]
    simp only [feedAll]
    rw [ih, List.append_assoc]

theorem feed_last {point lower upper n : ℕ} (hn : n < 0x40) (hlow : lower ≤ 0x80 + n)
    (hhigh : 0x80 + n ≤ upper) :
    feed (some ⟨point, 1, lower, upper⟩) (byte (0x80 + n)) = ([point * 0x40 + n], none) := by
  unfold feed
  simp only [val_byte (by omega : 0x80 + n < 0x100), if_pos (And.intro hlow hhigh),
    Nat.add_sub_cancel_left, le_refl, if_true]

theorem feed_more (point needed : ℕ) {lower upper n : ℕ} (hn : n < 0x40) (hlow : lower ≤ 0x80 + n)
    (hhigh : 0x80 + n ≤ upper) :
    feed (some ⟨point, needed + 2, lower, upper⟩) (byte (0x80 + n)) =
      ([], some ⟨point * 0x40 + n, needed + 1, 0x80, 0xBF⟩) := by
  unfold feed
  simp only [val_byte (by omega : 0x80 + n < 0x100), if_pos (And.intro hlow hhigh),
    Nat.add_sub_cancel_left]
  rw [if_neg (by omega)]
  rfl

/-- The bytes of a scalar value give it at the last of them, and nothing before. -/
theorem feedAll_encodePoint {n : ℕ} (h : IsScalar n) :
    feedAll none (encodePoint n) = ([n], none) ∧
      ∀ k, 0 < k → k < (encodePoint n).length →
        ∃ p, feedAll none ((encodePoint n).take k) = ([], some p) := by
  obtain ⟨hmax, hsurrogate⟩ := h
  unfold encodePoint
  split_ifs with h1 h2 h3
  · constructor
    · simp [feedAll, feed, feedFirst, val_byte (by omega : n < 0x100), h1]
    · intro k hk hlength
      simp only [List.length_singleton] at hlength
      omega
  · -- two bytes
    have hfirst : feed none (byte (0xC0 + n / 0x40)) = ([], some ⟨n / 0x40, 1, 0x80, 0xBF⟩) := by
      show feedFirst _ = _
      unfold feedFirst
      rw [val_byte (by omega), if_neg (by omega), if_pos (by omega), Nat.add_sub_cancel_left]
    constructor
    · simp only [feedAll, hfirst]
      rw [feed_last (by omega) (by omega) (by omega)]
      simp only [List.nil_append, List.append_nil, Prod.mk.injEq, List.cons.injEq, and_true]
      omega
    · intro k hk hlength
      simp only [List.length_cons, List.length_nil] at hlength
      obtain rfl : k = 1 := by omega
      simp only [List.take, feedAll, hfirst, List.append_nil]
      exact ⟨_, rfl⟩
  · -- three bytes: the bounds of the second one exclude long forms and surrogates
    have hfirst : ∃ lower upper, feed none (byte (0xE0 + n / 0x1000)) =
        ([], some ⟨n / 0x1000, 2, lower, upper⟩) ∧ lower ≤ 0x80 + n / 0x40 % 0x40 ∧
          0x80 + n / 0x40 % 0x40 ≤ upper := by
      refine ⟨if 0xE0 + n / 0x1000 = 0xE0 then 0xA0 else 0x80,
        if 0xE0 + n / 0x1000 = 0xED then 0x9F else 0xBF, ?_, ?_, ?_⟩
      · show feedFirst _ = _
        unfold feedFirst
        rw [val_byte (by omega), if_neg (by omega), if_neg (by omega), if_pos (by omega),
          Nat.add_sub_cancel_left]
      · split_ifs <;> omega
      · split_ifs <;> omega
    obtain ⟨lower, upper, hfirst, hlow, hhigh⟩ := hfirst
    have hsecond := feed_more (n / 0x1000) 0 (by omega) hlow hhigh
    constructor
    · simp only [feedAll, hfirst, hsecond]
      rw [feed_last (by omega) (by omega) (by omega)]
      simp only [List.nil_append, List.append_nil, Prod.mk.injEq, List.cons.injEq, and_true]
      omega
    · intro k hk hlength
      simp only [List.length_cons, List.length_nil] at hlength
      obtain rfl | rfl : k = 1 ∨ k = 2 := by omega
      · simp only [List.take, feedAll, hfirst, List.append_nil]
        exact ⟨_, rfl⟩
      · simp only [List.take, feedAll, hfirst, hsecond, List.append_nil]
        exact ⟨_, rfl⟩
  · -- four bytes: here they exclude long forms and what is past the last character
    have hfirst : ∃ lower upper, feed none (byte (0xF0 + n / 0x40000)) =
        ([], some ⟨n / 0x40000, 3, lower, upper⟩) ∧ lower ≤ 0x80 + n / 0x1000 % 0x40 ∧
          0x80 + n / 0x1000 % 0x40 ≤ upper := by
      refine ⟨if 0xF0 + n / 0x40000 = 0xF0 then 0x90 else 0x80,
        if 0xF0 + n / 0x40000 = 0xF4 then 0x8F else 0xBF, ?_, ?_, ?_⟩
      · show feedFirst _ = _
        unfold feedFirst
        rw [val_byte (by omega), if_neg (by omega), if_neg (by omega), if_neg (by omega),
          if_pos (by omega), Nat.add_sub_cancel_left]
      · split_ifs <;> omega
      · split_ifs <;> omega
    obtain ⟨lower, upper, hfirst, hlow, hhigh⟩ := hfirst
    have hsecond := feed_more (n / 0x40000) 1 (by omega) hlow hhigh
    have hthird := feed_more (n / 0x40000 * 0x40 + n / 0x1000 % 0x40) 0
      (show n / 0x40 % 0x40 < 0x40 by omega) (show 0x80 ≤ 0x80 + n / 0x40 % 0x40 by omega)
      (show 0x80 + n / 0x40 % 0x40 ≤ 0xBF by omega)
    constructor
    · simp only [feedAll, hfirst, hsecond, hthird]
      rw [feed_last (by omega) (by omega) (by omega)]
      simp only [List.nil_append, List.append_nil, Prod.mk.injEq, List.cons.injEq, and_true]
      omega
    · intro k hk hlength
      simp only [List.length_cons, List.length_nil] at hlength
      obtain rfl | rfl | rfl : k = 1 ∨ k = 2 ∨ k = 3 := by omega
      · simp only [List.take, feedAll, hfirst, List.append_nil]
        exact ⟨_, rfl⟩
      · simp only [List.take, feedAll, hfirst, hsecond, List.append_nil]
        exact ⟨_, rfl⟩
      · simp only [List.take, feedAll, hfirst, hsecond, hthird, List.append_nil]
        exact ⟨_, rfl⟩

theorem feedAll_flatMap {l : List ℕ} (h : ∀ n ∈ l, IsScalar n) :
    feedAll none (l.flatMap encodePoint) = (l, none) := by
  induction l with
  | nil => rfl
  | cons n l ih =>
    have hn := (feedAll_encodePoint (h n List.mem_cons_self)).1
    have happend : ∀ (state : Option Pending) (bytes rest : Bytes), feedAll state (bytes ++ rest) =
        ((feedAll state bytes).1 ++ (feedAll (feedAll state bytes).2 rest).1,
          (feedAll (feedAll state bytes).2 rest).2) := by
      intro state bytes rest
      induction bytes generalizing state with
      | nil => rfl
      | cons b bytes ih =>
        rw [List.cons_append, feedAll, ih]
        simp only [feedAll, List.append_assoc]
    rw [List.flatMap_cons, happend, hn, ih fun m hm => h m (List.mem_cons_of_mem n hm)]
    rfl

end Feeding

section Prefixes

/-- A start of the bytes of points ends after one of them or within one. -/
theorem prefix_flatMap {l : List ℕ} {bytes : Bytes} (h : bytes <+: l.flatMap encodePoint) :
    ∃ before after, l = before ++ after ∧ (bytes = before.flatMap encodePoint ∨
      ∃ n rest k, after = n :: rest ∧ 0 < k ∧ k < (encodePoint n).length ∧
        bytes = before.flatMap encodePoint ++ (encodePoint n).take k) := by
  induction l generalizing bytes with
  | nil =>
    obtain rfl := List.prefix_nil.mp h
    exact ⟨[], [], rfl, .inl rfl⟩
  | cons n l ih =>
    rw [List.flatMap_cons] at h
    by_cases hlength : bytes.length < (encodePoint n).length
    · have hbytes : bytes = (encodePoint n).take bytes.length := by
        have htake := List.prefix_iff_eq_take.mp h
        rw [List.take_append_of_le_length hlength.le] at htake
        exact htake
      rcases Nat.eq_zero_or_pos bytes.length with hzero | hpos
      · exact ⟨[], n :: l, rfl, .inl (List.length_eq_zero_iff.mp hzero)⟩
      · exact ⟨[], n :: l, rfl, .inr ⟨n, l, bytes.length, rfl, hpos, hlength, hbytes⟩⟩
    · obtain ⟨rest, rfl⟩ := List.prefix_of_prefix_length_le (List.prefix_append _ _) h
        (not_lt.mp hlength)
      obtain ⟨before, after, rfl, hcases⟩ := ih ((List.prefix_append_right_inj _).mp h)
      refine ⟨n :: before, after, rfl, ?_⟩
      rcases hcases with rfl | ⟨m, rest', k, rfl, hpos, hk, rfl⟩
      · exact .inl rfl
      · exact .inr ⟨m, rest', k, rfl, hpos, hk, by rw [List.flatMap_cons, List.append_assoc]⟩

/-- What follows a well-formed text is decoded by itself. -/
theorem decodeLossy_encode_append {s : Utf16} (h : isWellFormed s = true) (bytes : Bytes) :
    decodeLossy (encode s ++ bytes) = s ++ decodeLossy bytes := by
  unfold decodeLossy encode
  rw [lossyPoints_append, feedAll_flatMap (isScalar_scalars s), List.flatMap_append]
  congr 1
  exact (toWellFormed_eq_self_iff s).mpr h

theorem decodeLossy_encode {s : Utf16} (h : isWellFormed s = true) : decodeLossy (encode s) = s := by
  have happend := decodeLossy_encode_append h []
  rw [List.append_nil] at happend
  rw [happend]
  exact List.append_nil s

theorem units_ne_nil (n : ℕ) : units n ≠ [] := by
  unfold units
  split_ifs <;> simp

/-- Every point has code units. -/
theorem eq_nil_of_flatMap_units {l : List ℕ} (h : l.flatMap units = []) : l = [] := by
  apply List.eq_nil_iff_forall_not_mem.mpr
  intro n hn
  exact units_ne_nil n (List.flatMap_eq_nil_iff.mp h n hn)

/-- A start of the bytes of a text decodes to a start of the text, with a replacement character
in the place of a character that is not whole. -/
theorem decodeLossy_start {s : Utf16} (h : isWellFormed s = true) {bytes : Bytes}
    (hbytes : bytes <+: encode s) :
    ∃ t, t <+: s ∧
      (decodeLossy bytes = t ∧ (t = s → bytes = encode s) ∧ (t = [] → bytes = []) ∨
        t ≠ s ∧ decodeLossy bytes = t ++ [0xFFFD]) := by
  obtain ⟨before, after, hsplit, hcases⟩ := prefix_flatMap hbytes
  have hscalars := isScalar_scalars s
  have hbefore : ∀ n ∈ before, IsScalar n := by
    intro n hn
    exact hscalars n (hsplit ▸ List.mem_append_left after hn)
  have hself : before.flatMap units ++ after.flatMap units = s := by
    rw [← List.flatMap_append, ← hsplit]
    exact (toWellFormed_eq_self_iff s).mpr h
  have hwhole : before.flatMap units = s → after = [] := by
    intro hfull
    rw [hfull] at hself
    exact eq_nil_of_flatMap_units (List.append_right_eq_self.mp hself)
  refine ⟨before.flatMap units, ⟨_, hself⟩, ?_⟩
  rcases hcases with rfl | ⟨n, rest, k, rfl, hpos, hk, rfl⟩
  · left
    constructor
    · unfold decodeLossy
      have hpoints := lossyPoints_append none (before.flatMap encodePoint) []
      rw [List.append_nil, feedAll_flatMap hbefore] at hpoints
      rw [hpoints]
      exact congrArg (List.flatMap units) (List.append_nil before)
    · constructor
      · intro hfull
        unfold encode
        rw [hsplit, hwhole hfull, List.append_nil]
      · intro hnil
        rw [eq_nil_of_flatMap_units hnil]
        rfl
  · right
    obtain ⟨p, hp⟩ := (feedAll_encodePoint (hscalars n (by simp [hsplit]))).2 k hpos hk
    constructor
    · intro hfull
      cases hwhole hfull
    · unfold decodeLossy
      rw [lossyPoints_append, feedAll_flatMap hbefore]
      simp only
      rw [← List.append_nil ((encodePoint n).take k), lossyPoints_append, hp, List.flatMap_append]
      rfl

end Prefixes

end Utf8
