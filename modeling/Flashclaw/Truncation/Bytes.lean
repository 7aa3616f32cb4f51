import Flashclaw.Truncation.Truncate

/-!
# Truncation of tool output: bytes

The bytes of a text with and without a `Buffer`, the replacement of surrogates
that are not paired, and the longest end of a text that fits into some bytes.
-/

namespace Flashclaw.Truncation

open Utf16

section ByteLength

theorem gt_of_isHighSurrogate {c : CodeUnit} (h : isHighSurrogate c = true) : 0x7ff < c.val := by
  simp only [isHighSurrogate, Bool.and_eq_true, decide_eq_true_eq] at h
  omega

theorem byteLengthFrom_pair {c d : CodeUnit} (hc : isHighSurrogate c = true)
    (hd : isLowSurrogate d = true) (s : Utf16) (n : ℕ) :
    byteLengthFrom (c :: d :: s) n = byteLengthFrom s (n + 4) := by
  have hlarge := gt_of_isHighSurrogate hc
  rw [byteLengthFrom, if_neg (by omega), if_neg (by omega), if_pos hc, if_pos hd]

theorem byteLengthFrom_cons {c : CodeUnit} {s : Utf16} (h : ∀ d rest', s = d :: rest' →
    ¬ (isHighSurrogate c = true ∧ isLowSurrogate d = true)) (n : ℕ) :
    byteLengthFrom (c :: s) n = byteLengthFrom s (n + Utf8.unitSize c) := by
  unfold Utf8.unitSize
  cases s with
  | nil =>
    rw [byteLengthFrom, byteLengthFrom]
    split_ifs <;> omega
  | cons d s =>
    have hpair := h d s rfl
    rw [byteLengthFrom]
    split_ifs <;> first | rfl | omega | tauto

theorem byteLengthFrom_eq (s : Utf16) (n : ℕ) :
    byteLengthFrom s n = n + (Utf8.encode s).length := by
  induction s using pointInduction generalizing n with
  | nil => rfl
  | pair c d s hc hd ih =>
    rw [byteLengthFrom_pair hc hd, ih, Utf8.length_encode_pair hc hd]
    omega
  | unit c s h ih =>
    rw [byteLengthFrom_cons h, ih, Utf8.length_encode_cons h]
    omega

/-- Both ways to count give the bytes of the encoding. -/
@[simp]
theorem utf8ByteLength_eq (runtimeBuffer : Bool) (content : Utf16) :
    utf8ByteLength runtimeBuffer content = (Utf8.encode content).length := by
  unfold utf8ByteLength
  cases runtimeBuffer with
  | true => rfl
  | false =>
    cases hfirst : findFirstNonAscii content with
    | none =>
      have hascii : ∀ c ∈ content, c.val < 0x80 := by
        intro c hc
        have := List.findIdx?_eq_none_iff.mp hfirst c hc
        rw [decide_eq_false_iff_not] at this
        omega
      exact (Utf8.length_encode_of_ascii hascii).symm
    | some i =>
      obtain ⟨hi, -, hbefore⟩ := List.findIdx?_eq_some_iff_getElem.mp hfirst
      have hascii : ∀ c ∈ content.take i, c.val < 0x80 := by
        intro c hc
        obtain ⟨j, hj, rfl⟩ := List.mem_take_iff_getElem.mp hc
        have := hbefore j (by omega)
        rw [decide_eq_true_eq] at this
        omega
      have hwell : isWellFormed (content.take i) = true := by
        apply isWellFormed_of_forall
        intro c hc
        have := hascii c hc
        unfold isSurrogate
        simp
        omega
      show byteLengthFrom (content.drop i) i = _
      rw [byteLengthFrom_eq]
      calc i + (Utf8.encode (content.drop i)).length
          = (Utf8.encode (content.take i)).length + (Utf8.encode (content.drop i)).length := by
            rw [Utf8.length_encode_of_ascii hascii, List.length_take, min_eq_left hi.le]
        _ = (Utf8.encode content).length := by
            rw [← List.length_append, ← Utf8.encode_append hwell, List.take_append_drop]

end ByteLength

theorem replaceUnpairedSurrogates_eq (s : Utf16) :
    replaceUnpairedSurrogates s = Utf8.toWellFormed s := by
  induction s using pointInduction with
  | nil => rfl
  | pair c d s hc hd ih =>
    rw [replaceUnpairedSurrogates, if_pos hc, if_pos hd, ih, Utf8.toWellFormed_pair hc hd]
  | unit c s h ih =>
    rw [Utf8.toWellFormed_cons h]
    cases s with
    | nil =>
      rw [replaceUnpairedSurrogates]
      split_ifs <;> rfl
    | cons d s =>
      rw [replaceUnpairedSurrogates, ih]
      have hpair := h d s rfl
      have hsurrogate := isSurrogate_iff (c := c)
      split_ifs <;> first | rfl | (exfalso; tauto)

section CutFromEnd

theorem characterBytes_eq (c : CodeUnit) : characterBytes c = Utf8.unitSize c := by
  unfold characterBytes Utf8.unitSize isSurrogate
  split_ifs <;> simp_all <;> omega

/-- What a cut of a text before a kept end does: it splits no pair, the end fits, and no longer
end does. -/
structure IsEnd (maxBytes : ℕ) (p s : Utf16) (cut : ℕ × Bool) : Prop where
  start_le : cut.1 ≤ p.length
  isCut : IsCut (p.take cut.1) (p.drop cut.1 ++ s)
  fits : (Utf8.encode (p.drop cut.1 ++ s)).length ≤ maxBytes
  needsReplacement : cut.2 = !isWellFormed (p.drop cut.1 ++ s)
  exceeds : ∀ i < cut.1, IsCut (p.take i) (p.drop i ++ s) →
    maxBytes < (Utf8.encode (p.drop i ++ s)).length

theorem IsEnd.of_append {maxBytes : ℕ} {p q s : Utf16} {cut : ℕ × Bool}
    (h : IsEnd maxBytes p (q ++ s) cut) : IsEnd maxBytes (p ++ q) s cut := by
  have hdrop : ∀ i ≤ p.length, (p ++ q).drop i ++ s = p.drop i ++ (q ++ s) := by
    intro i hi
    rw [List.drop_append_of_le_length hi, List.append_assoc]
  have htake : ∀ i ≤ p.length, (p ++ q).take i = p.take i := fun i hi =>
    List.take_append_of_le_length hi
  have hstart := h.start_le
  refine ⟨?_, ?_, ?_, ?_, ?_⟩
  · rw [List.length_append]
    omega
  · rw [hdrop _ hstart, htake _ hstart]
    exact h.isCut
  · rw [hdrop _ hstart]
    exact h.fits
  · rw [hdrop _ hstart]
    exact h.needsReplacement
  · intro i hi
    rw [hdrop i (by omega), htake i (by omega)]
    exact h.exceeds i hi

/-- The end stays as it is where the next code point does not fit. -/
theorem IsEnd.stop {maxBytes : ℕ} {p q s : Utf16} (hcut : IsCut (p ++ q) s)
    (hfits : (Utf8.encode s).length ≤ maxBytes)
    (hlarge : maxBytes < (Utf8.encode (q ++ s)).length)
    (hinner : ∀ i, p.length < i → i < (p ++ q).length →
      ¬ IsCut ((p ++ q).take i) ((p ++ q).drop i ++ s)) :
    IsEnd maxBytes (p ++ q) s ((p ++ q).length, !isWellFormed s) := by
  have hdrop : (p ++ q).drop (p ++ q).length ++ s = s := by
    rw [List.drop_length, List.nil_append]
  refine ⟨le_rfl, ?_, ?_, ?_, ?_⟩
  · rw [hdrop, List.take_length]
    exact hcut
  · rw [hdrop]
    exact hfits
  · rw [hdrop]
  · intro i hi hi'
    have hbefore : i ≤ p.length := by
      by_contra hlt
      exact hinner i (by omega) hi hi'
    rw [List.drop_append_of_le_length hbefore, List.append_assoc]
    exact hlarge.trans_le (Utf8.length_encode_le_append (p.drop i) (q ++ s))

theorem cutFromEnd_pair {maxBytes : ℕ} {c d : CodeUnit} (hc : isHighSurrogate c = true)
    (hd : isLowSurrogate d = true) (p : Utf16) (n : ℕ) (needs : Bool) :
    cutFromEnd maxBytes (p ++ [c, d]).reverse n needs =
      if n + 4 > maxBytes then ((p ++ [c, d]).length, needs)
      else cutFromEnd maxBytes p.reverse (n + 4) needs := by
  rw [List.reverse_append]
  show cutFromEnd maxBytes (d :: c :: p.reverse) n needs = _
  rw [cutFromEnd, if_pos (by simp [hc, hd]), List.length_reverse, List.length_append]
  rfl

theorem cutFromEnd_concat {maxBytes : ℕ} {c : CodeUnit} {p : Utf16}
    (h : ∀ t, IsCut p (c :: t)) (n : ℕ) (needs : Bool) :
    cutFromEnd maxBytes (p ++ [c]).reverse n needs =
      if n + Utf8.unitSize c > maxBytes then ((p ++ [c]).length, needs)
      else cutFromEnd maxBytes p.reverse (n + Utf8.unitSize c) (needs || isSurrogate c) := by
  rw [List.reverse_concat]
  rcases p.eq_nil_or_concat with rfl | ⟨p, b, rfl⟩
  · rw [List.reverse_nil, cutFromEnd, cutFromEnd, characterBytes_eq]
    rfl
  · rw [List.concat_eq_append] at h ⊢
    have hpair : ¬ (isLowSurrogate c && isHighSurrogate b) = true := by
      rw [Bool.and_eq_true, and_comm]
      exact h [] b c List.getLast?_concat rfl
    rw [List.reverse_concat, cutFromEnd, if_neg hpair, characterBytes_eq, List.length_reverse]
    simp

theorem cutFromEnd_isEnd {maxBytes : ℕ} (p s : Utf16) (hcut : IsCut p s)
    (hfits : (Utf8.encode s).length ≤ maxBytes) :
    IsEnd maxBytes p s
      (cutFromEnd maxBytes p.reverse (Utf8.encode s).length (!isWellFormed s)) := by
  -- The kept end grows by a code point at a time until the next one no longer fits.
  induction p using pointInductionEnd generalizing s with
  | nil =>
    exact ⟨le_rfl, hcut, hfits, rfl, fun i hi => absurd hi (Nat.not_lt_zero i)⟩
  | pair c d p hc hd ih =>
    have hsize := Utf8.length_encode_pair hc hd s
    rw [cutFromEnd_pair hc hd]
    split_ifs with hmax
    · apply IsEnd.stop hcut hfits
      · show maxBytes < (Utf8.encode (c :: d :: s)).length
        omega
      · intro i hi hi' hinner
        obtain rfl : i = p.length + 1 := by
          rw [List.length_append] at hi'
          simp at hi'
          omega
        -- The only cut inside stands between the halves of the pair.
        refine hinner c d ?_ ?_ ⟨hc, hd⟩
        · rw [List.take_append, List.take_of_length_le (by omega)]
          simp
        · rw [List.drop_append, List.drop_of_length_le (by omega)]
          simp
    · have hcut' : IsCut p (c :: d :: s) := by
        rintro a b - hb ⟨-, hlow⟩
        obtain rfl : c = b := Option.some.inj hb
        simp only [isHighSurrogate, isLowSurrogate, Bool.and_eq_true, decide_eq_true_eq] at hc hlow
        omega
      have hwell : isWellFormed (c :: d :: s) = isWellFormed s := by
        rw [isWellFormed, if_pos (by simp [hc, hd])]
      have hend := ih (c :: d :: s) hcut' (by omega)
      rw [hsize, hwell, Nat.add_comm] at hend
      exact hend.of_append (q := [c, d])
  | unit c p h ih =>
    have hnot : ∀ e rest', s = e :: rest' →
        ¬ (isHighSurrogate c = true ∧ isLowSurrogate e = true) := by
      rintro e rest' rfl
      exact hcut c e List.getLast?_concat rfl
    have hsize := Utf8.length_encode_cons hnot
    rw [cutFromEnd_concat h]
    split_ifs with hmax
    · apply IsEnd.stop hcut hfits
      · show maxBytes < (Utf8.encode (c :: s)).length
        omega
      · intro i hi hi'
        rw [List.length_append, List.length_singleton] at hi'
        omega
    · have hwell : (!isWellFormed (c :: s)) = (!isWellFormed s || isSurrogate c) := by
        rw [isWellFormed_cons hnot, Bool.not_and, Bool.not_not, Bool.or_comm]
      have hend := ih (c :: s) (h s) (by omega)
      rw [hsize, hwell, Nat.add_comm] at hend
      exact hend.of_append (q := [c])

/-- The end of a line that is kept: the longest one cut between code points that fits, made well
formed. -/
theorem truncateStringToBytesFromEnd_spec (str : Utf16) {maxBytes : ℕ} (hpos : 0 < maxBytes) :
    ∃ start, IsLeast {i | i ≤ str.length ∧ IsCut (str.take i) (str.drop i) ∧
        (Utf8.encode (str.drop i)).length ≤ maxBytes} start ∧
      truncateStringToBytesFromEnd str maxBytes = Utf8.toWellFormed (str.drop start) := by
  have hend := cutFromEnd_isEnd str [] (by simp [IsCut]) (Nat.zero_le maxBytes)
  obtain ⟨hstart, hcut, hfits, hneeds, hexceeds⟩ := hend
  simp only [List.append_nil] at hcut hfits hneeds hexceeds
  refine ⟨_, ⟨⟨hstart, hcut, hfits⟩, ?_⟩, ?_⟩
  · rintro i ⟨-, hi, hi'⟩
    by_contra hlt
    have := hexceeds i (by omega) hi
    omega
  · unfold truncateStringToBytesFromEnd
    rw [if_neg hpos.ne']
    show (if _ then _ else _) = _
    rw [replaceUnpairedSurrogates_eq]
    split_ifs with hcase
    · rfl
    · apply Eq.symm
      apply (Utf8.toWellFormed_eq_self_iff _).mpr
      rw [Bool.not_eq_true] at hcase
      rw [← Bool.not_eq_false', ← hneeds]
      exact hcase

end CutFromEnd

end Flashclaw.Truncation
