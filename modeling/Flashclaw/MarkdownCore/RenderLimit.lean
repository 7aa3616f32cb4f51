import Flashclaw.MarkdownCore.RenderAware

/-!
# Rendered chunks: the worklist

Chunks that are too large are split again. A split has smaller chunks only, or a first one that
is small enough, so that the worklist gets empty.
-/

namespace Flashclaw.MarkdownCore

open Utf16 Ranges Omission

theorem splitFrom_ranges (ir : MarkdownIR) {limit : ℕ} (hlimit : 0 < limit) {cursor : ℕ}
    (hcursor : cursor ≤ ir.text.length) :
    ∃ ranges, splitFrom ir limit hlimit cursor =
        ranges.map (fun range => sliceMarkdownIR ir range.start range.stop) ∧
      Contiguous cursor ranges ir.text.length := by
  induction cursor using splitFrom.induct ir limit hlimit with
  | case1 cursor hlt ih =>
    have hsplit := splitsAt_findIndex hlimit hlt
    obtain ⟨ranges, hranges, hcontiguous⟩ := ih hsplit.le_length
    refine ⟨⟨cursor, findMarkdownIRPreservedSplitIndex ir.text cursor limit⟩ :: ranges, ?_,
      rfl, hsplit.progress, hcontiguous⟩
    rw [splitFrom, dif_pos hlt, hranges]
    rfl
  | case2 cursor hlt =>
    refine ⟨[], ?_, ?_⟩
    · rw [splitFrom, dif_neg hlt]
      rfl
    · show cursor = ir.text.length
      omega

theorem texts_ranges {ir : MarkdownIR} {ranges : List Range} {start stop : ℕ}
    (h : Contiguous start ranges stop) :
    ((ranges.map fun range => sliceMarkdownIR ir range.start range.stop).map
      MarkdownIR.text).flatten = slice ir.text start stop := by
  rw [List.map_map]
  exact h.flatten

/-- The chunks of a split that keeps all blanks. -/
structure PreservedSplit (ir : MarkdownIR) (split : List MarkdownIR) : Prop where
  text : (split.map MarkdownIR.text).flatten = ir.text
  nonempty : ∀ chunk ∈ split, 0 < chunk.text.length

theorem preserved_split {ir : MarkdownIR} (hne : ir.text ≠ []) (limit : ℕ) :
    PreservedSplit ir (splitMarkdownIRPreserveWhitespace ir limit) := by
  rw [splitMarkdownIRPreserveWhitespace, if_neg hne]
  split_ifs with hshort
  · exact ⟨List.flatten_singleton, List.forall_mem_singleton.mpr (List.length_pos_of_ne_nil hne)⟩
  · obtain ⟨ranges, hranges, hcontiguous⟩ :=
      splitFrom_ranges ir (by omega : 0 < max 1 limit) (Nat.zero_le _)
    rw [hranges]
    refine ⟨(texts_ranges hcontiguous).trans (slice_zero_length ir.text), ?_⟩
    intro chunk hchunk
    obtain ⟨range, hrange, rfl⟩ := List.mem_map.mp hchunk
    obtain ⟨hlt, hle⟩ := hcontiguous.bounds range hrange
    show 0 < (slice ir.text range.start range.stop).length
    rw [length_slice hle]
    omega

/-- A safe limit that a text is longer than leads to more than one chunk. -/
theorem two_of_split {ir : MarkdownIR} {limit : ℕ} (hlimit : 0 < limit)
    (hlt : limit < ir.text.length) (hsafe : splitsPair ir.text limit = false) :
    1 < (splitMarkdownIRPreserveWhitespace ir limit).length := by
  have hne : ir.text ≠ [] := by
    rintro h
    rw [h] at hlt
    cases hlt
  have hmax : max 1 limit = limit := by omega
  have hfirst := splitsAt_findIndex (by omega : 0 < max 1 limit) (hlimit.trans hlt)
  have hshort := hfirst.short (by omega) (by rwa [Nat.zero_add, hmax])
  have hsecond : findMarkdownIRPreservedSplitIndex ir.text 0 (max 1 limit) < ir.text.length := by
    omega
  rw [splitMarkdownIRPreserveWhitespace, if_neg hne, if_neg (by omega), splitFrom,
    dif_pos (hlimit.trans hlt), splitFrom, dif_pos hsecond, List.length_cons, List.length_cons]
  omega

section Rendering

variable {TRendered Size : Type*} [LE Size] [DecidableLE Size] [NatCast Size]
  (options : RenderResolver TRendered Size) (renderedLimit : ℕ)

/-- No prefix that the search tries is small enough. -/
def NoPrefixFits (chunk : MarkdownIR) : Prop :=
  ∀ length, 1 ≤ length → length < chunk.text.length → options.fits renderedLimit
    (sliceMarkdownIR chunk 0 (avoidTrailingHighSurrogateBreak chunk.text 0 length)) = false

/-- A chunk that is not split. -/
def Finalizable (chunk : MarkdownIR) : Prop :=
  options.fits renderedLimit chunk = true ∨ chunk.text.length ≤ 1

instance : DecidablePred (Finalizable options renderedLimit) :=
  fun _ => inferInstanceAs (Decidable (_ ∨ _))

/-- How much a chunk of the worklist has left to split. -/
def weight (chunk : MarkdownIR) : ℕ :=
  if Finalizable options renderedLimit chunk then 1 else 2 * chunk.text.length - 1

variable {options renderedLimit} {chunk : MarkdownIR}

theorem largestLengthFrom_cases (chunk : MarkdownIR) (k : ℕ) :
    (largestLengthFrom options renderedLimit chunk k = 0 ∧
        ∀ length, 1 ≤ length → length ≤ k → options.fits renderedLimit
          (sliceMarkdownIR chunk 0 (avoidTrailingHighSurrogateBreak chunk.text 0 length)) = false) ∨
      ∃ length, 1 ≤ length ∧ length ≤ k ∧
        largestLengthFrom options renderedLimit chunk k =
          avoidTrailingHighSurrogateBreak chunk.text 0 length ∧
        options.fits renderedLimit
          (sliceMarkdownIR chunk 0 (avoidTrailingHighSurrogateBreak chunk.text 0 length)) = true := by
  induction k with
  | zero => exact .inl ⟨rfl, fun length h h' => by omega⟩
  | succ k ih =>
    rw [largestLengthFrom]
    cases hfits : options.fits renderedLimit
        (sliceMarkdownIR chunk 0 (avoidTrailingHighSurrogateBreak chunk.text 0 (k + 1))) with
    | true => exact .inr ⟨k + 1, Nat.le_add_left 1 k, Nat.le_refl _, if_pos rfl, hfits⟩
    | false =>
      rw [if_neg Bool.false_ne_true]
      rcases ih with ⟨hzero, hnone⟩ | ⟨length, hpos, hle, hfound⟩
      · refine .inl ⟨hzero, fun length hpos hle => ?_⟩
        rcases Nat.lt_or_ge k length with hlt | hge
        · obtain rfl : length = k + 1 := by omega
          exact hfits
        · exact hnone length hpos hge
      · exact .inr ⟨length, hpos, hle.trans (Nat.le_succ k), hfound⟩

theorem weight_le (h : 0 < chunk.text.length) :
    weight options renderedLimit chunk ≤ 2 * chunk.text.length - 1 := by
  rw [weight]
  split_ifs
  · omega
  · exact Nat.le_refl _

theorem sum_weight_le {split : List MarkdownIR} (h : ∀ chunk ∈ split, 0 < chunk.text.length) :
    (split.map (weight options renderedLimit)).sum + split.length ≤
      2 * ((split.map MarkdownIR.text).flatten).length := by
  induction split with
  | nil => exact Nat.le_refl _
  | cons chunk split ih =>
    obtain ⟨hchunk, hsplit⟩ := List.forall_mem_cons.mp h
    have hle := @weight_le _ _ _ _ _ options renderedLimit chunk hchunk
    have hrest := ih hsplit
    rw [List.map_cons, List.map_cons, List.sum_cons, List.flatten_cons, List.length_append,
      List.length_cons]
    omega

/-- A split that goes back to the worklist. -/
structure Shrinks (options : RenderResolver TRendered Size) (renderedLimit : ℕ)
    (chunk : MarkdownIR) (split : List MarkdownIR) : Prop where
  two : 1 < split.length
  text : (split.map MarkdownIR.text).flatten = chunk.text
  sum_weight : (split.map (weight options renderedLimit)).sum < weight options renderedLimit chunk

theorem split_cases (h : ¬Finalizable options renderedLimit chunk) :
    (splitMarkdownIRByRenderedLimit options renderedLimit chunk = [chunk] ∧
        NoPrefixFits options renderedLimit chunk) ∨
      Shrinks options renderedLimit chunk
        (splitMarkdownIRByRenderedLimit options renderedLimit chunk) := by
  obtain ⟨hfits, hlength⟩ := not_or.mp h
  have hne : chunk.text ≠ [] := by
    rintro hnil
    rw [hnil] at hlength
    exact hlength (Nat.zero_le 1)
  have hweight : weight options renderedLimit chunk = 2 * chunk.text.length - 1 := if_neg h
  rw [splitMarkdownIRByRenderedLimit, if_neg hlength,
    findLargestChunkTextLengthWithinRenderedLimit, if_neg hlength]
  rcases @largestLengthFrom_cases _ _ _ _ _ options renderedLimit chunk (chunk.text.length - 1) with
    ⟨hzero, hnone⟩ | ⟨length, hpos, hle, hfound, hsmall⟩
  · -- no beginning of the chunk fits
    rw [hzero]
    exact .inl ⟨rfl, fun length hpos hlt => hnone length hpos (by omega)⟩
  · rw [hfound]
    have havoided := avoided hpos (by omega : length ≤ chunk.text.length)
    generalize avoidTrailingHighSurrogateBreak chunk.text 0 length = splitLimit at hsmall havoided
    have hprogress := havoided.progress
    have hbound := havoided.le_length
    refine .inr ?_
    dsimp only
    rw [if_neg (by omega)]
    by_cases hfirst : (splitMarkdownIRPreserveWhitespace chunk splitLimit).head?.any
        (options.fits renderedLimit) = true
    · rw [if_pos hfirst]
      obtain ⟨htext, hnonempty⟩ := preserved_split hne splitLimit
      have htwo : 1 < (splitMarkdownIRPreserveWhitespace chunk splitLimit).length := by
        rcases Nat.lt_or_ge splitLimit chunk.text.length with hlt | hge
        · exact two_of_split hprogress hlt havoided.safe
        · -- the chunk itself, which is too large
          have hwhole : splitMarkdownIRPreserveWhitespace chunk splitLimit = [chunk] := by
            rw [splitMarkdownIRPreserveWhitespace, if_neg hne, if_pos (by omega)]
          rw [hwhole] at hfirst
          exact absurd hfirst hfits
      refine ⟨htwo, htext, ?_⟩
      have hsum := @sum_weight_le _ _ _ _ _ options renderedLimit _ hnonempty
      rw [htext] at hsum
      omega
    · rw [if_neg hfirst]
      refine ⟨Nat.one_lt_two, ?_, ?_⟩
      · show slice chunk.text 0 splitLimit ++
          (slice chunk.text splitLimit chunk.text.length ++ []) = chunk.text
        rw [List.append_nil, slice_append_slice (Nat.zero_le _) hbound, slice_zero_length]
      · have hone : weight options renderedLimit (sliceMarkdownIR chunk 0 splitLimit) = 1 :=
          if_pos (.inl hsmall)
        have hrest : (sliceMarkdownIR chunk splitLimit chunk.text.length).text.length =
            chunk.text.length - splitLimit := length_slice (Nat.le_refl _)
        -- the rest is shorter than the chunk by what was cut off
        have hother : weight options renderedLimit
            (sliceMarkdownIR chunk splitLimit chunk.text.length) ≤
              max 1 (2 * (chunk.text.length - splitLimit) - 1) := by
          rw [weight, hrest]
          split_ifs
          · omega
          · omega
        rw [List.map_cons, List.map_singleton, List.sum_cons, List.sum_singleton, hone, hweight]
        omega

/-- What is left to split of a worklist. -/
def totalWeight (options : RenderResolver TRendered Size) (renderedLimit : ℕ)
    (pending : List MarkdownIR) : ℕ :=
  (pending.map (weight options renderedLimit)).sum

theorem one_le_weight (chunk : MarkdownIR) : 1 ≤ weight options renderedLimit chunk := by
  rw [weight]
  split_ifs with h
  · exact Nat.le_refl _
  · have := (not_or.mp h).2
    omega

theorem totalWeight_tail (pending : List MarkdownIR) :
    totalWeight options renderedLimit pending <
      totalWeight options renderedLimit (chunk :: pending) := by
  have := @one_le_weight _ _ _ _ _ options renderedLimit chunk
  rw [totalWeight, totalWeight, List.map_cons, List.sum_cons]
  omega

theorem totalWeight_split (h : ¬Finalizable options renderedLimit chunk)
    (htwo : ¬(splitMarkdownIRByRenderedLimit options renderedLimit chunk).length ≤ 1)
    (pending : List MarkdownIR) :
    totalWeight options renderedLimit
        (splitMarkdownIRByRenderedLimit options renderedLimit chunk ++ pending) <
      totalWeight options renderedLimit (chunk :: pending) := by
  rcases split_cases h with ⟨hsame, -⟩ | hshrinks
  · rw [hsame] at htwo
    exact absurd (Nat.le_refl 1) htwo
  · have := hshrinks.sum_weight
    rw [totalWeight, totalWeight, List.map_append, List.sum_append, List.map_cons, List.sum_cons]
    omega

/-- The loop over the worklist, whose next chunk is the head of the list. -/
def finalizeChunks (options : RenderResolver TRendered Size) (renderedLimit : ℕ) :
    List MarkdownIR → List MarkdownIR
  | [] => []
  | chunk :: pending =>
    if _hfinal : Finalizable options renderedLimit chunk then
      chunk :: finalizeChunks options renderedLimit pending
    else
      if _hsplit : (splitMarkdownIRByRenderedLimit options renderedLimit chunk).length ≤ 1 then
        chunk :: finalizeChunks options renderedLimit pending
      else
        finalizeChunks options renderedLimit
          (splitMarkdownIRByRenderedLimit options renderedLimit chunk ++ pending)
termination_by pending => totalWeight options renderedLimit pending
decreasing_by
  · exact totalWeight_tail pending
  · exact totalWeight_tail pending
  · exact totalWeight_split _hfinal _hsplit pending

/-- A chunk that is returned: small enough, or with no prefix that is. -/
def Settled (options : RenderResolver TRendered Size) (renderedLimit : ℕ) (chunk : MarkdownIR) :
    Prop :=
  options.fits renderedLimit chunk = true ∨ NoPrefixFits options renderedLimit chunk

theorem Finalizable.settled (h : Finalizable options renderedLimit chunk) :
    Settled options renderedLimit chunk :=
  h.imp_right fun hshort length hpos hlt => by omega

theorem finalizeChunks_spec (pending : List MarkdownIR) :
    ((finalizeChunks options renderedLimit pending).map MarkdownIR.text).flatten =
        (pending.map MarkdownIR.text).flatten ∧
      ∀ chunk ∈ finalizeChunks options renderedLimit pending,
        Settled options renderedLimit chunk := by
  induction pending using finalizeChunks.induct options renderedLimit with
  | case1 =>
    rw [finalizeChunks]
    exact ⟨rfl, fun _ h => (List.not_mem_nil h).elim⟩
  | case2 chunk pending hfinal ih =>
    rw [finalizeChunks, dif_pos hfinal, List.map_cons, List.flatten_cons, ih.1]
    exact ⟨rfl, List.forall_mem_cons.mpr ⟨hfinal.settled, ih.2⟩⟩
  | case3 chunk pending hfinal hsplit ih =>
    rw [finalizeChunks, dif_neg hfinal, dif_pos hsplit, List.map_cons, List.flatten_cons, ih.1]
    refine ⟨rfl, List.forall_mem_cons.mpr ⟨.inr ?_, ih.2⟩⟩
    rcases split_cases hfinal with ⟨-, hnone⟩ | hshrinks
    · exact hnone
    · exact absurd hshrinks.two (Nat.not_lt.mpr hsplit)
  | case4 chunk pending hfinal hsplit ih =>
    rw [finalizeChunks, dif_neg hfinal, dif_neg hsplit]
    refine ⟨?_, ih.2⟩
    rcases split_cases hfinal with ⟨hsame, -⟩ | hshrinks
    · rw [hsame] at hsplit
      exact absurd (Nat.le_refl 1) hsplit
    · rw [ih.1, List.map_append, List.flatten_append, hshrinks.text, List.map_cons,
        List.flatten_cons]

end Rendering

end Flashclaw.MarkdownCore
