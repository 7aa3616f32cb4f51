import Flashclaw.Agents.BlockDrain

/-!
# What a drain leaves out

A drain leaves out blanks outside of fenced code only, and a forced drain leaves nothing in the
buffer.
-/

namespace Flashclaw.Agents

open Utf16 Ranges MarkdownCore

/-- A fence with its content, from its marker on. -/
def InCode (span : FenceSpan) (i : ℕ) : Prop :=
  span.start + span.indent.length ≤ i ∧ i < span.stop

/-- A blank that is not in a fence. -/
def LeftOut (source : Utf16) (fenceSpans : List FenceSpan) (i : ℕ) : Prop :=
  BlankAt source i ∧ ∀ span ∈ fenceSpans, ¬InCode span i

/-- In front of the marker of a fence, or behind the fence. -/
def Clear (fenceSpans : List FenceSpan) (index : ℕ) : Prop :=
  ∀ span ∈ fenceSpans, index ≤ span.start + span.indent.length ∨ span.stop ≤ index

section Clear

variable {source : Utf16} {fenceSpans : List FenceSpan} {start stop : ℕ}

theorem not_blank_of_marker {c : CodeUnit} (h : isFenceMarker c = true) : isWhiteSpace c = false := by
  rw [isFenceMarker, Bool.or_eq_true, decide_eq_true_eq, decide_eq_true_eq] at h
  rcases h with rfl | rfl
  · decide
  · decide

/-- No blanks lead into a fence. -/
theorem Clear.of_blank (hspans : ∀ span ∈ fenceSpans, SpanOf source span)
    (h : Clear fenceSpans start) (hle : start ≤ stop)
    (hblank : Between (BlankAt source) start stop) :
    Clear fenceSpans stop ∧ Between (LeftOut source fenceSpans) start stop := by
  have hahead : ∀ span ∈ fenceSpans, stop ≤ span.start + span.indent.length ∨ span.stop ≤ start := by
    intro span hmem
    rcases h span hmem with hbefore | hbehind
    · left
      apply Nat.le_of_not_lt
      intro hlt
      obtain ⟨c, hc, hmarker⟩ := (hspans span hmem).opens.marker_at
      have hspace := hblank _ hbefore hlt
      rw [BlankAt, hc, Option.any_some, not_blank_of_marker hmarker] at hspace
      cases hspace
    · exact .inr hbehind
  refine ⟨fun span hmem => (hahead span hmem).imp_right fun hbehind => hbehind.trans hle, ?_⟩
  intro i hi hlt
  refine ⟨hblank i hi hlt, fun span hmem hcode => ?_⟩
  obtain ⟨hcode, hcode'⟩ := hcode
  have := hahead span hmem
  omega

theorem clear_of_safe (hordered : Ordered fenceSpans)
    (hsafe : findFenceSpanAt fenceSpans stop = none) : Clear fenceSpans stop := by
  intro span hmem
  have hnot := (findFenceSpanAt_eq_none hordered).mp hsafe span hmem
  rw [FenceSpan.Contains] at hnot
  omega

end Clear

section Rounds

variable {fenced : FencedText} {reach start stopped : ℕ} {reopenFence left : Option FenceSpan}
  {pieces : List Piece}

theorem gapped_of_rounds
    (h : Rounds fenced.text fenced.spans reach reopenFence start pieces left stopped)
    (hclear : reopenFence = none → Clear fenced.spans start) :
    Gapped (LeftOut fenced.text fenced.spans) start (pieces.map Piece.range) stopped := by
  induction h with
  | @done reopenFence start next hnext hsame _ =>
    refine ⟨hnext.le, ?_⟩
    cases reopenFence with
    | none => exact ((hclear rfl).of_blank fenced.spanOf hnext.le hnext.blank).2
    | some fence =>
      rw [hsame (Option.some_ne_none fence)]
      exact Between.self _ _
  | @skip start stop next _ _ _ _ hbreak hblank hnext _ ih =>
    obtain ⟨hstop, hskipped⟩ := (hclear rfl).of_blank fenced.spanOf hbreak.progress.le hblank
    obtain ⟨hnext', hbehind⟩ := hstop.of_blank fenced.spanOf hnext.le hnext.blank
    exact ((ih fun _ => hnext').behind hnext.le hbehind).behind hbreak.progress.le hskipped
  | @emit _ start stop next _ fenceSplit _ _ hbreak hnext hsplit _ ih =>
    refine ⟨Nat.le_refl _, Between.self _ _, hbreak.progress, ?_⟩
    cases fenceSplit with
    | none =>
      obtain ⟨hnext', hbehind⟩ := (clear_of_safe fenced.ordered (hbreak.safe rfl)).of_blank
        fenced.spanOf hnext.le hnext.blank
      exact (ih fun _ => hnext').behind hnext.le hbehind
    | some fence =>
      rw [hsplit (Option.some_ne_none fence)] at ih
      exact ih fun hnone => by cases hnone

/-- Every chunk opens again what the one in front of it closes. -/
def Linked : Option FenceSpan → List Emission → Option FenceSpan → Prop
  | reopened, [], left => reopened = left
  | reopened, emission :: emissions, left =>
    emission.reopen = reopened ∧ Linked emission.close emissions left

theorem linked_of_rounds {source : Utf16} {fenceSpans : List FenceSpan}
    (h : Rounds source fenceSpans reach reopenFence start pieces left stopped) :
    Linked reopenFence (pieces.map (Piece.emission source)) left := by
  induction h with
  | done => rfl
  | skip _ _ _ _ ih => exact ih
  | emit _ _ _ _ ih => exact ⟨rfl, ih⟩

/-- A piece is split in the fence that it closes. -/
def SplitIn (fenceSpans : List FenceSpan) (piece : Piece) : Prop :=
  ∀ fence, piece.close = some fence →
    fence ∈ fenceSpans ∧ fence.start ≤ piece.range.stop ∧ piece.range.stop < fence.stop

theorem splitIn_of_rounds {source : Utf16} {fenceSpans : List FenceSpan}
    (h : Rounds source fenceSpans reach reopenFence start pieces left stopped) :
    ∀ piece ∈ pieces, SplitIn fenceSpans piece := by
  induction h with
  | done => exact fun _ h => (List.not_mem_nil h).elim
  | skip _ _ _ _ ih => exact ih
  | emit hbreak _ _ _ ih =>
    refine List.forall_mem_cons.mpr ⟨fun fence hfence => ?_, ih⟩
    obtain ⟨hmem, hstart, hstop, -⟩ := hbreak.split fence hfence
    exact ⟨hmem, hstart, hstop⟩

theorem left_of_rounds {source : Utf16} {fenceSpans : List FenceSpan}
    (h : Rounds source fenceSpans reach reopenFence start pieces left stopped)
    (hopen : ∀ fence, reopenFence = some fence → fence ∈ fenceSpans) :
    ∀ fence, left = some fence → fence ∈ fenceSpans := by
  induction h with
  | done => exact hopen
  | skip _ _ _ _ ih => exact ih hopen
  | emit hbreak _ _ _ ih => exact ih fun fence hfence => (hbreak.split fence hfence).1

theorem stopped_le_of_rounds {source : Utf16} {fenceSpans : List FenceSpan}
    (h : Rounds source fenceSpans reach reopenFence start pieces left stopped) :
    stopped ≤ source.length := by
  induction h with
  | done hnext _ _ => exact hnext.le_length
  | skip _ _ _ _ ih => exact ih
  | emit _ _ _ _ ih => exact ih

end Rounds

section Forced

variable {chunking : BlockReplyChunking} {fenced : FencedText} {start : ℕ}
  {reopenFence : Option FenceSpan} {consumed : Consumed}

theorem drainRound_force : drainRound chunking true fenced.text fenced.spans reopenFence start =
    sizedBreak chunking true fenced.text fenced.spans reopenFence start := by
  rw [drainRound, Bool.not_true, Bool.false_and, Bool.and_false, if_neg Bool.false_ne_true,
    if_neg Bool.false_ne_true]

/-- A forced round goes on, up to the end of the text. -/
theorem forced_round : ∃ consumed,
    drainRound chunking true fenced.text fenced.spans reopenFence start = some consumed ∧
      (consumed.goesOn = true ∨
        consumed.start = fenced.text.length ∧ consumed.reopenFence = none) := by
  rw [drainRound_force, sizedBreak]
  dsimp only
  split
  · exact ⟨_, rfl, .inr ⟨rfl, rfl⟩⟩
  · exact ⟨_, rfl, .inl rfl⟩

/-- A fence is split in front of the end of the text. -/
theorem reopen_of_end {reach : ℕ}
    (h : RoundOf fenced.text fenced.spans reach reopenFence start consumed)
    (hend : consumed.start = fenced.text.length) : consumed.reopenFence = none := by
  obtain ⟨stop, fenceSplit, hskips | hemits⟩ := h
  · exact hskips.reopen
  · rw [hemits.reopen]
    cases fenceSplit with
    | none => rfl
    | some fence =>
      obtain ⟨hmem, -, hstop, -⟩ := hemits.breakAt.split fence rfl
      have hsame := hemits.split (Option.some_ne_none fence)
      rcases (fenced.spanOf fence hmem).stop with hlast | hnewline
      · omega
      · have := (List.getElem?_eq_some_iff.mp hnewline).1
        omega

theorem forced_drainFrom (hle : start ≤ fenced.text.length)
    (hend : start = fenced.text.length → reopenFence = none) :
    (drainFrom chunking true fenced reopenFence start).start = fenced.text.length ∧
      (drainFrom chunking true fenced reopenFence start).reopenFence = none := by
  induction reopenFence, start using drainFrom.induct chunking true fenced with
  | case1 reopenFence start hstart hround =>
    obtain ⟨consumed, hconsumed, -⟩ := @forced_round chunking fenced start reopenFence
    rw [hround] at hconsumed
    cases hconsumed
  | case2 reopenFence start hstart consumed hround hgoes ih =>
    rw [drainFrom_of_goesOn hstart hround hgoes]
    have hconsumed := roundOf_drainRound fenced hstart hround
    exact ih (le_length_of_round hconsumed) (reopen_of_end hconsumed)
  | case3 reopenFence start hstart consumed hround hstops =>
    rw [drainFrom_of_stops hstart hround hstops]
    obtain ⟨consumed', hconsumed, hcases⟩ := @forced_round chunking fenced start reopenFence
    obtain rfl := Option.some.inj (hround.symm.trans hconsumed)
    exact hcases.resolve_left hstops
  | case4 reopenFence start hstart =>
    rw [drainFrom_of_end hstart]
    have hlast : start = fenced.text.length := by omega
    exact ⟨hlast, hend hlast⟩

theorem forced_buffer (chunking : BlockReplyChunking) (buffer : Utf16) :
    (drain chunking true buffer).buffer = [] := by
  rw [drain, Bool.not_true, Bool.and_false, if_neg Bool.false_ne_true]
  split_ifs with hshort
  · rfl
  · obtain ⟨hstart, hreopen⟩ := @forced_drainFrom chunking (FencedText.parse buffer) 0 none
      (Nat.zero_le _) fun _ => rfl
    dsimp only
    rw [Drained.buffer, hreopen, hstart]
    show stripLeadingNewlines (buffer.drop buffer.length) = []
    rw [List.drop_length]
    rfl

end Forced

section Front

variable {fenced : FencedText} {reach stopped n : ℕ} {left : Option FenceSpan} {pieces : List Piece}

/-- A fence at the start of a text is not left within the reach of a line end in it. -/
theorem le_of_breakAt {stop : ℕ} {fenceSplit : Option FenceSpan} {span : FenceSpan}
    (h : BreakAt fenced.text fenced.spans reach 0 stop fenceSplit) (hmem : span ∈ fenced.spans)
    (hstart : span.start = 0) (hstop : n ≤ span.stop) (hpos : 0 < n) (hreach : n ≤ reach)
    (hnewline : fenced.text[n - 1]? = some NEWLINE) : n ≤ stop := by
  cases fenceSplit with
  | none =>
    have hnot := (findFenceSpanAt_eq_none fenced.ordered).mp (h.safe rfl) span hmem
    have hprogress := h.progress
    rw [FenceSpan.Contains] at hnot
    omega
  | some fence =>
    obtain ⟨-, -, -, hnewlines⟩ := h.split fence rfl
    exact hnewlines n hpos (by omega) hnewline

/-- The first piece of a text that starts with a fence has its opening line. -/
theorem first_of_rounds (h : Rounds fenced.text fenced.spans reach none 0 pieces left stopped)
    {span : FenceSpan} (hmem : span ∈ fenced.spans) (hstart : span.start = 0)
    (hcode : span.indent.length < n) (hstop : n ≤ span.stop) (hreach : n ≤ reach)
    (hnewline : fenced.text[n - 1]? = some NEWLINE) :
    pieces = [] ∧ left = none ∧ stopped = 0 ∨
      ∃ stop close rest, pieces = ⟨none, ⟨0, stop⟩, close⟩ :: rest ∧ n ≤ stop := by
  obtain ⟨c, hc, hmarker⟩ := (fenced.spanOf span hmem).opens.marker_at
  rw [hstart, Nat.zero_add] at hc
  have hunit : ¬BlankAt fenced.text span.indent.length := by
    rw [BlankAt, hc, Option.any_some, not_blank_of_marker hmarker]
    exact Bool.false_ne_true
  cases h with
  | done hnext _ hlines =>
    have hfirst : stopped ≤ span.indent.length :=
      Nat.le_of_not_lt fun hlt => hunit (hnext.blank _ (Nat.zero_le _) hlt)
    have hlength := (List.getElem?_eq_some_iff.mp hc).1
    refine .inl ⟨rfl, rfl, Nat.eq_zero_of_not_pos fun hpos => ?_⟩
    have hline := hlines.resolve_left (by omega) 0 (Nat.le_refl _) hpos
    obtain ⟨d, hd, hmarker'⟩ := (fenced.spanOf span hmem).opens.unit_at
      ((by decide : 0 < 3).trans_le (fenced.spanOf span hmem).opens.three_le)
    rw [hstart, Nat.add_zero, hline] at hd
    obtain rfl := Option.some.inj hd
    exact (not_low_of_marker hmarker').2.2 rfl
  | skip hbreak hblank _ _ =>
    have := le_of_breakAt hbreak hmem hstart hstop (by omega) hreach hnewline
    exact absurd (hblank _ (Nat.zero_le _) (by omega)) hunit
  | emit hbreak _ _ _ =>
    exact .inr ⟨_, _, _, rfl, le_of_breakAt hbreak hmem hstart hstop (by omega) hreach hnewline⟩

end Front

end Flashclaw.Agents
