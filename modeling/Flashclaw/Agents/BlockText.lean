import Flashclaw.Agents.BlockRuns

/-!
# The text of a run

Where in the text of a run its chunks come from. Blanks in fenced code are missing only where a
drain does not find the fence in its buffer: a forced drain has emitted the opening line, or a cut
inside of a line has made or hidden one.
-/

namespace Flashclaw.Agents

open Utf16 Ranges MarkdownCore Omission

/-- The fence that a buffer opens again after a drain; one that emits nothing leaves its line. -/
def reopenedBy (chunking : BlockReplyChunking) (force : Bool) (buffer : Utf16)
    (reopened : Option FenceSpan) : Option FenceSpan :=
  if (drain chunking force buffer).chunks = [] then reopened
  else (drain chunking force buffer).reopenFence

/-- A chunker with the fence that its buffer opens again. -/
structure Traced where
  chunker : Chunker
  reopened : Option FenceSpan

def Traced.call (chunking : BlockReplyChunking) (traced : Traced) (call : Call) : Traced where
  chunker := traced.chunker.call chunking call
  reopened :=
    match call with
    | .append _ => traced.reopened
    | .drain force => reopenedBy chunking force traced.chunker.buffer traced.reopened

def traced (chunking : BlockReplyChunking) (calls : List Call) : Traced :=
  calls.foldl (Traced.call chunking) ⟨⟨[], []⟩, none⟩

theorem traced_concat (chunking : BlockReplyChunking) (calls : List Call) (call : Call) :
    traced chunking (calls ++ [call]) = (traced chunking calls).call chunking call := by
  rw [traced, List.foldl_concat, ← traced]

theorem chunker_traced (chunking : BlockReplyChunking) (calls : List Call) :
    (traced chunking calls).chunker = run chunking calls := by
  induction calls using List.reverseRecOn with
  | nil => rfl
  | append_singleton calls call ih =>
    rw [traced_concat, run_concat, ← ih]
    rfl

/-- The blanks of a buffer behind its opening line that are fenced code of a text are fenced code
of the buffer. The two end together. -/
def FencesKnown (whole text buffer : Utf16) (reopened : Option FenceSpan) : Prop :=
  ∀ i, (reopenPrefix reopened).length ≤ i → BlankAt buffer i →
    (∃ span ∈ parseFenceSpans whole, InCode span (i + text.length - buffer.length)) →
      ∃ span ∈ parseFenceSpans buffer, InCode span i

instance (text : Utf16) (i : ℕ) : Decidable (BlankAt text i) := inferInstanceAs (Decidable (_ = _))

instance (span : FenceSpan) (i : ℕ) : Decidable (InCode span i) :=
  inferInstanceAs (Decidable (_ ∧ _))

instance (whole text buffer : Utf16) (reopened : Option FenceSpan) :
    Decidable (FencesKnown whole text buffer reopened) :=
  decidable_of_iff (∀ i < buffer.length, (reopenPrefix reopened).length ≤ i → BlankAt buffer i →
    (∃ span ∈ parseFenceSpans whole, InCode span (i + text.length - buffer.length)) →
      ∃ span ∈ parseFenceSpans buffer, InCode span i) (by
    refine ⟨fun h i hi hblank => ?_, fun h i _ => h i⟩
    obtain ⟨c, hc, -⟩ := (Option.any_eq_true _ _).mp hblank
    exact h i (List.getElem?_eq_some_iff.mp hc).1 hi hblank)

/-- The chunks are ranges of a text with blanks outside of its fenced code between them, and what is
left of it follows. -/
structure CutFrom (whole text : Utf16) (emissions : List Emission) (content : Utf16)
    (consumed : ℕ) (ranges : List Range) : Prop where
  gaps : Gapped (LeftOut whole (parseFenceSpans whole)) 0 ranges consumed
  contents : (emissions.map Emission.content).flatten =
    (ranges.map fun range => slice whole range.start range.stop).flatten
  rest : content = text.drop consumed
  le_length : consumed ≤ text.length

section CutFrom

variable {whole text content buffer : Utf16} {emissions : List Emission} {consumed : ℕ}
  {ranges : List Range}

theorem cutFrom_nil (whole : Utf16) : CutFrom whole [] [] [] 0 [] where
  gaps := ⟨Nat.le_refl _, Between.self _ _⟩
  contents := rfl
  rest := rfl
  le_length := Nat.le_refl _

theorem CutFrom.append (h : CutFrom whole text emissions content consumed ranges) (more : Utf16) :
    CutFrom whole (text ++ more) emissions (content ++ more) consumed ranges where
  gaps := h.gaps
  contents := h.contents
  rest := by rw [h.rest, List.drop_append_of_le_length h.le_length]
  le_length := h.le_length.trans (List.sublist_append_left _ _).length_le

theorem getElem?_moved {o d i : ℕ} {c : CodeUnit} (h : buffer.drop o <+: whole.drop d)
    (ho : o ≤ i) (hi : buffer[i]? = some c) : whole[i - o + d]? = some c := by
  obtain ⟨more, hmore⟩ := h
  have hdrop : (buffer.drop o)[i - o]? = some c := by
    rw [List.getElem?_drop, Nat.add_sub_cancel' ho, hi]
  rw [Nat.add_comm, ← List.getElem?_drop, ← hmore,
    List.getElem?_append_left (List.getElem?_eq_some_iff.mp hdrop).1, hdrop]

/-- What is emitted of a buffer up to a position, and the pieces behind it. -/
theorem CutFrom.emit (h : CutFrom whole text emissions content consumed ranges)
    (hwhole : text <+: whole) {more : List Emission} {inner : List Range} {first stopped : ℕ}
    {reopened : Option FenceSpan} (hbuffer : buffer = reopenPrefix reopened ++ content)
    (hfirst : (reopenPrefix reopened).length ≤ first) (hle : stopped ≤ buffer.length)
    (hgaps : Gapped (LeftOut buffer (parseFenceSpans buffer)) first inner stopped)
    (hmore : (more.map Emission.content).flatten =
      slice buffer (reopenPrefix reopened).length first ++
        (inner.map fun range => slice buffer range.start range.stop).flatten)
    (hknown : FencesKnown whole text buffer reopened) : ∃ consumed' ranges',
      CutFrom whole text (emissions ++ more) (buffer.drop stopped) consumed' ranges' := by
  generalize ho : (reopenPrefix reopened).length = o at hfirst hmore
  -- behind the reopened fence the buffer is what is left of the text
  have hcontent : buffer.drop o = text.drop consumed := by
    rw [hbuffer, ← ho, List.drop_left, h.rest]
  have hlength : buffer.length = o + (text.length - consumed) := by
    rw [hbuffer, List.length_append, ho, h.rest, List.length_drop]
  have hstopped := hgaps.le
  have hconsumed := h.le_length
  have hgoes : buffer.drop o <+: whole.drop consumed := hcontent ▸ hwhole.drop consumed
  -- what is blank and outside of code in the buffer is so in the text
  have hleft : ∀ i, first ≤ i → LeftOut buffer (parseFenceSpans buffer) i →
      LeftOut whole (parseFenceSpans whole) (i - o + consumed) := by
    intro i hi ⟨hblank, hclear⟩
    have ho' : o ≤ i := hfirst.trans hi
    obtain ⟨c, hc, hspace⟩ := (Option.any_eq_true _ _).mp hblank
    have hposition : i + text.length - buffer.length = i - o + consumed := by omega
    refine ⟨?_, fun span hmem hcode => ?_⟩
    · exact (Option.any_eq_true _ _).mpr ⟨c, getElem?_moved hgoes ho' hc, hspace⟩
    · rw [← hposition] at hcode
      obtain ⟨span', hmem', hcode'⟩ := hknown i (ho ▸ ho') hblank ⟨span, hmem, hcode⟩
      exact hclear span' hmem' hcode'
  have hinner := hgaps.move hfirst fun i hi _ => hleft i hi
  have hslices : (inner.map fun range => slice buffer range.start range.stop) =
      (inner.map (Range.move o consumed)).map fun range => slice whole range.start range.stop := by
    rw [List.map_map]
    apply List.map_congr_left
    intro range hrange
    obtain ⟨hstart, hlt, hstop⟩ := hgaps.bounds range hrange
    exact slice_moved hgoes (hfirst.trans hstart) hlt.le (hstop.trans hle)
  have hhead : slice buffer o first = slice whole consumed (first - o + consumed) := by
    rw [slice_moved hgoes (Nat.le_refl o) hfirst (hstopped.trans hle), Nat.sub_self,
      Nat.zero_add]
  -- the pieces so far, the start of the buffer, and the pieces cut from it now
  have hall : Gapped (LeftOut whole (parseFenceSpans whole)) 0
      (ranges ++ (if o = first then [] else [⟨consumed, first - o + consumed⟩]) ++
        inner.map (Range.move o consumed)) (stopped - o + consumed) := by
    apply Gapped.append _ hinner
    split_ifs with heq
    · rw [List.append_nil, ← heq, Nat.sub_self, Nat.zero_add]
      exact h.gaps
    · apply h.gaps.append
      refine ⟨Nat.le_refl _, Between.self _ _, ?_, Nat.le_refl _, Between.self _ _⟩
      show consumed < first - o + consumed
      omega
  refine ⟨_, _, hall, ?_, ?_, ?_⟩
  · rw [List.map_append, List.flatten_append, h.contents, hmore, hslices, hhead, List.map_append,
      List.map_append, List.flatten_append, List.flatten_append, List.append_assoc]
    congr 2
    split_ifs with heq
    · rw [← heq, Nat.sub_self, Nat.zero_add, slice_self]
      rfl
    · exact (List.append_nil _).symm
  · have hback : o + (stopped - o) = stopped := by omega
    rw [Nat.add_comm, ← List.drop_drop, ← hcontent, List.drop_drop, hback]
  · omega

end CutFrom

section Drain

variable {chunking : BlockReplyChunking} {force : Bool} {chunker : Chunker}
  {text content : Utf16} {emissions : List Emission}

/-- A drain accounts for what the buffer has, and takes its chunks from where it is in the text. -/
theorem exists_accounts_drain {left : Option FenceSpan}
    (h : Accounts chunking chunker text emissions left content)
    (hshort : ∀ fence, (drain chunking force chunker.buffer).reopenFence = some fence →
      fence.openLine.length < chunking.maxChars.toNat) :
    ∃ emissions' content',
      Accounts chunking (chunker.call chunking (.drain force)) text emissions'
        (reopenedBy chunking force chunker.buffer left) content' ∧
      ∀ whole consumed ranges, text <+: whole → CutFrom whole text emissions content consumed ranges →
        FencesKnown whole text chunker.buffer left →
          ∃ consumed' ranges', CutFrom whole text emissions' content' consumed' ranges' := by
  obtain ⟨pieces, stopped, hrounds, htakes⟩ := exists_takes chunking force chunker.buffer
  -- by whether a fence was left open before the drain
  have hreopens := reopens_of_rounds hrounds hshort
  cases left with
  | none =>
    have hreopened : reopenedBy chunking force chunker.buffer none =
        (drain chunking force chunker.buffer).reopenFence := by
      unfold reopenedBy
      split_ifs with hnothing
      · rw [htakes.chunks, List.map_eq_nil_iff, List.map_eq_nil_iff] at hnothing
        have hlinked := htakes.linked
        rw [hnothing] at hlinked
        exact hlinked
      · rfl
    rw [hreopened]
    refine ⟨_, _, h.drain_plain htakes hreopens, fun whole consumed ranges hwhole hcut hknown => ?_⟩
    apply hcut.emit hwhole h.buffer (Nat.le_refl _) htakes.le_length htakes.gaps _ hknown
    rw [List.map_map, List.map_map]
    rfl
  | some fence =>
    rcases first_of_reopened (h.reopens fence rfl) h.buffer hrounds with
      ⟨rfl, hleft, rfl⟩ | ⟨stop, close, rest, rfl, hstop⟩
    · -- nothing is taken
      have hreopened : reopenedBy chunking force chunker.buffer (some fence) = some fence :=
        if_pos htakes.chunks
      have hbuffer : (drain chunking force chunker.buffer).buffer = chunker.buffer := by
        rw [Drained.buffer, hleft, htakes.rest]
        rfl
      rw [hreopened]
      refine ⟨emissions, content, ?_, fun whole consumed ranges _ hcut _ => ⟨_, _, hcut⟩⟩
      rw [Chunker.call, hbuffer, htakes.chunks]
      exact ⟨(List.append_nil _).trans h.emitted, h.buffer, h.linked, h.omits, h.reopens⟩
    · have hreopened : reopenedBy chunking force chunker.buffer (some fence) =
          (drain chunking force chunker.buffer).reopenFence := by
        unfold reopenedBy
        rw [htakes.chunks]
        exact if_neg (List.cons_ne_nil _ _)
      have hlength : (reopenPrefix (some fence)).length = fence.openLine.length + 1 :=
        List.length_append
      rw [hreopened]
      refine ⟨_, _, h.drain_reopened htakes hstop hreopens,
        fun whole consumed ranges hwhole hcut hknown => ?_⟩
      obtain ⟨-, -, -, hbehind⟩ := htakes.gaps
      apply hcut.emit hwhole h.buffer (hlength ▸ hstop) htakes.le_length hbehind _ hknown
      rw [hlength, List.map_cons, List.flatten_cons, List.map_map, List.map_map]
      rfl

end Drain

/-- The fences that the drains of a run leave open have opening lines in reach of a drain. -/
def ShortOpenings (chunking : BlockReplyChunking) (calls : List Call) : Prop :=
  ∀ before force fence, before ++ [.drain force] <+: calls →
    (drain chunking force (run chunking before).buffer).reopenFence = some fence →
      fence.openLine.length < chunking.maxChars.toNat

/-- Every drain of a run finds in its buffer the fenced code that a text has there. -/
def KnowsFences (chunking : BlockReplyChunking) (whole : Utf16) (calls : List Call) : Prop :=
  ∀ before force, before ++ [.drain force] <+: calls →
    FencesKnown whole (appended before) (run chunking before).buffer
      (traced chunking before).reopened

theorem exists_accounts_run {chunking : BlockReplyChunking} {calls : List Call}
    (h : ShortOpenings chunking calls) : ∃ emissions content,
      Accounts chunking (run chunking calls) (appended calls) emissions
        (traced chunking calls).reopened content ∧
      ∀ whole, appended calls <+: whole → KnowsFences chunking whole calls →
        ∃ consumed ranges, CutFrom whole (appended calls) emissions content consumed ranges := by
  induction calls using List.reverseRecOn with
  | nil =>
    refine ⟨[], [], ⟨rfl, rfl, rfl, .nil, fun _ hnone => (by cases hnone)⟩, fun whole _ _ => ?_⟩
    exact ⟨0, [], cutFrom_nil whole⟩
  | append_singleton calls call ih =>
    obtain ⟨emissions, content, haccounts, hcut⟩ := ih fun before force fence hbefore =>
      h before force fence (hbefore.trans (List.prefix_append _ _))
    have hknown : ∀ {whole}, KnowsFences chunking whole (calls ++ [call]) →
        KnowsFences chunking whole calls := fun hknows before force hbefore =>
      hknows before force (hbefore.trans (List.prefix_append _ _))
    rw [run_concat, traced_concat, appended_append]
    cases call with
    | append text =>
      have htext : appended [.append text] = text := List.append_nil text
      rw [htext]
      refine ⟨emissions, content ++ text, accounts_append haccounts text,
        fun whole hwhole hknows => ?_⟩
      obtain ⟨consumed, ranges, hp⟩ :=
        hcut whole ((List.prefix_append _ _).trans hwhole) (hknown hknows)
      exact ⟨consumed, ranges, hp.append text⟩
    | drain force =>
      have htext : appended calls ++ appended [.drain force] = appended calls := List.append_nil _
      rw [htext]
      obtain ⟨emissions', content', haccounts', hstep⟩ := exists_accounts_drain haccounts
        fun fence => h calls force fence (List.prefix_refl _)
      have hreopened : ((traced chunking calls).call chunking (.drain force)).reopened =
          reopenedBy chunking force (run chunking calls).buffer (traced chunking calls).reopened := by
        rw [← chunker_traced]
        rfl
      rw [hreopened]
      refine ⟨emissions', content', haccounts', fun whole hwhole hknows => ?_⟩
      obtain ⟨consumed, ranges, hp⟩ := hcut whole hwhole (hknown hknows)
      exact hstep whole consumed ranges hwhole hp (hknows calls force (List.prefix_refl _))

/-- The blanks that a text may miss outside of its own fenced code. -/
def MissesOutside (text kept : Utf16) : Prop :=
  ∃ ranges, Gapped (LeftOut text (parseFenceSpans text)) 0 ranges text.length ∧
    kept = (ranges.map fun range => slice text range.start range.stop).flatten

/-- Every drain leaves out blanks outside of fenced code only. A run that ends with a forced drain
has emitted its whole text, up to blanks and to the lines that close a fence and open it again; the
blanks are outside of the fenced code of the text if every drain finds that code in its buffer. -/
theorem chunker_accounts (chunking : BlockReplyChunking) :
    (∀ force buffer, ∃ pieces stopped, Takes chunking force buffer pieces stopped) ∧
    (∀ calls, ShortOpenings chunking calls → ∃ emissions left content,
      Accounts chunking (run chunking calls) (appended calls) emissions left content ∧
        ∀ whole, appended calls <+: whole → KnowsFences chunking whole calls →
          ∃ consumed ranges, CutFrom whole (appended calls) emissions content consumed ranges) ∧
    ∀ calls, (run chunking (calls ++ [.drain true])).buffer = [] ∧
      (ShortOpenings chunking (calls ++ [.drain true]) → ∃ emissions,
        (run chunking (calls ++ [.drain true])).emitted = emissions.map Emission.render ∧
          Linked none emissions none ∧
          Omits (fun c => isWhiteSpace c = true) (emissions.map Emission.content).flatten
            (appended calls) ∧
          (KnowsFences chunking (appended calls) (calls ++ [.drain true]) →
            MissesOutside (appended calls) (emissions.map Emission.content).flatten)) := by
  refine ⟨fun force buffer => ?_, fun calls hshort => ?_, fun calls => ?_⟩
  · obtain ⟨pieces, stopped, -, htakes⟩ := exists_takes chunking force buffer
    exact ⟨pieces, stopped, htakes⟩
  · obtain ⟨emissions, content, haccounts⟩ := exists_accounts_run hshort
    exact ⟨emissions, _, content, haccounts⟩
  have hempty : (run chunking (calls ++ [.drain true])).buffer = [] := by
    rw [run_concat]
    exact forced_buffer chunking _
  refine ⟨hempty, fun hshort => ?_⟩
  obtain ⟨emissions, content, haccounts, hcut⟩ := exists_accounts_run hshort
  generalize (traced chunking (calls ++ [.drain true])).reopened = left at haccounts
  obtain ⟨hnone, hcontent⟩ := List.append_eq_nil_iff.mp (haccounts.buffer.symm.trans hempty)
  have htext : appended (calls ++ [.drain true]) = appended calls :=
    (appended_append calls _).trans (List.append_nil _)
  have homits := haccounts.omits
  rw [hcontent, List.append_nil, htext] at homits
  rw [htext] at hcut
  refine ⟨emissions, haccounts.emitted, ?_, homits, fun hknows => ?_⟩
  · have hlinked := haccounts.linked
    cases left with
    | none => exact hlinked
    | some fence => exact absurd hnone (List.append_ne_nil_of_right_ne_nil _ (List.cons_ne_nil _ _))
  · obtain ⟨consumed, ranges, hp⟩ := hcut _ (List.prefix_refl _) hknows
    have hend : consumed = (appended calls).length := by
      apply Nat.le_antisymm hp.le_length
      exact List.drop_eq_nil_iff.mp (hp.rest.symm.trans hcontent)
    exact ⟨ranges, hend ▸ hp.gaps, hp.contents⟩

/-- A fence that is split in one drain and ends in another. -/
def splitRun : List Call := [.append (ofString "say:\n\n```\na b\n\n c d e f"), .drain false,
  .append (ofString " g\n```\n\nend")]

theorem chunker_accounts_sample : ∃ emissions : List Emission,
    (run ⟨4, 14, none, false⟩ (splitRun ++ [.drain true])).emitted = emissions.map Emission.render ∧
      Linked none emissions none ∧
      Omits (fun c => isWhiteSpace c = true) (emissions.map Emission.content).flatten
        (appended splitRun) ∧
      MissesOutside (appended splitRun) (emissions.map Emission.content).flatten := by
  have hdrains : ∀ before force, before ++ [.drain force] <+: splitRun ++ [.drain true] →
      before ∈ [splitRun.take 1, splitRun] ∧ force ∈ [false, true] := by
    intro before force hbefore
    rcases before with _ | ⟨first, _ | ⟨second, _ | ⟨third, _ | ⟨fourth, rest⟩⟩⟩⟩ <;>
      simp_all [splitRun]
  obtain ⟨emissions, hemitted, hlinked, homits, hmisses⟩ :=
    ((chunker_accounts ⟨4, 14, none, false⟩).2.2 splitRun).2 fun before force fence hbefore hleft => by
      obtain ⟨hbefore, hforce⟩ := hdrains before force hbefore
      have hall : ∀ calls ∈ [splitRun.take 1, splitRun], ∀ force ∈ [false, true],
          ((drain ⟨4, 14, none, false⟩ force (run ⟨4, 14, none, false⟩ calls).buffer).reopenFence.all
            fun fence => fence.openLine.length < 14) = true := by
        decide +kernel
      have hshort := hall before hbefore force hforce
      rw [hleft] at hshort
      exact of_decide_eq_true hshort
  refine ⟨emissions, hemitted, hlinked, homits, hmisses fun before force hbefore => ?_⟩
  have hall : ∀ calls ∈ [splitRun.take 1, splitRun], FencesKnown (appended splitRun)
      (appended calls) (run ⟨4, 14, none, false⟩ calls).buffer
      (traced ⟨4, 14, none, false⟩ calls).reopened := by
    decide +kernel
  exact hall before (hdrains before force hbefore).1

theorem Emission.length_contents_le (emissions : List Emission) :
    (emissions.map Emission.content).flatten.length ≤
      (emissions.map Emission.render).flatten.length := by
  induction emissions with
  | nil => exact Nat.le_refl _
  | cons emission emissions ih =>
    have hcontent : emission.content.length ≤ emission.render.length := by
      apply List.Sublist.length_le
      rw [Emission.render]
      cases emission.close with
      | none => exact List.sublist_append_right _ _
      | some fence =>
        show emission.content.Sublist (closedChunk _ fence)
        rw [closedChunk]
        split_ifs
        · exact (List.sublist_append_right _ _).trans (List.sublist_append_left _ _)
        · exact (List.sublist_append_right _ _).trans (List.sublist_append_left _ _)
    rw [List.map_cons, List.map_cons, List.flatten_cons, List.flatten_cons, List.length_append,
      List.length_append]
    exact Nat.add_le_add hcontent ih

/-- A forced drain in a fence forgets the fence: the blank of code behind it is dropped. -/
theorem forced_drain_drops_code :
    ¬∀ (chunking : BlockReplyChunking) (calls : List Call), ∃ emissions : List Emission,
      (run chunking (calls ++ [.drain true])).emitted = emissions.map Emission.render ∧
        MissesOutside (appended (calls ++ [.drain true]))
          (emissions.map Emission.content).flatten := by
  intro hclaim
  obtain ⟨emissions, hemitted, ranges, hgapped, hkept⟩ := hclaim ⟨1, 100, none, false⟩
    [.append (ofString "```\n"), .drain true, .append (ofString " "), .drain true,
      .append (ofString "a\n```")]
  have htext : appended ([.append (ofString "```\n"), .drain true, .append (ofString " "),
      .drain true, .append (ofString "a\n```")] ++ [.drain true]) = ofString "```\n a\n```" := rfl
  rw [htext] at hgapped hkept
  have hcode : ∃ span ∈ parseFenceSpans (ofString "```\n a\n```"),
      span.start + span.indent.length = 0 ∧ span.stop = 10 := by
    decide +kernel
  obtain ⟨span, hmem, hstart, hstop⟩ := hcode
  -- the whole text is in one fence, so that nothing may be missing
  have homits := hgapped.omits (l := ofString "```\n a\n```") (p := fun _ => False)
    fun i c hleft hc => hleft.2 span hmem
      ⟨by omega, hstop.symm ▸ (List.getElem?_eq_some_iff.mp hc).1⟩
  have hwhole := homits.eq_of_forall fun _ _ h => h
  rw [← hkept, slice_zero_length] at hwhole
  have hshorter := Emission.length_contents_le emissions
  rw [hwhole, ← hemitted] at hshorter
  revert hshorter
  decide +kernel

end Flashclaw.Agents
