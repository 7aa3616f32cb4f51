import Flashclaw.Agents.BlockPieces

/-!
# Runs of a chunker

Text is appended to the buffer and the buffer is drained, in any order. The chunks and the buffer
account for the whole text, up to blanks and to the lines that close a fence and open it again.
-/

namespace Flashclaw.Agents

open Utf16 Ranges MarkdownCore Omission

inductive Call where
  | append (text : Utf16)
  | drain (force : Bool)
deriving DecidableEq

structure Chunker where
  buffer : Utf16
  emitted : List Utf16

def Chunker.call (chunking : BlockReplyChunking) (chunker : Chunker) : Call → Chunker
  | .append text => { chunker with buffer := chunker.buffer ++ text }
  | .drain force =>
    let drained := drain chunking force chunker.buffer
    ⟨drained.buffer, chunker.emitted ++ drained.chunks⟩

def run (chunking : BlockReplyChunking) (calls : List Call) : Chunker :=
  calls.foldl (Chunker.call chunking) ⟨[], []⟩

/-- The text of a run. -/
def appended : List Call → Utf16
  | [] => []
  | .append text :: calls => text ++ appended calls
  | .drain _ :: calls => appended calls

theorem run_concat (chunking : BlockReplyChunking) (calls : List Call) (call : Call) :
    run chunking (calls ++ [call]) = (run chunking calls).call chunking call := by
  rw [run, List.foldl_concat, ← run]

theorem appended_append (calls more : List Call) :
    appended (calls ++ more) = appended calls ++ appended more := by
  induction calls with
  | nil => rfl
  | cons call calls ih =>
    cases call with
    | append text =>
      show text ++ appended (calls ++ more) = text ++ appended calls ++ appended more
      rw [ih, List.append_assoc]
    | drain force => exact ih

/-- A fence whose opening line opens a fence again, in reach of a drain. -/
structure Reopens (chunking : BlockReplyChunking) (fence : FenceSpan) : Prop where
  matched : ∃ trailing, matchFence fence.openLine = some ⟨fence.indent, fence.marker, trailing⟩
  reach : fence.openLine.length < chunking.maxChars.toNat

/-- The chunks and the buffer of a chunker, taken apart. -/
structure Accounts (chunking : BlockReplyChunking) (chunker : Chunker) (text : Utf16)
    (emissions : List Emission) (left : Option FenceSpan) (content : Utf16) : Prop where
  emitted : chunker.emitted = emissions.map Emission.render
  buffer : chunker.buffer = reopenPrefix left ++ content
  linked : Linked none emissions left
  omits : Omits (fun c => isWhiteSpace c = true)
    ((emissions.map Emission.content).flatten ++ content) text
  reopens : ∀ fence, left = some fence → Reopens chunking fence

section Accounts

variable {chunking : BlockReplyChunking} {chunker : Chunker} {text content : Utf16}
  {emissions : List Emission} {left : Option FenceSpan}

theorem accounts_append (h : Accounts chunking chunker text emissions left content)
    (more : Utf16) :
    Accounts chunking (chunker.call chunking (.append more)) (text ++ more) emissions left
      (content ++ more) where
  emitted := h.emitted
  buffer := by
    show chunker.buffer ++ more = _
    rw [h.buffer, List.append_assoc]
  linked := h.linked
  omits := by
    rw [← List.append_assoc]
    exact h.omits.append (Omits.refl _ more)
  reopens := h.reopens

theorem Linked.append {middle final : Option FenceSpan} {emissions more : List Emission}
    {reopened : Option FenceSpan} (h : Linked reopened emissions middle)
    (h' : Linked middle more final) : Linked reopened (emissions ++ more) final := by
  induction emissions generalizing reopened with
  | nil =>
    obtain rfl : reopened = middle := h
    exact h'
  | cons emission emissions ih => exact ⟨h.1, ih h.2⟩

/-- More chunks that account for what the buffer has. -/
theorem Accounts.emit (h : Accounts chunking chunker text emissions left content)
    {more : List Emission} {left' : Option FenceSpan} {content' buffer : Utf16}
    (hbuffer : buffer = reopenPrefix left' ++ content') (hlinked : Linked left more left')
    (homits : Omits (fun c => isWhiteSpace c = true)
      ((more.map Emission.content).flatten ++ content') content)
    (hreopens : ∀ fence, left' = some fence → Reopens chunking fence) :
    Accounts chunking ⟨buffer, chunker.emitted ++ more.map Emission.render⟩ text
      (emissions ++ more) left' content' where
  emitted := by
    rw [h.emitted, List.map_append]
  buffer := hbuffer
  linked := h.linked.append hlinked
  omits := by
    rw [List.map_append, List.flatten_append, List.append_assoc]
    exact ((Omits.refl _ _).append homits).trans h.omits
  reopens := hreopens

end Accounts

/-- What a drain takes from the buffer. -/
structure Takes (chunking : BlockReplyChunking) (force : Bool) (buffer : Utf16)
    (pieces : List Piece) (stopped : ℕ) : Prop where
  chunks : (drain chunking force buffer).chunks =
    (pieces.map (Piece.emission buffer)).map Emission.render
  rest : (drain chunking force buffer).rest = buffer.drop stopped
  le_length : stopped ≤ buffer.length
  gaps : Gapped (LeftOut buffer (parseFenceSpans buffer)) 0 (pieces.map Piece.range) stopped
  linked : Linked none (pieces.map (Piece.emission buffer))
    (drain chunking force buffer).reopenFence
  splits : ∀ piece ∈ pieces, SplitIn (parseFenceSpans buffer) piece

theorem exists_takes (chunking : BlockReplyChunking) (force : Bool) (buffer : Utf16) :
    ∃ pieces stopped,
      Rounds buffer (parseFenceSpans buffer) chunking.maxChars.toNat none 0 pieces
        (drain chunking force buffer).reopenFence stopped ∧
      Takes chunking force buffer pieces stopped := by
  obtain ⟨pieces, stopped, hrounds, hchunks, hrest⟩ := exists_rounds_drain chunking force buffer
  refine ⟨pieces, stopped, hrounds, ?_, hrest, stopped_le_of_rounds hrounds, ?_,
    linked_of_rounds hrounds, splitIn_of_rounds hrounds⟩
  · rw [hchunks, List.map_map]
    rfl
  · exact @gapped_of_rounds (FencedText.parse buffer) _ _ _ _ _ _ hrounds
      fun _ span _ => .inl (Nat.zero_le _)

section Drain

variable {chunking : BlockReplyChunking} {force : Bool} {buffer : Utf16}

theorem Emission.render_congr {emission emission' : Emission}
    (hraw : reopenPrefix emission.reopen ++ emission.content =
      reopenPrefix emission'.reopen ++ emission'.content)
    (hclose : emission.close = emission'.close) : emission.render = emission'.render := by
  rw [Emission.render, Emission.render, hraw, hclose]

/-- The pieces of a drain are the buffer without some blanks. -/
theorem omits_of_gapped {fenceSpans : List FenceSpan} {ranges : List Range} {start stopped : ℕ}
    (h : Gapped (LeftOut buffer fenceSpans) start ranges stopped) (hle : stopped ≤ buffer.length) :
    Omits (fun c => isWhiteSpace c = true)
      ((ranges.map fun range => slice buffer range.start range.stop).flatten ++
        buffer.drop stopped) (buffer.drop start) := by
  have homits := h.omits (l := buffer) (p := fun c => isWhiteSpace c = true) fun i c hleft hc => by
    have hblank := hleft.1
    rwa [BlankAt, hc, Option.any_some] at hblank
  have hwhole : slice buffer start stopped ++ buffer.drop stopped = buffer.drop start := by
    rw [← slice_of_length_le (Nat.le_refl buffer.length),
      ← slice_of_length_le (Nat.le_refl buffer.length)]
    exact slice_append_slice h.le hle
  rw [← hwhole]
  exact homits.append (Omits.refl _ _)

/-- The first piece of a buffer that starts with an opening line. -/
theorem first_of_reopened {fence : FenceSpan} {content : Utf16} (hreopens : Reopens chunking fence)
    (hbuffer : buffer = reopenPrefix (some fence) ++ content) {pieces : List Piece}
    {left : Option FenceSpan} {stopped : ℕ}
    (h : Rounds buffer (parseFenceSpans buffer) chunking.maxChars.toNat none 0 pieces left
      stopped) :
    pieces = [] ∧ left = none ∧ stopped = 0 ∨
      ∃ stop close rest, pieces = ⟨none, ⟨0, stop⟩, close⟩ :: rest ∧
        fence.openLine.length + 1 ≤ stop := by
  obtain ⟨trailing, hmatched⟩ := hreopens.matched
  have hline : buffer = fence.openLine ++ NEWLINE :: content := by
    rw [hbuffer, List.append_cons]
    rfl
  obtain ⟨span, hmem, hstart, hcode, hstop⟩ := exists_span_of_openLine hmatched content
  rw [← hline] at hmem
  apply @first_of_rounds (FencedText.parse buffer) _ _ _ _ _ h span hmem hstart hcode hstop
    hreopens.reach
  show buffer[fence.openLine.length + 1 - 1]? = some NEWLINE
  rw [hline, Nat.add_sub_cancel, List.getElem?_append_right (Nat.le_refl _), Nat.sub_self]
  rfl

theorem reopens_of_rounds {pieces : List Piece} {left : Option FenceSpan} {stopped : ℕ}
    (h : Rounds buffer (parseFenceSpans buffer) chunking.maxChars.toNat none 0 pieces left stopped)
    (hshort : ∀ fence, left = some fence → fence.openLine.length < chunking.maxChars.toNat) :
    ∀ fence, left = some fence → Reopens chunking fence := by
  intro fence hleft
  have hmem := left_of_rounds h (fun _ hnone => by cases hnone) fence hleft
  exact ⟨(spanOf_parseFenceSpans buffer fence hmem).opens.matched, hshort fence hleft⟩

/-- A drain of a buffer that starts with no opening line of an earlier one. -/
theorem Accounts.drain_plain {chunker : Chunker} {text content : Utf16}
    {emissions : List Emission} {pieces : List Piece} {stopped : ℕ}
    (h : Accounts chunking chunker text emissions none content)
    (htakes : Takes chunking force chunker.buffer pieces stopped)
    (hreopens : ∀ fence, (drain chunking force chunker.buffer).reopenFence = some fence →
      Reopens chunking fence) :
    Accounts chunking (chunker.call chunking (.drain force)) text
      (emissions ++ pieces.map (Piece.emission chunker.buffer))
      (drain chunking force chunker.buffer).reopenFence (chunker.buffer.drop stopped) := by
  have hcontent : chunker.buffer = content := h.buffer
  have homits := omits_of_gapped htakes.gaps htakes.le_length
  rw [List.map_map, List.drop_zero] at homits
  have hemit := @Accounts.emit _ _ _ _ _ _ h (pieces.map (Piece.emission chunker.buffer))
    (drain chunking force chunker.buffer).reopenFence (chunker.buffer.drop stopped)
    (drain chunking force chunker.buffer).buffer (by rw [Drained.buffer, htakes.rest]) htakes.linked
    (by rw [List.map_map, ← hcontent]; exact homits) hreopens
  rwa [← htakes.chunks] at hemit

/-- The first chunk of a drain has the opening line that an earlier drain has left. -/
theorem Accounts.drain_reopened {chunker : Chunker} {text content : Utf16}
    {emissions : List Emission} {fence : FenceSpan} {stop stopped : ℕ} {close : Option FenceSpan}
    {rest : List Piece} (h : Accounts chunking chunker text emissions (some fence) content)
    (htakes : Takes chunking force chunker.buffer (⟨none, ⟨0, stop⟩, close⟩ :: rest) stopped)
    (hstop : fence.openLine.length + 1 ≤ stop)
    (hreopens : ∀ fence, (drain chunking force chunker.buffer).reopenFence = some fence →
      Reopens chunking fence) :
    Accounts chunking (chunker.call chunking (.drain force)) text
      (emissions ++
        ⟨some fence, slice chunker.buffer (fence.openLine.length + 1) stop, close⟩ ::
          rest.map (Piece.emission chunker.buffer))
      (drain chunking force chunker.buffer).reopenFence (chunker.buffer.drop stopped) := by
  have hlength : (reopenPrefix (some fence)).length = fence.openLine.length + 1 :=
    List.length_append
  have hfront : slice chunker.buffer 0 (fence.openLine.length + 1) = reopenPrefix (some fence) := by
    rw [h.buffer, ← hlength]
    exact List.take_left
  have hcontent : chunker.buffer.drop (fence.openLine.length + 1) = content := by
    rw [h.buffer, ← hlength]
    exact List.drop_left
  obtain ⟨-, -, -, hbehind⟩ := htakes.gaps
  obtain ⟨-, hnext⟩ := htakes.linked
  have hrest := omits_of_gapped hbehind htakes.le_length
  -- The first chunk starts with the reopened line, which is no part of the content.
  have hhead : (Piece.emission chunker.buffer ⟨none, ⟨0, stop⟩, close⟩).render =
      (Emission.mk (some fence) (slice chunker.buffer (fence.openLine.length + 1) stop)
        close).render := by
    refine Emission.render_congr ?_ rfl
    show reopenPrefix none ++ slice chunker.buffer 0 stop = _
    rw [← hfront, slice_append_slice (Nat.zero_le _) hstop]
    rfl
  have homits : Omits (fun c => isWhiteSpace c = true)
      ((slice chunker.buffer (fence.openLine.length + 1) stop ++
        ((rest.map (Piece.emission chunker.buffer)).map Emission.content).flatten) ++
        chunker.buffer.drop stopped) content := by
    have hsplit : slice chunker.buffer (fence.openLine.length + 1) stop ++
        chunker.buffer.drop stop = content := by
      rw [← hcontent, ← slice_of_length_le (Nat.le_refl chunker.buffer.length),
        ← slice_of_length_le (Nat.le_refl chunker.buffer.length)]
      exact slice_append_slice hstop (hbehind.le.trans htakes.le_length)
    rw [← hsplit, List.append_assoc]
    apply (Omits.refl _ _).append
    rw [List.map_map]
    rw [List.map_map] at hrest
    exact hrest
  have hemit := @Accounts.emit _ _ _ _ _ _ h
    (⟨some fence, slice chunker.buffer (fence.openLine.length + 1) stop, close⟩ ::
      rest.map (Piece.emission chunker.buffer))
    (drain chunking force chunker.buffer).reopenFence (chunker.buffer.drop stopped)
    (drain chunking force chunker.buffer).buffer (by rw [Drained.buffer, htakes.rest])
    ⟨rfl, hnext⟩ homits hreopens
  rwa [List.map_cons, ← hhead, ← List.map_cons, ← List.map_cons, ← htakes.chunks] at hemit

end Drain

end Flashclaw.Agents
