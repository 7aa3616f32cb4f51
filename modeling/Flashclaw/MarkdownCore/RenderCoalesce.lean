import Flashclaw.MarkdownCore.RenderLimit

/-!
# Rendered chunks: blank chunks

Blank chunks go to a neighbour, or to both, and are left out where neither has room for them.
-/

namespace Flashclaw.MarkdownCore

open Utf16 Ranges Omission

def mergeAdjacentStyle (last span : MarkdownStyleSpan) : Option MarkdownStyleSpan :=
  if last.style = span.style ∧ last.language = span.language ∧ span.start ≤ last.stop then
    some { last with stop := max last.stop span.stop }
  else none

def mergeAdjacentStyleSpans (styles : List MarkdownStyleSpan) : List MarkdownStyleSpan :=
  mergeAdjacent mergeAdjacentStyle styles

def mergeAdjacentLink (last link : MarkdownLinkSpan) : Option MarkdownLinkSpan :=
  if last.href = link.href ∧ last.autoLinked = link.autoLinked ∧ link.start ≤ last.stop then
    some { last with stop := max last.stop link.stop }
  else none

def mergeAdjacentLinkSpans (links : List MarkdownLinkSpan) : List MarkdownLinkSpan :=
  mergeAdjacent mergeAdjacentLink links

def mergeMarkdownIRChunks (left right : MarkdownIR) : MarkdownIR :=
  let offset := left.text.length
  let shiftedAnnotations := (right.annotations.getD []).map fun annotation =>
    { annotation with start := annotation.start + offset, stop := annotation.stop + offset }
  let shiftedStyles := right.styles.map fun span =>
    { span with start := span.start + offset, stop := span.stop + offset }
  let shiftedLinks := right.links.map fun link =>
    { link with start := link.start + offset, stop := link.stop + offset }
  { text := left.text ++ right.text
    styles := mergeAdjacentStyleSpans (left.styles ++ shiftedStyles)
    links := mergeAdjacentLinkSpans (left.links ++ shiftedLinks)
    annotations :=
      present (mergeAnnotationSpans (left.annotations.getD [] ++ shiftedAnnotations)) }

theorem text_merge (left right : MarkdownIR) :
    (mergeMarkdownIRChunks left right).text = left.text ++ right.text := rfl

section Rendering

variable {TRendered Size : Type*} [LE Size] [DecidableLE Size] [NatCast Size]

/-- The longest part of a blank chunk that goes to the chunk before it, with the rest behind. -/
def shareBlank (options : RenderResolver TRendered Size) (renderedLimit : ℕ)
    (prev chunk next : MarkdownIR) : ℕ → Option (MarkdownIR × MarkdownIR)
  | 0 => none
  | prefixLength + 1 =>
    let mergedPrev := mergeMarkdownIRChunks prev (sliceMarkdownIR chunk 0 (prefixLength + 1))
    let mergedNext := mergeMarkdownIRChunks
      (sliceMarkdownIR chunk (prefixLength + 1) chunk.text.length) next
    if options.fits renderedLimit mergedPrev && options.fits renderedLimit mergedNext then
      some (mergedPrev, mergedNext)
    else shareBlank options renderedLimit prev chunk next prefixLength

/-- The last chunk so far takes a blank chunk. -/
def mergePrev (options : RenderResolver TRendered Size) (renderedLimit : ℕ)
    (coalesced : List MarkdownIR) (chunk : MarkdownIR) : Option MarkdownIR :=
  (coalesced.getLast?.map fun prev => mergeMarkdownIRChunks prev chunk).filter
    (options.fits renderedLimit)

/-- The next chunk takes a blank chunk. -/
def mergeNext (options : RenderResolver TRendered Size) (renderedLimit : ℕ)
    (chunk : MarkdownIR) (chunks : List MarkdownIR) : Option MarkdownIR :=
  (chunks.head?.map fun next => mergeMarkdownIRChunks chunk next).filter
    (options.fits renderedLimit)

/-- The chunks on both sides share a blank chunk. -/
def mergeBoth (options : RenderResolver TRendered Size) (renderedLimit : ℕ)
    (coalesced : List MarkdownIR) (chunk : MarkdownIR) (chunks : List MarkdownIR) :
    Option (MarkdownIR × MarkdownIR) :=
  coalesced.getLast?.bind fun prev => chunks.head?.bind fun next =>
    shareBlank options renderedLimit prev chunk next (chunk.text.length - 1)

section Merged

variable {options : RenderResolver TRendered Size} {renderedLimit : ℕ}
  {coalesced chunks : List MarkdownIR} {chunk merged : MarkdownIR}

theorem of_mergePrev (h : mergePrev options renderedLimit coalesced chunk = some merged) :
    ∃ front prev, coalesced = front ++ [prev] ∧ merged = mergeMarkdownIRChunks prev chunk ∧
      options.fits renderedLimit merged = true := by
  obtain ⟨hmerged, hfits⟩ := Option.filter_eq_some_iff.mp h
  obtain ⟨prev, hprev, rfl⟩ := Option.map_eq_some_iff.mp hmerged
  obtain ⟨front, rfl⟩ := List.getLast?_eq_some_iff.mp hprev
  exact ⟨front, prev, rfl, rfl, hfits⟩

theorem of_mergeNext (h : mergeNext options renderedLimit chunk chunks = some merged) :
    ∃ next rest, chunks = next :: rest ∧ merged = mergeMarkdownIRChunks chunk next ∧
      options.fits renderedLimit merged = true := by
  obtain ⟨hmerged, hfits⟩ := Option.filter_eq_some_iff.mp h
  obtain ⟨next, hnext, rfl⟩ := Option.map_eq_some_iff.mp hmerged
  obtain ⟨rest, rfl⟩ := List.head?_eq_some_iff.mp hnext
  exact ⟨next, rest, rfl, rfl, hfits⟩

/-- Neighbours that have taken a blank chunk between them. -/
structure Shared (options : RenderResolver TRendered Size) (renderedLimit : ℕ)
    (prev chunk next : MarkdownIR) (merged : MarkdownIR × MarkdownIR) : Prop where
  text : merged.1.text ++ merged.2.text = prev.text ++ (chunk.text ++ next.text)
  fits_prev : options.fits renderedLimit merged.1 = true
  fits_next : options.fits renderedLimit merged.2 = true

theorem of_shareBlank {prev next : MarkdownIR} {merged : MarkdownIR × MarkdownIR} {k : ℕ}
    (hk : k ≤ chunk.text.length)
    (h : shareBlank options renderedLimit prev chunk next k = some merged) :
    Shared options renderedLimit prev chunk next merged := by
  induction k with
  | zero => cases h
  | succ k ih =>
    rw [shareBlank] at h
    split_ifs at h with hfits
    · obtain rfl := Option.some.inj h
      obtain ⟨hprev, hnext⟩ := (Bool.and_eq_true _ _).mp hfits
      refine ⟨?_, hprev, hnext⟩
      show (prev.text ++ slice chunk.text 0 (k + 1)) ++
        (slice chunk.text (k + 1) chunk.text.length ++ next.text) = _
      rw [List.append_assoc, ← List.append_assoc (slice chunk.text 0 (k + 1)),
        slice_append_slice (Nat.zero_le _) hk, slice_zero_length]
    · exact ih ((Nat.le_succ k).trans hk) h

theorem of_mergeBoth {both : MarkdownIR × MarkdownIR}
    (h : mergeBoth options renderedLimit coalesced chunk chunks = some both) :
    ∃ front prev next rest, coalesced = front ++ [prev] ∧ chunks = next :: rest ∧
      Shared options renderedLimit prev chunk next both := by
  obtain ⟨prev, hprev, hrest⟩ := Option.bind_eq_some_iff.mp h
  obtain ⟨next, hnext, hshare⟩ := Option.bind_eq_some_iff.mp hrest
  obtain ⟨front, rfl⟩ := List.getLast?_eq_some_iff.mp hprev
  obtain ⟨rest, rfl⟩ := List.head?_eq_some_iff.mp hnext
  exact ⟨front, prev, next, rest, rfl, rfl, of_shareBlank (Nat.sub_le _ _) hshare⟩

end Merged

/-- The loop of `coalesceWhitespaceOnlyMarkdownIRChunks`. -/
def coalesceFrom (options : RenderResolver TRendered Size) (renderedLimit : ℕ)
    (coalesced : List MarkdownIR) (chunks : List MarkdownIR) : List MarkdownIR :=
  match chunks with
  | [] => coalesced
  | chunk :: rest =>
    if (trim chunk.text).length > 0 then
      coalesceFrom options renderedLimit (coalesced ++ [chunk]) rest
    else
      match mergePrev options renderedLimit coalesced chunk with
      | some mergedPrev =>
        coalesceFrom options renderedLimit (coalesced.dropLast ++ [mergedPrev]) rest
      | none =>
        match _hnext : mergeNext options renderedLimit chunk rest with
        | some mergedNext =>
          coalesceFrom options renderedLimit coalesced (mergedNext :: rest.tail)
        | none =>
          match _hboth : mergeBoth options renderedLimit coalesced chunk rest with
          | some (mergedPrev, mergedNext) =>
            coalesceFrom options renderedLimit (coalesced.dropLast ++ [mergedPrev])
              (mergedNext :: rest.tail)
          | none => coalesceFrom options renderedLimit coalesced rest
termination_by chunks.length
decreasing_by
  · exact Nat.lt_succ_self _
  · exact Nat.lt_succ_self _
  · obtain ⟨next, rest, rfl, -⟩ := of_mergeNext _hnext
    exact Nat.lt_succ_self _
  · obtain ⟨front, prev, next, rest, -, rfl, -⟩ := of_mergeBoth _hboth
    exact Nat.lt_succ_self _
  · exact Nat.lt_succ_self _

def texts (chunks : List MarkdownIR) : Utf16 := (chunks.map MarkdownIR.text).flatten

theorem texts_cons (chunk : MarkdownIR) (chunks : List MarkdownIR) :
    texts (chunk :: chunks) = chunk.text ++ texts chunks := by
  rw [texts, List.map_cons, List.flatten_cons]
  rfl

theorem texts_append (chunks more : List MarkdownIR) :
    texts (chunks ++ more) = texts chunks ++ texts more := by
  rw [texts, List.map_append, List.flatten_append]
  rfl

theorem texts_singleton (chunk : MarkdownIR) : texts [chunk] = chunk.text :=
  List.flatten_singleton

/-- Without some blanks. -/
def OmitsBlanks (kept whole : Utf16) : Prop := Omits (fun c => isWhiteSpace c = true) kept whole

theorem blank_of_trim {text : Utf16} (h : ¬(trim text).length > 0) :
    ∀ c ∈ text, isWhiteSpace c = true := by
  have hnil : trim text = [] := List.length_eq_zero_iff.mp (Nat.eq_zero_of_not_pos h)
  intro c hc
  rw [← List.takeWhile_append_dropWhile (p := isWhiteSpace) (l := text)] at hc
  rcases List.mem_append.mp hc with hc | hc
  · exact List.mem_takeWhile_imp hc
  · exact List.rdropWhile_eq_nil_iff.mp hnil c hc

section Coalesce

variable {options : RenderResolver TRendered Size} {renderedLimit : ℕ}

theorem settled_concat {coalesced : List MarkdownIR} {chunk : MarkdownIR}
    (h : ∀ chunk ∈ coalesced, Settled options renderedLimit chunk)
    (hchunk : Settled options renderedLimit chunk) :
    ∀ other ∈ coalesced ++ [chunk], Settled options renderedLimit other := by
  intro other hother
  rcases List.mem_append.mp hother with hother | hother
  · exact h other hother
  · rw [List.mem_singleton.mp hother]
    exact hchunk

/-- Only blanks are left out, and each chunk stays settled. -/
theorem coalesceFrom_spec (coalesced chunks : List MarkdownIR)
    (hcoalesced : ∀ chunk ∈ coalesced, Settled options renderedLimit chunk)
    (hchunks : ∀ chunk ∈ chunks, Settled options renderedLimit chunk) :
    OmitsBlanks (texts (coalesceFrom options renderedLimit coalesced chunks))
        (texts coalesced ++ texts chunks) ∧
      ∀ chunk ∈ coalesceFrom options renderedLimit coalesced chunks,
        Settled options renderedLimit chunk := by
  induction coalesced, chunks using coalesceFrom.induct options renderedLimit with
  | case1 coalesced =>
    rw [coalesceFrom]
    refine ⟨?_, hcoalesced⟩
    show Omits _ _ (texts coalesced ++ [])
    rw [List.append_nil]
    exact .refl _ _
  | case2 coalesced chunk rest htrim ih =>
    obtain ⟨hchunk, hrest⟩ := List.forall_mem_cons.mp hchunks
    have h := ih (settled_concat hcoalesced hchunk) hrest
    rw [coalesceFrom, if_pos htrim, texts_cons, ← List.append_assoc, ← texts_singleton,
      ← texts_append]
    exact h
  | case3 coalesced chunk rest htrim merged hprev ih =>
    obtain ⟨-, hrest⟩ := List.forall_mem_cons.mp hchunks
    rw [coalesceFrom, if_neg htrim, hprev]
    obtain ⟨front, prev, rfl, rfl, hfits⟩ := of_mergePrev hprev
    rw [List.dropLast_concat] at ih ⊢
    have h := ih (settled_concat (fun other hother =>
      hcoalesced other (List.mem_append_left _ hother)) (.inl hfits)) hrest
    have htexts : texts (front ++ [mergeMarkdownIRChunks prev chunk]) ++ texts rest =
        texts (front ++ [prev]) ++ texts (chunk :: rest) := by
      rw [texts_append, texts_append, texts_singleton, texts_singleton, texts_cons, text_merge,
        List.append_assoc, List.append_assoc, List.append_assoc]
    rw [← htexts]
    exact h
  | case4 coalesced chunk rest htrim hprev merged hnext ih =>
    obtain ⟨-, hrest⟩ := List.forall_mem_cons.mp hchunks
    rw [coalesceFrom, if_neg htrim, hprev]
    dsimp only
    rw [hnext]
    obtain ⟨next, rest, rfl, rfl, hfits⟩ := of_mergeNext hnext
    have h := ih hcoalesced (List.forall_mem_cons.mpr
      ⟨.inl hfits, (List.forall_mem_cons.mp hrest).2⟩)
    have htexts : texts (mergeMarkdownIRChunks chunk next :: rest) =
        texts (chunk :: next :: rest) := by
      rw [texts_cons, texts_cons, texts_cons, text_merge, List.append_assoc]
    rw [← htexts]
    exact h
  | case5 coalesced chunk rest htrim hprev hnext mergedPrev mergedNext hboth ih =>
    obtain ⟨-, hrest⟩ := List.forall_mem_cons.mp hchunks
    rw [coalesceFrom, if_neg htrim, hprev]
    dsimp only
    rw [hnext]
    dsimp only
    rw [hboth]
    obtain ⟨front, prev, next, rest, rfl, rfl, hshared⟩ := of_mergeBoth hboth
    rw [List.dropLast_concat] at ih
    have h := ih (settled_concat (fun other hother =>
        hcoalesced other (List.mem_append_left _ hother)) (.inl hshared.fits_prev))
      (List.forall_mem_cons.mpr ⟨.inl hshared.fits_next, (List.forall_mem_cons.mp hrest).2⟩)
    have htexts : texts (front ++ [mergedPrev]) ++ texts (mergedNext :: rest) =
        texts (front ++ [prev]) ++ texts (chunk :: next :: rest) := by
      have hmiddle := congrArg (fun text => texts front ++ text ++ texts rest) hshared.text
      rw [texts_append, texts_append, texts_singleton, texts_singleton, texts_cons, texts_cons,
        texts_cons]
      simpa only [List.append_assoc] using hmiddle
    rw [← htexts]
    dsimp only
    rw [List.dropLast_concat]
    exact h
  | case6 coalesced chunk rest htrim hprev hnext hboth ih =>
    obtain ⟨-, hrest⟩ := List.forall_mem_cons.mp hchunks
    obtain ⟨homits, hsettled⟩ := ih hcoalesced hrest
    rw [coalesceFrom, if_neg htrim, hprev]
    dsimp only
    rw [hnext]
    dsimp only
    rw [hboth]
    refine ⟨homits.trans ?_, hsettled⟩
    -- the blank chunk is left out
    rw [texts_cons]
    exact (Omits.refl _ (texts coalesced)).append
      ((Omits.of_forall (blank_of_trim htrim)).append (.refl _ (texts rest)))

end Coalesce

def coalesceWhitespaceOnlyMarkdownIRChunks (options : RenderResolver TRendered Size)
    (renderedLimit : ℕ) (chunks : List MarkdownIR) : List MarkdownIR :=
  coalesceFrom options renderedLimit [] chunks

/-- The resolver that renders a chunk as the start of a message. -/
def renderResolver (findHeaders : HeaderFinder)
    (options : RenderMarkdownIRChunksWithinLimitOptions TRendered Size) :
    RenderResolver TRendered Size where
  measureRendered := options.measureRendered
  renderChunk chunk :=
    options.renderChunk (prepareChunkForMessageBoundary findHeaders options chunk)

def renderMarkdownIRChunksWithinLimit (findHeaders : HeaderFinder)
    (options : RenderMarkdownIRChunksWithinLimitOptions TRendered Size) :
    List (RenderedMarkdownChunk TRendered) :=
  let render (chunk : MarkdownIR) : RenderedMarkdownChunk TRendered :=
    { source := prepareChunkForMessageBoundary findHeaders options chunk
      rendered :=
        options.renderChunk (prepareChunkForMessageBoundary findHeaders options chunk) }
  if options.ir.text = [] then []
  else
    match options.limit with
    | none => [render options.ir]
    | some limit =>
      let normalizedLimit := max 1 limit
      let resolver := renderResolver findHeaders options
      let pending := splitMarkdownIRPreserveWhitespace options.ir normalizedLimit
      let finalized := finalizeChunks resolver normalizedLimit pending
      (coalesceWhitespaceOnlyMarkdownIRChunks resolver normalizedLimit finalized).map render

omit [LE Size] [DecidableLE Size] [NatCast Size] in
theorem text_prepare (findHeaders : HeaderFinder)
    (options : RenderMarkdownIRChunksWithinLimitOptions TRendered Size) (chunk : MarkdownIR) :
    (prepareChunkForMessageBoundary findHeaders options chunk).text = chunk.text := by
  rw [prepareChunkForMessageBoundary]
  split_ifs
  · rw [annotateAssistantTranscriptRoleMessageBoundary]
    split
    · rfl
    · split_ifs
      · rfl
      · rfl
  · rfl

/-- A rendered chunk within a limit, or with no prefix that is. -/
structure WithinLimit (findHeaders : HeaderFinder)
    (options : RenderMarkdownIRChunksWithinLimitOptions TRendered Size) (limit : ℕ)
    (chunk : RenderedMarkdownChunk TRendered) (slice : MarkdownIR) : Prop where
  source : chunk.source = prepareChunkForMessageBoundary findHeaders options slice
  rendered : chunk.rendered = options.renderChunk chunk.source
  bound : options.measureRendered chunk.rendered ≤ (limit : Size) ∨
    ∀ length, 1 ≤ length → length < slice.text.length →
      ¬options.measureRendered (options.renderChunk
        (prepareChunkForMessageBoundary findHeaders options
          (sliceMarkdownIR slice 0 (avoidTrailingHighSurrogateBreak slice.text 0 length)))) ≤
            (limit : Size)

/-- The chunks have the text without some blanks, and keep to the limit where a prefix does. -/
theorem renderMarkdownIRChunksWithinLimit_spec (findHeaders : HeaderFinder)
    (options : RenderMarkdownIRChunksWithinLimitOptions TRendered Size) (limit : ℕ)
    (hlimit : options.limit = some limit) (hpos : 1 ≤ limit) :
    OmitsBlanks
        ((renderMarkdownIRChunksWithinLimit findHeaders options).map fun chunk =>
          chunk.source.text).flatten options.ir.text ∧
      ∀ chunk ∈ renderMarkdownIRChunksWithinLimit findHeaders options,
        ∃ slice, WithinLimit findHeaders options limit chunk slice := by
  rw [renderMarkdownIRChunksWithinLimit]
  by_cases hne : options.ir.text = []
  · rw [if_pos hne, hne]
    exact ⟨.nil, fun _ h => (List.not_mem_nil h).elim⟩
  rw [if_neg hne, hlimit]
  dsimp only
  rw [Nat.max_eq_right hpos, List.map_map]
  obtain ⟨hfinal, hsettled⟩ := @finalizeChunks_spec _ _ _ _ _ (renderResolver findHeaders options)
    limit (splitMarkdownIRPreserveWhitespace options.ir limit)
  obtain ⟨homits, hall⟩ := coalesceFrom_spec [] _ (fun _ h => (List.not_mem_nil h).elim) hsettled
  constructor
  · have htexts : texts (finalizeChunks (renderResolver findHeaders options) limit
        (splitMarkdownIRPreserveWhitespace options.ir limit)) = options.ir.text :=
      hfinal.trans (preserved_split hne limit).text
    rw [htexts] at homits
    have hsource : ((fun chunk : RenderedMarkdownChunk TRendered => chunk.source.text) ∘
        fun chunk => RenderedMarkdownChunk.mk
          (options.renderChunk (prepareChunkForMessageBoundary findHeaders options chunk))
          (prepareChunkForMessageBoundary findHeaders options chunk)) = MarkdownIR.text := by
      funext chunk
      exact text_prepare findHeaders options chunk
    rw [hsource]
    exact homits
  · intro rendered hrendered
    obtain ⟨chunk, hchunk, rfl⟩ := List.mem_map.mp hrendered
    refine ⟨chunk, rfl, rfl, ?_⟩
    rcases hall chunk hchunk with hfits | hnone
    · exact .inl (of_decide_eq_true hfits)
    · exact .inr fun length hpos hlt => of_decide_eq_false (hnone length hpos hlt)

/-- A text with a blank under a limit of one, where each unit counts as one. -/
theorem renderMarkdownIRChunksWithinLimit_sample :
    OmitsBlanks
        ((renderMarkdownIRChunksWithinLimit (fun _ _ => [])
          (⟨⟨ofString "a b", [], [], none⟩, some 1, List.length, MarkdownIR.text, true⟩ :
            RenderMarkdownIRChunksWithinLimitOptions Utf16 ℕ)).map fun chunk =>
              chunk.source.text).flatten (ofString "a b") :=
  (renderMarkdownIRChunksWithinLimit_spec (fun _ _ => [])
    (⟨⟨ofString "a b", [], [], none⟩, some 1, List.length, MarkdownIR.text, true⟩ :
      RenderMarkdownIRChunksWithinLimitOptions Utf16 ℕ) 1 rfl (Nat.le_refl 1)).1

end Rendering

end Flashclaw.MarkdownCore
