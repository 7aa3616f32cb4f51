import Flashclaw.MarkdownCore.ChunkText
import Flashclaw.MarkdownCore.Spans

/-!
# Chunks of a Markdown text with spans

`chunkMarkdownIR` of `packages/markdown-core/src/ir.ts`, which walks a text once more along its
chunks and cuts the spans to each.
-/

namespace Flashclaw.MarkdownCore

open Utf16 Ranges

structure MarkdownIR where
  text : Utf16
  styles : List MarkdownStyleSpan
  links : List MarkdownLinkSpan
  annotations : Option (List MarkdownAnnotationSpan)
deriving DecidableEq

/-- A field that is there when it has some element. -/
def present {α : Type*} (l : List α) : Option (List α) := if 0 < l.length then some l else none

def sliceMarkdownIR (ir : MarkdownIR) (start stop : ℕ) : MarkdownIR where
  text := slice ir.text start stop
  styles := sliceStyleSpans ir.styles start stop
  links := sliceLinkSpans ir.links start stop
  annotations := present (sliceAnnotationSpans (ir.annotations.getD []) start stop)

/-- The rounds of `chunkMarkdownIR` from a chunk on. -/
def irChunks (ir : MarkdownIR) (index cursor : ℕ) : List Utf16 → List MarkdownIR
  | [] => []
  | chunk :: chunks =>
    if chunk = [] then irChunks ir (index + 1) cursor chunks
    else
      let start := if 0 < index then skipBlanks ir.text cursor else cursor
      let stop := min ir.text.length (start + chunk.length)
      { text := chunk
        styles := sliceStyleSpans ir.styles start stop
        links := sliceLinkSpans ir.links start stop
        annotations := present (sliceAnnotationSpans (ir.annotations.getD []) start stop) } ::
        irChunks ir (index + 1) stop chunks

def chunkMarkdownIR (ir : MarkdownIR) (limit : ℕ) : List MarkdownIR :=
  if ir.text = [] then []
  else if limit = 0 ∨ ir.text.length ≤ limit then [ir]
  else irChunks ir 0 0 (chunkText ir.text limit)

/-- A round at a chunk that is a slice of the text. -/
theorem irChunks_slice (ir : MarkdownIR) {index cursor start stop : ℕ}
    (hstart : start = if 0 < index then skipBlanks ir.text cursor else cursor) (hlt : start < stop)
    (hstop : stop ≤ ir.text.length) (chunks : List Utf16) :
    irChunks ir index cursor (slice ir.text start stop :: chunks) =
      sliceMarkdownIR ir start stop :: irChunks ir (index + 1) stop chunks := by
  have hlength : (slice ir.text start stop).length = stop - start := length_slice hstop
  have hne : slice ir.text start stop ≠ [] := by
    intro h
    rw [h, List.length_nil] at hlength
    omega
  have hend : min ir.text.length (start + (stop - start)) = stop := by omega
  rw [irChunks, if_neg hne, ← hstart, hlength]
  dsimp only
  rw [hend, sliceMarkdownIR]

/-- The second walk is at the positions of the first. -/
theorem irChunks_chunksFrom (ir : MarkdownIR) {limit : ℕ} (hlimit : 0 < limit) {start : ℕ}
    {index cursor : ℕ} (hstart : start = if 0 < index then skipBlanks ir.text cursor else cursor)
    (hle : start ≤ ir.text.length) :
    ∃ ranges, irChunks ir index cursor (chunksFrom ir.text limit hlimit start) =
        ranges.map (fun range => sliceMarkdownIR ir range.start range.stop) ∧
      Gapped (BlankAt ir.text) start ranges ir.text.length := by
  induction start using chunksFrom.induct ir.text limit hlimit generalizing index cursor with
  | case1 start hlt hrest =>
    have hdrop : ir.text.drop start = slice ir.text start ir.text.length :=
      (slice_of_length_le (Nat.le_refl _)).symm
    refine ⟨[⟨start, ir.text.length⟩], ?_, Nat.le_refl _, .self _ _, hlt, Nat.le_refl _, .self _ _⟩
    rw [chunksFrom, dif_pos hlt, if_pos hrest, hdrop,
      irChunks_slice ir hstart hlt (Nat.le_refl _)]
    rfl
  | case2 start hlt hrest ih =>
    obtain ⟨hprogress, hend⟩ := chunkEnd_avoided hlimit hlt
    obtain ⟨ranges, hranges, hgapped⟩ := @ih (index + 1) (chunkEnd ir.text limit start)
      (if_pos (Nat.succ_pos index)).symm (skipWhile_le_length hend)
    refine ⟨⟨start, chunkEnd ir.text limit start⟩ :: ranges, ?_, Nat.le_refl _, .self _ _, hprogress,
      hgapped.behind (le_skipWhile _ _ _) (between_skipBlanks _ _)⟩
    rw [chunksFrom, dif_pos hlt, if_neg hrest, irChunks_slice ir hstart hprogress hend, hranges]
    rfl
  | case3 start hlt =>
    refine ⟨[], ?_, hle, fun i hi hi' => by omega⟩
    rw [chunksFrom, dif_neg hlt]
    rfl

/-- Some span has a style and a language, where no language and an empty one are the same. -/
def Styled (spans : List MarkdownStyleSpan) (i : ℕ) (style : MarkdownStyle)
    (language : Option Utf16) : Prop :=
  Covers (spans.map createStyleSpan) i style language

theorem styled_iff {spans : List MarkdownStyleSpan} {i : ℕ} {style : MarkdownStyle}
    {language : Option Utf16} : Styled spans i style language ↔
      ∃ given, Covers spans i style given ∧ given.filter (· ≠ []) = language := by
  constructor
  · rintro ⟨span, hspan, hstart, hstop, hstyle, hlanguage⟩
    obtain ⟨original, horiginal, rfl⟩ := List.mem_map.mp hspan
    exact ⟨original.language, ⟨original, horiginal, hstart, hstop, hstyle, rfl⟩, hlanguage⟩
  · rintro ⟨given, ⟨span, hspan, hstart, hstop, hstyle, rfl⟩, rfl⟩
    exact ⟨createStyleSpan span, List.mem_map_of_mem hspan, hstart, hstop, hstyle, rfl⟩

theorem filter_given (given : Option Utf16) :
    (given.filter (· ≠ [])).filter (· ≠ []) = given.filter (· ≠ []) := by
  rw [Option.filter_filter]
  congr 1
  funext language
  exact Bool.and_self _

theorem styled_slice (ir : MarkdownIR) {start stop i : ℕ} (h : start + i < stop)
    (style : MarkdownStyle) (language : Option Utf16) :
    Styled (sliceMarkdownIR ir start stop).styles i style language ↔
      Styled ir.styles (start + i) style language := by
  have hcovers : ∀ given, Covers (sliceMarkdownIR ir start stop).styles i style given ↔
      Styled ir.styles (start + i) style given := fun _ => covers_sliceStyleSpans ir.styles h
  rw [styled_iff]
  constructor
  · rintro ⟨given, hgiven, rfl⟩
    obtain ⟨original, horiginal, rfl⟩ := styled_iff.mp ((hcovers given).mp hgiven)
    rw [filter_given]
    exact styled_iff.mpr ⟨original, horiginal, rfl⟩
  · intro hstyled
    obtain ⟨original, -, rfl⟩ := styled_iff.mp hstyled
    exact ⟨_, (hcovers _).mpr hstyled, filter_given original⟩

/-- What a chunk is, with a range of the text. -/
structure ChunkOf (ir : MarkdownIR) (range : Range) (chunk : MarkdownIR) : Prop where
  text : chunk.text = slice ir.text range.start range.stop
  spans : chunk = sliceMarkdownIR ir range.start range.stop ∨
    chunk = ir ∧ range = ⟨0, ir.text.length⟩
  styled : ∀ i < chunk.text.length, ∀ style language,
    Styled chunk.styles i style language ↔ Styled ir.styles (range.start + i) style language

theorem chunkOf_slice (ir : MarkdownIR) (range : Range) :
    ChunkOf ir range (sliceMarkdownIR ir range.start range.stop) where
  text := rfl
  spans := .inl rfl
  styled i hi := by
    apply styled_slice
    have : (slice ir.text range.start range.stop).length ≤ range.stop - range.start :=
      List.length_take_le _ _
    have : i < (slice ir.text range.start range.stop).length := hi
    omega

theorem chunkOf_self (ir : MarkdownIR) : ChunkOf ir ⟨0, ir.text.length⟩ ir where
  text := (slice_zero_length ir.text).symm
  spans := .inr ⟨rfl, rfl⟩
  styled i _ style language := by rw [Nat.zero_add]

/-- The chunks are slices in order, with blanks between them, and keep their styles. -/
theorem chunkMarkdownIR_slices (ir : MarkdownIR) (limit : ℕ) :
    ∃ ranges, Gapped (BlankAt ir.text) 0 ranges ir.text.length ∧
      List.Forall₂ (ChunkOf ir) ranges (chunkMarkdownIR ir limit) := by
  rw [chunkMarkdownIR]
  by_cases hne : ir.text = []
  · rw [if_pos hne, hne]
    exact ⟨[], ⟨Nat.le_refl _, .self _ _⟩, .nil⟩
  rw [if_neg hne]
  by_cases hshort : limit = 0 ∨ ir.text.length ≤ limit
  · rw [if_pos hshort]
    have hpos : 0 < ir.text.length := List.length_pos_of_ne_nil hne
    exact ⟨[⟨0, ir.text.length⟩], ⟨Nat.le_refl _, .self _ _, hpos, Nat.le_refl _, .self _ _⟩,
      .cons (chunkOf_self ir) .nil⟩
  · rw [if_neg hshort, chunkText, if_neg hne, dif_neg hshort]
    obtain ⟨ranges, hranges, hgapped⟩ := @irChunks_chunksFrom ir limit
      (Nat.pos_of_ne_zero fun hzero => hshort (.inl hzero)) 0 0 0 rfl (Nat.zero_le _)
    refine ⟨ranges, hgapped, ?_⟩
    rw [hranges, List.forall₂_map_right_iff]
    exact List.forall₂_same.mpr fun range _ => chunkOf_slice ir range

/-- A text in a code block whose language is the empty text. -/
def sampleIR : MarkdownIR := ⟨ofString "ab", [⟨0, 2, .codeBlock, some []⟩], [], none⟩

/-- A span that is cut loses a language that is empty. -/
theorem chunkMarkdownIR_drops_empty_language :
    ¬∀ (ir : MarkdownIR) (limit : ℕ), 0 < limit →
      (∀ span ∈ ir.styles, span.start ≤ span.stop ∧ span.stop ≤ ir.text.length) →
      ∃ ranges, Gapped (BlankAt ir.text) 0 ranges ir.text.length ∧
        List.Forall₂ (fun range chunk => chunk.text = slice ir.text range.start range.stop ∧
          ∀ i < chunk.text.length, ∀ style language, Covers chunk.styles i style language ↔
            Covers ir.styles (range.start + i) style language)
          ranges (chunkMarkdownIR ir limit) := by
  intro h
  have hchunks : chunkMarkdownIR sampleIR 1 =
      [⟨ofString "a", [⟨0, 1, .codeBlock, none⟩], [], none⟩,
        ⟨ofString "b", [⟨0, 1, .codeBlock, none⟩], [], none⟩] := by decide +kernel
  obtain ⟨ranges, hgapped, hall⟩ := h sampleIR 1 Nat.one_pos (by decide)
  rw [hchunks] at hall
  cases hall with
  | @cons range _ rest _ hchunk hrest =>
    have hstart : range.start = 0 := by
      by_contra hpos
      have hblank := hgapped.2.1 0 (Nat.le_refl _) (Nat.pos_of_ne_zero hpos)
      revert hblank
      show ¬(ofString "ab")[0]?.any isWhiteSpace = true
      decide
    have hcovers := (hchunk.2 0 (by decide) .codeBlock (some [])).mpr
    rw [hstart] at hcovers
    obtain ⟨span, hspan, -, -, -, hlanguage⟩ :=
      hcovers ⟨_, List.mem_singleton_self _, by decide, by decide, rfl, rfl⟩
    rw [List.mem_singleton.mp hspan] at hlanguage
    cases hlanguage

end Flashclaw.MarkdownCore
