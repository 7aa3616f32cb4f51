import Flashclaw.Lib.Lists
import Flashclaw.Lib.Utf16Text

/-!
# Spans of a Markdown text

`packages/markdown-core/src/ir-spans.ts`: the spans of styles, links and annotations, cut to a
range and merged.
-/

namespace Flashclaw.MarkdownCore

inductive MarkdownStyle where
  | bold
  | italic
  | strikethrough
  | code
  | codeBlock
  | spoiler
  | blockquote
  | heading1
  | heading2
  | heading3
  | heading4
  | heading5
  | heading6
deriving DecidableEq

/-- The place of a style in the order of their names, which `localeCompare` compares. -/
def MarkdownStyle.place : MarkdownStyle → ℕ
  | .blockquote => 0
  | .bold => 1
  | .code => 2
  | .codeBlock => 3
  | .heading1 => 4
  | .heading2 => 5
  | .heading3 => 6
  | .heading4 => 7
  | .heading5 => 8
  | .heading6 => 9
  | .italic => 10
  | .spoiler => 11
  | .strikethrough => 12

structure MarkdownStyleSpan where
  start : ℕ
  stop : ℕ
  style : MarkdownStyle
  language : Option Utf16
deriving DecidableEq

/-- A link, with whether it is one of the links in `autoLinkedMarkdownLinks`. -/
structure MarkdownLinkSpan where
  start : ℕ
  stop : ℕ
  href : Utf16
  autoLinked : Bool
deriving DecidableEq

inductive AssistantTranscriptRole where
  | assistant
  | developer
  | system
  | user
deriving DecidableEq

inductive AssistantTranscriptRoleHeaderKind where
  | angleRoleHeader
  | roleTimestampBracket
  | timestampRoleColon
deriving DecidableEq

structure MarkdownAnnotationSpan where
  start : ℕ
  stop : ℕ
  kind : AssistantTranscriptRoleHeaderKind
  role : AssistantTranscriptRole
deriving DecidableEq

/-- A span whose language is not the empty text. -/
def createStyleSpan (span : MarkdownStyleSpan) : MarkdownStyleSpan :=
  { span with language := span.language.filter (· ≠ []) }

section Merging

variable {σ : Type*}

/-- Every span that goes together with the one before is made one with it. -/
def mergeInto (merge : σ → σ → Option σ) (previous : σ) : List σ → List σ
  | [] => [previous]
  | span :: spans =>
    match merge previous span with
    | some merged => mergeInto merge merged spans
    | none => previous :: mergeInto merge span spans

def mergeAdjacent (merge : σ → σ → Option σ) : List σ → List σ
  | [] => []
  | span :: spans => mergeInto merge span spans

end Merging

def annotationBefore (a b : MarkdownAnnotationSpan) : Prop :=
  a.start < b.start ∨ a.start = b.start ∧ a.stop ≤ b.stop

instance : DecidableRel annotationBefore :=
  fun _ _ => inferInstanceAs (Decidable (_ ∨ _))

def mergeAnnotation (previous span : MarkdownAnnotationSpan) : Option MarkdownAnnotationSpan :=
  if previous.stop = span.start ∧ previous.kind = span.kind ∧ previous.role = span.role then
    some { previous with stop := span.stop }
  else none

def mergeAnnotationSpans (spans : List MarkdownAnnotationSpan) : List MarkdownAnnotationSpan :=
  mergeAdjacent mergeAnnotation (spans.insertionSort annotationBefore)

def styleBefore (a b : MarkdownStyleSpan) : Prop :=
  a.start < b.start ∨ a.start = b.start ∧
    (a.stop < b.stop ∨ a.stop = b.stop ∧ a.style.place ≤ b.style.place)

instance : DecidableRel styleBefore :=
  fun _ _ => inferInstanceAs (Decidable (_ ∨ _))

/-- Blockquotes that touch are two. -/
def mergeStyle (previous span : MarkdownStyleSpan) : Option MarkdownStyleSpan :=
  if previous.style = span.style ∧ previous.language = span.language ∧
      (span.start < previous.stop ∨ span.start = previous.stop ∧ span.style ≠ .blockquote) then
    some { previous with stop := max previous.stop span.stop }
  else none

def mergeStyleSpans (spans : List MarkdownStyleSpan) : List MarkdownStyleSpan :=
  mergeAdjacent mergeStyle (spans.insertionSort styleBefore)

def resolveSliceBounds (spanStart spanStop start stop : ℕ) : Option (ℕ × ℕ) :=
  let sliceStart := max spanStart start
  let sliceEnd := min spanStop stop
  if sliceStart < sliceEnd then some (sliceStart, sliceEnd) else none

def sliceStyleSpans (spans : List MarkdownStyleSpan) (start stop : ℕ) : List MarkdownStyleSpan :=
  mergeStyleSpans <| spans.filterMap fun span =>
    (resolveSliceBounds span.start span.stop start stop).map fun bounds =>
      createStyleSpan { span with start := bounds.1 - start, stop := bounds.2 - start }

def sliceLinkSpans (spans : List MarkdownLinkSpan) (start stop : ℕ) : List MarkdownLinkSpan :=
  spans.filterMap fun span =>
    (resolveSliceBounds span.start span.stop start stop).map fun bounds =>
      { span with start := bounds.1 - start, stop := bounds.2 - start }

def sliceAnnotationSpans (spans : List MarkdownAnnotationSpan) (start stop : ℕ) :
    List MarkdownAnnotationSpan :=
  mergeAnnotationSpans <| spans.filterMap fun span =>
    (resolveSliceBounds span.start span.stop start stop).map fun bounds =>
      { span with start := bounds.1 - start, stop := bounds.2 - start }

/-- Some span has a style and a language at a position. -/
def Covers (spans : List MarkdownStyleSpan) (i : ℕ) (style : MarkdownStyle)
    (language : Option Utf16) : Prop :=
  ∃ span ∈ spans, span.start ≤ i ∧ i < span.stop ∧ span.style = style ∧ span.language = language

section Covers

variable {i : ℕ} {style : MarkdownStyle} {language : Option Utf16}

theorem covers_cons {span : MarkdownStyleSpan} {spans : List MarkdownStyleSpan} :
    Covers (span :: spans) i style language ↔
      (span.start ≤ i ∧ i < span.stop ∧ span.style = style ∧ span.language = language) ∨
        Covers spans i style language := List.exists_mem_cons_iff _ _ _

instance : IsTrans MarkdownStyleSpan styleBefore := ⟨by
  intro a b c hab hbc
  rw [styleBefore] at hab hbc ⊢
  omega⟩

instance : Std.Total styleBefore := ⟨by
  intro a b
  rw [styleBefore, styleBefore]
  omega⟩

/-- Spans that are merged cover what both cover. -/
theorem covers_mergeInto {previous : MarkdownStyleSpan} {spans : List MarkdownStyleSpan}
    (h : (previous :: spans).Pairwise fun a b => a.start ≤ b.start) :
    Covers (mergeInto mergeStyle previous spans) i style language ↔
      Covers (previous :: spans) i style language := by
  induction spans generalizing previous with
  | nil => exact Iff.rfl
  | cons span spans ih =>
    obtain ⟨hprevious, hspans⟩ := List.pairwise_cons.mp h
    rw [mergeInto]
    cases hmerge : mergeStyle previous span with
    | none =>
      exact (covers_cons.trans (or_congr_right (ih hspans))).trans covers_cons.symm
    | some merged =>
      dsimp only
      have hle := hprevious span List.mem_cons_self
      rw [mergeStyle] at hmerge
      split_ifs at hmerge with hsame
      obtain ⟨hstyle, hlanguage, htouch⟩ := hsame
      obtain rfl := Option.some.inj hmerge
      rw [ih]
      · rw [covers_cons, covers_cons, covers_cons, ← or_assoc]
        apply or_congr_left
        show previous.start ≤ i ∧ i < max previous.stop span.stop ∧ _ ↔ _
        rw [← hstyle, ← hlanguage]
        constructor
        · rintro ⟨hstart, hstop, hcovered⟩
          rcases Nat.lt_or_ge i previous.stop with hlt | hge
          · exact .inl ⟨hstart, hlt, hcovered⟩
          · exact .inr ⟨by omega, by omega, hcovered⟩
        · rintro (⟨hstart, hstop, hcovered⟩ | ⟨hstart, hstop, hcovered⟩)
          · exact ⟨hstart, by omega, hcovered⟩
          · exact ⟨by omega, by omega, hcovered⟩
      · exact List.pairwise_cons.mpr ⟨fun other hother =>
          hprevious other (List.mem_cons_of_mem span hother), (List.pairwise_cons.mp hspans).2⟩

theorem covers_mergeStyleSpans (spans : List MarkdownStyleSpan) :
    Covers (mergeStyleSpans spans) i style language ↔ Covers spans i style language := by
  have hperm := List.perm_insertionSort styleBefore spans
  have hsame : Covers (spans.insertionSort styleBefore) i style language ↔
      Covers spans i style language :=
    exists_congr fun span => and_congr_left fun _ => hperm.mem_iff
  have hsorted : (spans.insertionSort styleBefore).Pairwise fun a b => a.start ≤ b.start := by
    apply (List.pairwise_insertionSort styleBefore spans).imp
    intro a b hab
    rw [styleBefore] at hab
    omega
  rw [mergeStyleSpans, ← hsame]
  cases hspans : spans.insertionSort styleBefore with
  | nil => exact Iff.rfl
  | cons span rest => exact covers_mergeInto (hspans ▸ hsorted)

/-- A slice covers what the spans cover in its range, with no empty language. -/
theorem covers_sliceStyleSpans (spans : List MarkdownStyleSpan) {start stop : ℕ}
    (h : start + i < stop) :
    Covers (sliceStyleSpans spans start stop) i style language ↔
      Covers (spans.map createStyleSpan) (start + i) style language := by
  rw [sliceStyleSpans, covers_mergeStyleSpans]
  constructor
  · rintro ⟨span, hspan, hstart, hstop, hcovered⟩
    obtain ⟨original, horiginal, hslice⟩ := List.mem_filterMap.mp hspan
    obtain ⟨bounds, hbounds, rfl⟩ := Option.map_eq_some_iff.mp hslice
    rw [resolveSliceBounds] at hbounds
    split_ifs at hbounds
    obtain rfl := Option.some.inj hbounds
    refine ⟨createStyleSpan original, List.mem_map_of_mem horiginal, ?_, ?_, hcovered⟩
    · show original.start ≤ start + i
      have : max original.start start - start ≤ i := hstart
      omega
    · show start + i < original.stop
      have : i < min original.stop stop - start := hstop
      omega
  · rintro ⟨span, hspan, hstart, hstop, hcovered⟩
    obtain ⟨original, horiginal, rfl⟩ := List.mem_map.mp hspan
    have hstart : original.start ≤ start + i := hstart
    have hstop : start + i < original.stop := hstop
    have hbounds : resolveSliceBounds original.start original.stop start stop =
        some (max original.start start, min original.stop stop) := by
      rw [resolveSliceBounds, if_pos]
      omega
    refine ⟨_, List.mem_filterMap.mpr ⟨original, horiginal, Option.map_eq_some_iff.mpr
      ⟨_, hbounds, rfl⟩⟩, ?_, ?_, hcovered⟩
    · show max original.start start - start ≤ i
      omega
    · show i < min original.stop stop - start
      omega

end Covers

end Flashclaw.MarkdownCore
