import Flashclaw.MarkdownCore.TextRanges

/-!
# Chunks of a text

`chunkText` of `packages/markdown-core/src/chunk-text.ts`: chunks up to a limit, with breaks at
blanks outside of parentheses, behind which the blanks are left out.
-/

namespace Flashclaw.MarkdownCore

open Utf16 Ranges

/-- The variables of `scanParenAwareBreakpoints`. -/
structure Breakpoints where
  lastNewline : Option ℕ
  lastWhitespace : Option ℕ
  depth : ℕ
deriving DecidableEq

def scanBreakpoint (isAllowed : ℕ → Bool) (points : Breakpoints) (i : ℕ) (char : CodeUnit) :
    Breakpoints :=
  if isAllowed i = false then points
  else if char = unit '(' then { points with depth := points.depth + 1 }
  else if char = unit ')' ∧ 0 < points.depth then { points with depth := points.depth - 1 }
  else if points.depth ≠ 0 then points
  else if char = NEWLINE then { points with lastNewline := some i }
  else if isWhiteSpace char then { points with lastWhitespace := some i }
  else points

/-- The loop over the units of a window, the first of which is at `i`. -/
def scanBreakpoints (isAllowed : ℕ → Bool) (points : Breakpoints) (i : ℕ) : Utf16 → Breakpoints
  | [] => points
  | char :: rest => scanBreakpoints isAllowed (scanBreakpoint isAllowed points i char) (i + 1) rest

/-- Newlines and blanks outside of parentheses, where breaks are allowed. -/
def scanParenAwareBreakpoints (isAllowed : ℕ → Bool) (text : Utf16) (start stop : ℕ) :
    Breakpoints :=
  scanBreakpoints isAllowed ⟨none, none, 0⟩ start (slice text start stop)

/-- Each break is at a blank of the window where breaks are allowed. -/
structure BreaksAt (isAllowed : ℕ → Bool) (text : Utf16) (start stop index : ℕ) : Prop where
  start_le : start ≤ index
  lt_stop : index < stop
  allowed : isAllowed index = true
  blank : text[index]?.any isWhiteSpace = true

/-- Both breaks so far are where breaks may be. -/
def PointsAt (isAllowed : ℕ → Bool) (text : Utf16) (start stop : ℕ) (points : Breakpoints) : Prop :=
  (∀ index, points.lastNewline = some index → BreaksAt isAllowed text start stop index) ∧
    ∀ index, points.lastWhitespace = some index → BreaksAt isAllowed text start stop index

section Breakpoints

variable {isAllowed : ℕ → Bool} {text : Utf16} {start stop i : ℕ} {points : Breakpoints}

theorem pointsAt_scanBreakpoint {char : CodeUnit} (h : PointsAt isAllowed text start stop points)
    (hstart : start ≤ i) (hstop : i < stop) (hchar : text[i]? = some char) :
    PointsAt isAllowed text start stop (scanBreakpoint isAllowed points i char) := by
  have hbreak : isAllowed i = true → isWhiteSpace char = true →
      ∀ index, some i = some index → BreaksAt isAllowed text start stop index := by
    rintro hallowed hblank index hindex
    obtain rfl := Option.some.inj hindex
    refine ⟨hstart, hstop, hallowed, ?_⟩
    rw [hchar, Option.any_some, hblank]
  rw [scanBreakpoint]
  split_ifs with hallowed _ _ _ hnewline hblank
  · exact h
  · exact h
  · exact h
  · exact h
  · rw [hnewline] at hbreak
    exact ⟨hbreak (Bool.eq_true_of_not_eq_false hallowed) blank_newline, h.2⟩
  · exact ⟨h.1, hbreak (Bool.eq_true_of_not_eq_false hallowed) hblank⟩
  · exact h

theorem pointsAt_scanBreakpoints {window : Utf16} (h : PointsAt isAllowed text start stop points)
    (hstart : start ≤ i)
    (hwindow : ∀ j char, window[j]? = some char → i + j < stop ∧ text[i + j]? = some char) :
    PointsAt isAllowed text start stop (scanBreakpoints isAllowed points i window) := by
  induction window generalizing points i with
  | nil => exact h
  | cons char rest ih =>
    obtain ⟨hstop, hchar⟩ := hwindow 0 char rfl
    apply ih (pointsAt_scanBreakpoint h hstart hstop hchar) (hstart.trans (Nat.le_succ i))
    intro j char' hj
    have := hwindow (j + 1) char' hj
    rwa [← Nat.add_assoc, Nat.add_right_comm] at this

theorem pointsAt_scanParenAwareBreakpoints (isAllowed : ℕ → Bool) (text : Utf16) (start stop : ℕ) :
    PointsAt isAllowed text start stop
      (scanParenAwareBreakpoints isAllowed text start stop) := by
  apply pointsAt_scanBreakpoints _ (Nat.le_refl start)
  · intro j char hj
    rw [getElem?_slice] at hj
    split_ifs at hj with hstop
    exact ⟨hstop, hj⟩
  · exact ⟨fun _ h => (by cases h), fun _ h => (by cases h)⟩

end Breakpoints

/-- The position behind the blanks from `cursor` on. -/
def skipBlanks (text : Utf16) (cursor : ℕ) : ℕ := skipWhile isWhiteSpace text cursor

def BlankAt (text : Utf16) (i : ℕ) : Prop := text[i]?.any isWhiteSpace = true

theorem between_skipBlanks (text : Utf16) (cursor : ℕ) :
    Between (BlankAt text) cursor (skipBlanks text cursor) := by
  intro i hi hlt
  obtain ⟨c, hc, hblank⟩ := exists_of_lt_skipWhile hi hlt
  rw [BlankAt, hc, Option.any_some, hblank]

/-- Where the chunk from `cursor` on ends. -/
def chunkEnd (text : Utf16) (limit cursor : ℕ) : ℕ :=
  let windowEnd := min text.length (cursor + limit)
  let window := slice text cursor windowEnd
  let points := scanParenAwareBreakpoints (fun _ => true) window 0 window.length
  let breakOffset := (points.lastNewline.filter (0 < ·)).or points.lastWhitespace
  avoidTrailingHighSurrogateBreak text cursor
    (((breakOffset.filter (0 < ·)).map (cursor + ·)).getD windowEnd)

theorem chunkEnd_avoided {text : Utf16} {limit cursor : ℕ} (hlimit : 0 < limit)
    (hcursor : cursor < text.length) : cursor < chunkEnd text limit cursor ∧
      chunkEnd text limit cursor ≤ text.length := by
  have hpoints := pointsAt_scanParenAwareBreakpoints (fun _ => true)
    (slice text cursor (min text.length (cursor + limit))) 0
    (slice text cursor (min text.length (cursor + limit))).length
  rw [length_slice (Nat.min_le_left _ _)] at hpoints
  rw [chunkEnd, length_slice (Nat.min_le_left _ _)]
  generalize scanParenAwareBreakpoints (fun _ => true) _ 0 _ = points at hpoints ⊢
  generalize hoffset : (points.lastNewline.filter (0 < ·)).or points.lastWhitespace = breakOffset
  have hinside : ∀ index, breakOffset = some index →
      cursor + index < min text.length (cursor + limit) := by
    intro index hindex
    rw [← hoffset, Option.or_eq_some_iff] at hindex
    rcases hindex with hindex | ⟨-, hindex⟩
    · have := (hpoints.1 index (Option.filter_eq_some_iff.mp hindex).1).lt_stop
      omega
    · have := (hpoints.2 index hindex).lt_stop
      omega
  cases hpositive : breakOffset.filter (0 < ·) with
  | none =>
    have h := avoided (by omega : cursor < min text.length (cursor + limit)) (Nat.min_le_left _ _)
    exact ⟨h.progress, h.le_length⟩
  | some index =>
    obtain ⟨hsome, hpos⟩ := Option.filter_eq_some_iff.mp hpositive
    have hbound := hinside index hsome
    have hpos := of_decide_eq_true hpos
    have h := avoided (by omega : cursor < cursor + index) (by omega : cursor + index ≤ text.length)
    exact ⟨h.progress, h.le_length⟩

/-- The loop of `chunkText`. -/
def chunksFrom (text : Utf16) (limit : ℕ) (hlimit : 0 < limit) (cursor : ℕ) : List Utf16 :=
  if _hcursor : cursor < text.length then
    if text.length - cursor ≤ limit then [text.drop cursor]
    else
      slice text cursor (chunkEnd text limit cursor) ::
        chunksFrom text limit hlimit (skipBlanks text (chunkEnd text limit cursor))
  else []
termination_by text.length - cursor
decreasing_by
  have hend := chunkEnd_avoided hlimit _hcursor
  have hskip : chunkEnd text limit cursor ≤ skipBlanks text _ := le_skipWhile _ _ _
  omega

def chunkText (text : Utf16) (limit : ℕ) : List Utf16 :=
  if text = [] then []
  else if h : limit = 0 ∨ text.length ≤ limit then [text]
  else chunksFrom text limit (pos_of_cut h) 0

end Flashclaw.MarkdownCore
