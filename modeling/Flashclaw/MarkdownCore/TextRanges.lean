import Flashclaw.Lib.Ranges
import Flashclaw.Lib.Utf16Text

/-!
# Ranges of a text

`chunkTextRanges` of `packages/markdown-core/src/chunk-text.ts`, with
`avoidTrailingHighSurrogateBreak`: a text as ranges that follow each other, at most as long as a
limit.
-/

namespace Flashclaw.MarkdownCore

open Utf16 Ranges

def NEWLINE : CodeUnit := unit '\n'

/-- A pair of surrogates stands across a position. -/
def splitsPair (text : Utf16) (index : ℕ) : Bool :=
  text[index - 1]?.any isHighSurrogate && text[index]?.any isLowSurrogate

/-- Moves a boundary away from the middle of a pair of surrogates. -/
def avoidTrailingHighSurrogateBreak (text : Utf16) (start stop : ℕ) : ℕ :=
  if stop ≤ start || text.length ≤ stop || !splitsPair text stop then stop
  else
    let adjusted := stop - 1
    if start < adjusted then adjusted else stop + 1

/-- `text.lastIndexOf(c, upTo)` -/
def lastIndexOf (text : Utf16) (c : CodeUnit) : ℕ → Option ℕ
  | 0 => if text[0]? = some c then some 0 else none
  | upTo + 1 => if text[upTo + 1]? = some c then some (upTo + 1) else lastIndexOf text c upTo

/-- How long the match of `/\n[\t ]*\n+/` is that starts a text. -/
def matchParagraphBreak : Utf16 → Option ℕ
  | [] => none
  | c :: rest =>
    let blanks := rest.takeWhile fun d => d = unit '\t' || d = unit ' '
    let newlines := (rest.drop blanks.length).takeWhile fun d => d = NEWLINE
    if c = NEWLINE ∧ newlines ≠ [] then some (1 + blanks.length + newlines.length) else none

/-- Where the last match of `text.matchAll(/\n[\t ]*\n+/g)` ends. -/
def lastParagraphEnd (text : Utf16) : Option ℕ :=
  match text with
  | [] => none
  | c :: rest =>
    match matchParagraphBreak (c :: rest) with
    | none => (lastParagraphEnd rest).map (· + 1)
    | some length => some (length + (lastParagraphEnd (rest.drop (length - 1))).getD 0)
termination_by text.length
decreasing_by
  · exact Nat.lt_succ_self _
  · rw [List.length_drop, List.length_cons]
    omega

/-- The end behind the last blank in front of `index` and behind `start`. -/
def lastBlankEnd (text : Utf16) (start : ℕ) : ℕ → Option ℕ
  | 0 => none
  | index + 1 =>
    if index ≤ start then none
    else if text[index]?.any isWhiteSpace then some (index + 1)
    else lastBlankEnd text start index

def findPreferredRangeEnd (text : Utf16) (start stop : ℕ) : Option ℕ :=
  match lastParagraphEnd (slice text start stop) with
  | some paragraphEnd => some (start + paragraphEnd)
  | none =>
    match (lastIndexOf text NEWLINE (stop - 1)).filter (start ≤ ·) with
    | some newlineIndex => some (newlineIndex + 1)
    | none => lastBlankEnd text start stop

inductive Mode where
  | hard
  | preferred
deriving DecidableEq

abbrev TextChunkRange := Range

/-- Where the range from `start` on ends. -/
def rangeEnd (text : Utf16) (limit : ℕ) (mode : Option Mode) (start : ℕ) : ℕ :=
  let maxEnd := min text.length (start + limit)
  let preferredEnd :=
    if mode = some .preferred ∧ maxEnd < text.length then findPreferredRangeEnd text start maxEnd
    else none
  let candidateEnd := (preferredEnd.filter (start < ·)).getD maxEnd
  avoidTrailingHighSurrogateBreak text start candidateEnd

section Boundary

variable {text : Utf16} {start stop : ℕ}

theorem splitsPair_iff {index : ℕ} : splitsPair text index = true ↔
    ∃ c d, text[index - 1]? = some c ∧ isHighSurrogate c = true ∧
      text[index]? = some d ∧ isLowSurrogate d = true := by
  rw [splitsPair, Bool.and_eq_true, Option.any_eq_true, Option.any_eq_true]
  constructor
  · rintro ⟨⟨c, hc, hhigh⟩, d, hd, hlow⟩
    exact ⟨c, d, hc, hhigh, hd, hlow⟩
  · rintro ⟨c, d, hc, hhigh, hd, hlow⟩
    exact ⟨⟨c, hc, hhigh⟩, d, hd, hlow⟩

theorem lt_of_splitsPair (h : splitsPair text stop = true) : stop < text.length := by
  obtain ⟨c, d, -, -, hd, -⟩ := splitsPair_iff.mp h
  exact (List.getElem?_eq_some_iff.mp hd).1

/-- No unit is both halves of a pair. -/
theorem low_of_high {c : CodeUnit} (h : isHighSurrogate c = true) : isLowSurrogate c = false := by
  rw [isHighSurrogate, Bool.and_eq_true, decide_eq_true_eq, decide_eq_true_eq] at h
  rw [isLowSurrogate, Bool.and_eq_false_iff]
  exact .inl (decide_eq_false (by omega))

/-- Pairs do not overlap. -/
theorem not_splitsPair_pred (h : splitsPair text stop = true) :
    splitsPair text (stop - 1) = false := by
  obtain ⟨c, -, hc, hhigh, -⟩ := splitsPair_iff.mp h
  rw [splitsPair, hc, Option.any_some, low_of_high hhigh, Bool.and_false]

theorem not_splitsPair_succ (h : splitsPair text stop = true) :
    splitsPair text (stop + 1) = false := by
  obtain ⟨-, d, -, -, hd, hlow⟩ := splitsPair_iff.mp h
  have hhigh : isHighSurrogate d = false := by
    rw [Bool.eq_false_iff]
    intro hhigh
    rw [low_of_high hhigh] at hlow
    cases hlow
  rw [splitsPair, Nat.add_sub_cancel, hd, Option.any_some, hhigh, Bool.false_and]

theorem avoid_of_not_splits (h : splitsPair text stop = false) :
    avoidTrailingHighSurrogateBreak text start stop = stop := by
  rw [avoidTrailingHighSurrogateBreak, h, Bool.not_false, Bool.or_true, if_pos rfl]

theorem avoid_of_splits (hstart : start < stop) (h : splitsPair text stop = true) :
    avoidTrailingHighSurrogateBreak text start stop =
      if start < stop - 1 then stop - 1 else stop + 1 := by
  rw [avoidTrailingHighSurrogateBreak, h, decide_eq_false (Nat.not_le.mpr hstart),
    decide_eq_false (Nat.not_le.mpr (lt_of_splitsPair h))]
  rfl

/-- What a boundary is moved to. -/
structure Avoided (text : Utf16) (start stop result : ℕ) : Prop where
  progress : start < result
  le_length : result ≤ text.length
  safe : splitsPair text result = false
  le_stop : result ≤ stop ∨ stop = start + 1 ∧ result = start + 2 ∧ splitsPair text stop = true

theorem avoided (hstart : start < stop) (hstop : stop ≤ text.length) :
    Avoided text start stop (avoidTrailingHighSurrogateBreak text start stop) := by
  cases h : splitsPair text stop with
  | false =>
    rw [avoid_of_not_splits h]
    exact ⟨hstart, hstop, h, .inl (Nat.le_refl _)⟩
  | true =>
    have hlt := lt_of_splitsPair h
    rw [avoid_of_splits hstart h]
    split_ifs with hroom
    · exact ⟨hroom, by omega, not_splitsPair_pred h, .inl (Nat.sub_le _ _)⟩
    · exact ⟨by omega, hlt, not_splitsPair_succ h, .inr ⟨by omega, by omega, h⟩⟩

end Boundary

section Preferred

variable {text : Utf16} {start stop : ℕ}

/-- Behind a blank. -/
def BehindBlank (text : Utf16) (index : ℕ) : Prop :=
  0 < index ∧ ∃ c, text[index - 1]? = some c ∧ isWhiteSpace c = true

theorem blank_newline : isWhiteSpace NEWLINE = true := by decide

theorem not_high_of_blank {c : CodeUnit} (h : isWhiteSpace c = true) :
    isHighSurrogate c = false := by
  rw [Bool.eq_false_iff, isHighSurrogate]
  intro hhigh
  rw [Bool.and_eq_true, decide_eq_true_eq, decide_eq_true_eq] at hhigh
  rw [isWhiteSpace, Bool.or_eq_true, Bool.and_eq_true, decide_eq_true_eq, decide_eq_true_eq,
    decide_eq_true_eq] at h
  rcases h with h | h
  · have hapart : ∀ n ∈ [0x09, 0x0A, 0x0B, 0x0C, 0x0D, 0x20, 0xA0, 0x1680, 0x2028, 0x2029, 0x202F,
        0x205F, 0x3000, 0xFEFF], n < 0xD800 ∨ 0xDC00 ≤ n := by decide
    rcases hapart _ h with h | h
    · omega
    · omega
  · omega

theorem BehindBlank.safe (h : BehindBlank text stop) : splitsPair text stop = false := by
  obtain ⟨-, c, hc, hblank⟩ := h
  rw [splitsPair, hc, Option.any_some, not_high_of_blank hblank, Bool.false_and]

theorem BehindBlank.le_length (h : BehindBlank text stop) : stop ≤ text.length := by
  obtain ⟨hpos, c, hc, -⟩ := h
  have := (List.getElem?_eq_some_iff.mp hc).1
  omega

theorem behindBlank_append (front : Utf16) (h : BehindBlank text stop) :
    BehindBlank (front ++ text) (front.length + stop) := by
  obtain ⟨hpos, c, hc, hblank⟩ := h
  refine ⟨by omega, c, ?_, hblank⟩
  rw [List.getElem?_append_right (by omega)]
  have hindex : front.length + stop - 1 - front.length = stop - 1 := by omega
  rw [hindex, hc]

theorem of_matchParagraphBreak {length : ℕ} (h : matchParagraphBreak text = some length) :
    BehindBlank text length := by
  cases text with
  | nil => cases h
  | cons c rest =>
    rw [matchParagraphBreak] at h
    generalize rest.takeWhile (fun d => d = unit '\t' || d = unit ' ') = blanks at h
    generalize hnewlines : (rest.drop blanks.length).takeWhile (fun d => d = NEWLINE) = newlines
      at h
    split_ifs at h with hmatch
    obtain rfl := Option.some.inj h
    have hpos : 0 < newlines.length := List.length_pos_of_ne_nil hmatch.2
    have hlast : newlines.length - 1 < newlines.length := by omega
    have hprefix : newlines <+: rest.drop blanks.length := hnewlines ▸ List.takeWhile_prefix _
    have hall : ∀ d ∈ newlines, d = NEWLINE := by
      intro d hd
      rw [← hnewlines] at hd
      have hnew := List.mem_takeWhile_imp hd
      exact of_decide_eq_true hnew
    refine ⟨by omega, NEWLINE, ?_, blank_newline⟩
    have hindex : 1 + blanks.length + newlines.length - 1 =
        blanks.length + (newlines.length - 1) + 1 := by omega
    obtain ⟨more, hmore⟩ := hprefix
    rw [hindex, List.getElem?_cons_succ, ← List.getElem?_drop, ← hmore,
      List.getElem?_append_left hlast, List.getElem?_eq_getElem hlast, hall _ (List.getElem_mem hlast)]

theorem of_lastParagraphEnd {paragraphEnd : ℕ} (h : lastParagraphEnd text = some paragraphEnd) :
    BehindBlank text paragraphEnd := by
  induction text using lastParagraphEnd.induct generalizing paragraphEnd with
  | case1 =>
    rw [lastParagraphEnd] at h
    cases h
  | case2 c rest hmatch ih =>
    rw [lastParagraphEnd, hmatch] at h
    obtain ⟨inner, hinner, rfl⟩ := Option.map_eq_some_iff.mp h
    rw [Nat.add_comm]
    exact behindBlank_append [c] (ih hinner)
  | case3 c rest length hmatch ih =>
    have hfound := of_matchParagraphBreak hmatch
    rw [lastParagraphEnd, hmatch] at h
    obtain rfl := Option.some.inj h
    cases hlater : lastParagraphEnd (rest.drop (length - 1)) with
    | none => exact hfound
    | some inner =>
      have hsplit : (c :: rest).take length ++ rest.drop (length - 1) = c :: rest := by
        conv_rhs => rw [← List.take_append_drop length (c :: rest)]
        obtain ⟨n, rfl⟩ := Nat.exists_eq_add_one.mpr hfound.1
        rfl
      have htake : ((c :: rest).take length).length = length :=
        List.length_take_of_le hfound.le_length
      have hinner := behindBlank_append ((c :: rest).take length) (ih hlater)
      rwa [hsplit, htake] at hinner

theorem of_lastIndexOf {c : CodeUnit} {upTo index : ℕ} (h : lastIndexOf text c upTo = some index) :
    index ≤ upTo ∧ text[index]? = some c := by
  induction upTo with
  | zero =>
    rw [lastIndexOf] at h
    split_ifs at h with hc
    obtain rfl := Option.some.inj h
    exact ⟨Nat.le_refl _, hc⟩
  | succ upTo ih =>
    rw [lastIndexOf] at h
    split_ifs at h with hc
    · obtain rfl := Option.some.inj h
      exact ⟨Nat.le_refl _, hc⟩
    · exact ⟨(ih h).1.trans (Nat.le_succ _), (ih h).2⟩

theorem of_lastBlankEnd {index blankEnd : ℕ} (h : lastBlankEnd text start index = some blankEnd) :
    blankEnd ≤ index ∧ BehindBlank text blankEnd := by
  induction index with
  | zero => cases h
  | succ index ih =>
    rw [lastBlankEnd] at h
    split_ifs at h with hstart hblank
    · obtain rfl := Option.some.inj h
      exact ⟨Nat.le_refl _, Nat.succ_pos _, (Option.any_eq_true _ _).mp hblank⟩
    · exact ⟨(ih h).1.trans (Nat.le_succ _), (ih h).2⟩

/-- A preferred boundary is behind a blank of the window. -/
theorem of_findPreferredRangeEnd {preferredEnd : ℕ} (hstart : start < stop)
    (h : findPreferredRangeEnd text start stop = some preferredEnd) :
    preferredEnd ≤ stop ∧ BehindBlank text preferredEnd := by
  rw [findPreferredRangeEnd] at h
  cases hparagraph : lastParagraphEnd (slice text start stop) with
  | some paragraphEnd =>
    rw [hparagraph] at h
    obtain rfl := Option.some.inj h
    have hinside := of_lastParagraphEnd hparagraph
    obtain ⟨hpos, c, hc, hblank⟩ := hinside
    rw [getElem?_slice] at hc
    split_ifs at hc
    refine ⟨by omega, by omega, c, ?_, hblank⟩
    rw [← hc]
    congr 1
    omega
  | none =>
    rw [hparagraph] at h
    dsimp only at h
    cases hnewline : (lastIndexOf text NEWLINE (stop - 1)).filter (start ≤ ·) with
    | some newlineIndex =>
      rw [hnewline] at h
      obtain rfl := Option.some.inj h
      obtain ⟨hindex, -⟩ := Option.filter_eq_some_iff.mp hnewline
      obtain ⟨hle, hc⟩ := of_lastIndexOf hindex
      exact ⟨by omega, Nat.succ_pos _, NEWLINE, hc, blank_newline⟩
    | none =>
      rw [hnewline] at h
      exact of_lastBlankEnd h

end Preferred

/-- What a range from `start` on is. -/
structure RangeEnds (text : Utf16) (limit start stop : ℕ) : Prop where
  progress : start < stop
  le_length : stop ≤ text.length
  safe : splitsPair text stop = false
  bound : stop - start ≤ limit ∨ limit = 1 ∧ stop = start + 2 ∧ splitsPair text (start + 1) = true

section All

variable {text : Utf16} {limit start : ℕ}

theorem rangeEnd_ends (hlimit : 0 < limit) (mode : Option Mode) (hstart : start < text.length) :
    RangeEnds text limit start (rangeEnd text limit mode start) := by
  rw [rangeEnd]
  generalize hmax : min text.length (start + limit) = maxEnd
  have hbehind : start < maxEnd := by omega
  generalize hpreferred : ((if mode = some .preferred ∧ maxEnd < text.length then
    findPreferredRangeEnd text start maxEnd else none).filter (start < ·)) = preferredEnd
  cases preferredEnd with
  | some preferredEnd =>
    obtain ⟨hfound, hlt⟩ := Option.filter_eq_some_iff.mp hpreferred
    split_ifs at hfound
    obtain ⟨hle, hblank⟩ := of_findPreferredRangeEnd hbehind hfound
    rw [Option.getD_some, avoid_of_not_splits hblank.safe]
    exact ⟨of_decide_eq_true hlt, hblank.le_length, hblank.safe, .inl (by omega)⟩
  | none =>
    have h := avoided hbehind (by omega : maxEnd ≤ text.length)
    rw [Option.getD_none]
    refine ⟨h.progress, h.le_length, h.safe, ?_⟩
    rcases h.le_stop with hle | ⟨hmaxEnd, hresult, hsplits⟩
    · exact .inl (by omega)
    · have hinside := lt_of_splitsPair hsplits
      exact .inr ⟨by omega, hresult, hmaxEnd ▸ hsplits⟩

end All

/-- The loop of `chunkTextRanges`. -/
def rangesFrom (text : Utf16) (limit : ℕ) (hlimit : 0 < limit) (mode : Option Mode)
    (start : ℕ) : List TextChunkRange :=
  if _hstart : start < text.length then
    ⟨start, rangeEnd text limit mode start⟩ ::
      rangesFrom text limit hlimit mode (rangeEnd text limit mode start)
  else []
termination_by text.length - start
decreasing_by
  have hends := rangeEnd_ends hlimit mode _hstart
  have := hends.progress
  omega

theorem pos_of_cut {text : Utf16} {limit : ℕ} (h : ¬(limit = 0 ∨ text.length ≤ limit)) :
    0 < limit := Nat.pos_of_ne_zero fun hzero => h (.inl hzero)

def chunkTextRanges (text : Utf16) (limit : ℕ) (mode : Option Mode) : List TextChunkRange :=
  if text = [] then []
  else if h : limit = 0 ∨ text.length ≤ limit then [⟨0, text.length⟩]
  else rangesFrom text limit (pos_of_cut h) mode 0

theorem rangesFrom_ends {text : Utf16} {limit : ℕ} (hlimit : 0 < limit) (mode : Option Mode)
    {start : ℕ} (hstart : start ≤ text.length) :
    Contiguous start (rangesFrom text limit hlimit mode start) text.length ∧
      ∀ range ∈ rangesFrom text limit hlimit mode start,
        RangeEnds text limit range.start range.stop := by
  induction start using rangesFrom.induct text limit hlimit mode with
  | case1 start hlt ih =>
    have hends := rangeEnd_ends hlimit mode hlt
    obtain ⟨hrest, hall⟩ := ih hends.le_length
    rw [rangesFrom, dif_pos hlt]
    exact ⟨⟨rfl, hends.progress, hrest⟩, List.forall_mem_cons.mpr ⟨hends, hall⟩⟩
  | case2 start hlt =>
    rw [rangesFrom, dif_neg hlt]
    refine ⟨?_, fun range hrange => (List.not_mem_nil hrange).elim⟩
    show start = text.length
    omega

/-- The ranges of a text are the text, within the limit, and no boundary divides a pair. -/
theorem chunkTextRanges_partition (text : Utf16) (hne : text ≠ []) (limit : ℕ)
    (hlimit : 0 < limit) (mode : Option Mode) :
    Contiguous 0 (chunkTextRanges text limit mode) text.length ∧
      (∀ range ∈ chunkTextRanges text limit mode, range.stop - range.start ≤ limit ∨
        limit = 1 ∧ range.stop = range.start + 2 ∧ splitsPair text (range.start + 1) = true) ∧
      ∀ range ∈ chunkTextRanges text limit mode, splitsPair text range.stop = false := by
  rw [chunkTextRanges, if_neg hne]
  split_ifs with hshort
  · have hlength : text.length ≤ limit := by omega
    have hend : splitsPair text text.length = false := by
      rw [Bool.eq_false_iff]
      exact fun h => Nat.lt_irrefl _ (lt_of_splitsPair h)
    refine ⟨⟨rfl, List.length_pos_of_ne_nil hne, rfl⟩, ?_, ?_⟩
    · exact List.forall_mem_singleton.mpr (.inl hlength)
    · exact List.forall_mem_singleton.mpr hend
  · obtain ⟨hcover, hall⟩ := rangesFrom_ends hlimit mode (Nat.zero_le text.length)
    exact ⟨hcover, fun range hrange => (hall range hrange).bound,
      fun range hrange => (hall range hrange).safe⟩

/-- A pair of surrogates behind a letter, under a limit of one. -/
theorem chunkTextRanges_partition_pair :
    Contiguous 0 (chunkTextRanges [unit 'a', 0xD83D, 0xDE00] 1 (some .preferred)) 3 ∧
      (∀ range ∈ chunkTextRanges [unit 'a', 0xD83D, 0xDE00] 1 (some .preferred),
        range.stop - range.start ≤ 1 ∨ 1 = 1 ∧ range.stop = range.start + 2 ∧
          splitsPair [unit 'a', 0xD83D, 0xDE00] (range.start + 1) = true) ∧
      ∀ range ∈ chunkTextRanges [unit 'a', 0xD83D, 0xDE00] 1 (some .preferred),
        splitsPair [unit 'a', 0xD83D, 0xDE00] range.stop = false :=
  chunkTextRanges_partition [unit 'a', 0xD83D, 0xDE00] (List.cons_ne_nil _ _) 1 Nat.one_pos
    (some .preferred)

end Flashclaw.MarkdownCore
