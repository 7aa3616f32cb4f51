import Flashclaw.Lib.JsNumber
import Flashclaw.Compaction.Session

/-!
# Compaction: the cut

Where a compaction cuts a session path: `findCutPoint` as the code walks the
path, and what it finds.
-/

namespace Flashclaw.Compaction

inductive CompactionErrorCode where
  | aborted
  | summarization_failed
  | invalid_session
deriving DecidableEq

/-- What a compaction ends with where it gives no result: an error that is returned or one that
is thrown. -/
inductive CompactionFailure where
  | error (code : CompactionErrorCode) (message : Utf16)
  | thrown (message : Utf16)
deriving DecidableEq

open Utf16

def isCutPointMessage : AgentMessage → Bool
  | .llm (.toolResult _ _ _) => false
  | _ => true

def isTurnStartMessage : AgentMessage → Bool
  | .llm (.assistant _) => false
  | .llm (.toolResult _ _ _) => false
  | _ => true

def isTurnStartEntry (entry : SessionTreeEntry) : Bool :=
  (getMessageFromEntryForCompaction entry).any isTurnStartMessage

/-- The message that a compaction counts at an index. -/
def messageAt (entries : List SessionTreeEntry) (i : ℕ) : Option AgentMessage :=
  (entries[i]?).bind getMessageFromEntryForCompaction

def isCutPoint (entries : List SessionTreeEntry) (i : ℕ) : Bool :=
  (messageAt entries i).any isCutPointMessage

def startsTurn (entries : List SessionTreeEntry) (i : ℕ) : Bool :=
  (entries[i]?).any isTurnStartEntry

def findValidCutPoints (entries : List SessionTreeEntry) (startIndex endIndex : ℕ) : List ℕ :=
  (List.range' startIndex (endIndex - startIndex)).filter (isCutPoint entries)

/-- None for the index `-1`. -/
def findTurnStartIndex (entries : List SessionTreeEntry) : ℕ → ℕ → Option ℕ
  | 0, startIndex => if startIndex = 0 ∧ startsTurn entries 0 = true then some 0 else none
  | i + 1, startIndex =>
    if i + 1 < startIndex then none
    else if startsTurn entries (i + 1) then some (i + 1)
    else findTurnStartIndex entries i startIndex

/-- The loop over the entries before an index, from the last one on: the cut where the tokens
reach the budget. -/
def tokenWalk (entries : List SessionTreeEntry) (cutPoints : List ℕ) (firstCutIndex lastCutIndex
    startIndex : ℕ) (keepRecentTokens : JsNumber) : ℕ → ℕ → ℕ
  | 0, _ => firstCutIndex
  | i + 1, accumulatedTokens =>
    if i < startIndex then firstCutIndex
    else
      match messageAt entries i with
      | none =>
        tokenWalk entries cutPoints firstCutIndex lastCutIndex startIndex keepRecentTokens i
          accumulatedTokens
      | some message =>
        if keepRecentTokens ≤ JsNumber.ofNat (accumulatedTokens + estimateTokens message) then
          (cutPoints.find? fun cutPoint => i ≤ cutPoint).getD lastCutIndex
        else
          tokenWalk entries cutPoints firstCutIndex lastCutIndex startIndex keepRecentTokens i
            (accumulatedTokens + estimateTokens message)

/-- The entry has no message and is no compaction. -/
def isSilent (entry : SessionTreeEntry) : Bool :=
  !entry.isCompaction && (getMessageFromEntryForCompaction entry).isNone

/-- The loop that moves the cut back over entries without a message. -/
def moveBack (entries : List SessionTreeEntry) (startIndex : ℕ) : ℕ → ℕ
  | 0 => 0
  | i + 1 =>
    if startIndex < i + 1 ∧ (entries[i]?).any isSilent = true then moveBack entries startIndex i
    else i + 1

structure CutPointResult where
  firstKeptEntryIndex : ℕ
  /-- None for the index `-1`. -/
  turnStartIndex : Option ℕ
  isSplitTurn : Bool

def findCutPoint (entries : List SessionTreeEntry) (startIndex endIndex : ℕ)
    (keepRecentTokens : JsNumber) : Except CompactionFailure CutPointResult :=
  let cutPoints := findValidCutPoints entries startIndex endIndex
  match cutPoints.head?, cutPoints.getLast? with
  | some firstCutIndex, some lastCutIndex =>
    let chosen := tokenWalk entries cutPoints firstCutIndex lastCutIndex startIndex
      keepRecentTokens endIndex 0
    let cutIndex := moveBack entries startIndex chosen
    match entries[cutIndex]? with
    | none => .error (.thrown (ofString "compaction cut point does not reference a session entry"))
    | some cutEntry =>
      let turnStartIndex :=
        if isTurnStartEntry cutEntry then none
        else findTurnStartIndex entries cutIndex startIndex
      .ok ⟨cutIndex, turnStartIndex, !isTurnStartEntry cutEntry && turnStartIndex.isSome⟩
  | _, _ => .ok ⟨startIndex, none, false⟩

/-- The tokens of the messages from an index on. -/
def tokensFrom (entries : List SessionTreeEntry) (i : ℕ) : ℕ :=
  (((entries.drop i).filterMap getMessageFromEntryForCompaction).map estimateTokens).sum

/-- From this message on, the messages cost what is to be kept. -/
def Reaches (entries : List SessionTreeEntry) (keepRecentTokens : JsNumber) (i : ℕ) : Prop :=
  (messageAt entries i).isSome = true ∧ keepRecentTokens ≤ JsNumber.ofNat (tokensFrom entries i)

/-- The cut point nearest to an index: the first one from there on, else the last one. -/
def IsNearest (entries : List SessionTreeEntry) (i c : ℕ) : Prop :=
  (i ≤ c ∧ ∀ j, i ≤ j → j < c → isCutPoint entries j = false) ∨
    (c < i ∧ ∀ j, c < j → isCutPoint entries j = false)

/-- The cut point that the budget asks for: the one nearest to the last message from which on the
budget is reached, or the first one where it is never reached. -/
structure IsBudgetCut (entries : List SessionTreeEntry) (startIndex : ℕ)
    (keepRecentTokens : JsNumber) (c : ℕ) : Prop where
  start_le : startIndex ≤ c
  isCutPoint : isCutPoint entries c = true
  nearest : ∀ i, startIndex ≤ i → Reaches entries keepRecentTokens i →
    (∀ j, i < j → ¬ Reaches entries keepRecentTokens j) → IsNearest entries i c
  first : (∀ i, startIndex ≤ i → ¬ Reaches entries keepRecentTokens i) →
    ∀ j, startIndex ≤ j → j < c → Compaction.isCutPoint entries j = false

/-- The cut is moved back from this cut point. -/
def Moves (entries : List SessionTreeEntry) (startIndex c : ℕ) : Prop :=
  ∃ i, c = i + 1 ∧ startIndex ≤ i ∧ (entries[i]?).any isSilent = true

section CutPoints

variable {entries : List SessionTreeEntry} {startIndex i j c : ℕ} {keepRecentTokens : JsNumber}

theorem lt_length_of_messageAt {message : AgentMessage} (h : messageAt entries i = some message) :
    i < entries.length := by
  obtain ⟨e, he, -⟩ := Option.bind_eq_some_iff.mp h
  exact (List.getElem?_eq_some_iff.mp he).1

theorem exists_messageAt_of_isCutPoint (h : isCutPoint entries i = true) :
    ∃ message, messageAt entries i = some message ∧ isCutPointMessage message = true := by
  unfold isCutPoint at h
  cases hm : messageAt entries i with
  | none => rw [hm] at h; cases h
  | some message => rw [hm] at h; exact ⟨message, rfl, h⟩

theorem startsTurn_eq (entries : List SessionTreeEntry) (i : ℕ) :
    startsTurn entries i = (messageAt entries i).any isTurnStartMessage := by
  unfold startsTurn messageAt isTurnStartEntry
  cases entries[i]? <;> rfl

theorem mem_findValidCutPoints :
    i ∈ findValidCutPoints entries startIndex entries.length ↔
      startIndex ≤ i ∧ isCutPoint entries i = true := by
  rw [findValidCutPoints, List.mem_filter, List.mem_range'_1]
  constructor
  · rintro ⟨⟨hle, -⟩, hc⟩
    exact ⟨hle, hc⟩
  · rintro ⟨hle, hc⟩
    obtain ⟨message, hm, -⟩ := exists_messageAt_of_isCutPoint hc
    have hlt := lt_length_of_messageAt hm
    exact ⟨⟨hle, by omega⟩, hc⟩

theorem pairwise_findValidCutPoints (entries : List SessionTreeEntry) (startIndex endIndex : ℕ) :
    (findValidCutPoints entries startIndex endIndex).Pairwise (· < ·) :=
  List.Pairwise.filter _ List.pairwise_lt_range'

theorem tokensFrom_eq (entries : List SessionTreeEntry) (i : ℕ) :
    tokensFrom entries i =
      ((messageAt entries i).map estimateTokens).getD 0 + tokensFrom entries (i + 1) := by
  unfold tokensFrom messageAt
  by_cases hi : i < entries.length
  · rw [List.drop_eq_getElem_cons hi, List.getElem?_eq_getElem hi, Option.bind_some,
      List.filterMap_cons]
    cases getMessageFromEntryForCompaction entries[i] <;> simp
  · rw [List.drop_eq_nil_of_le (by omega), List.drop_eq_nil_of_le (by omega),
      List.getElem?_eq_none (by omega)]
    rfl

/-- The nearest cut points agree. -/
theorem IsNearest.unique {c' : ℕ} (h : IsNearest entries i c) (h' : IsNearest entries i c')
    (hc : isCutPoint entries c = true) (hc' : isCutPoint entries c' = true) : c = c' := by
  by_contra hne
  obtain ⟨hle, hfirst⟩ | ⟨hlt, hlast⟩ := h <;> obtain ⟨hle', hfirst'⟩ | ⟨hlt', hlast'⟩ := h'
  · obtain hlt | hlt := Nat.lt_or_gt_of_ne hne
    · rw [hfirst' c hle hlt] at hc
      cases hc
    · rw [hfirst c' hle' hlt] at hc'
      cases hc'
  · rw [hlast' c (by omega)] at hc
    cases hc
  · rw [hlast c' (by omega)] at hc'
    cases hc'
  · obtain hlt | hlt := Nat.lt_or_gt_of_ne hne
    · rw [hlast c' hlt] at hc'
      cases hc'
    · rw [hlast' c hlt] at hc
      cases hc

/-- A budget that is reached is reached from a last message on. -/
theorem exists_last_reaches (hle : startIndex ≤ i) (h : Reaches entries keepRecentTokens i) :
    ∃ k, startIndex ≤ k ∧ Reaches entries keepRecentTokens k ∧
      ∀ j, k < j → ¬ Reaches entries keepRecentTokens j := by
  classical
  have hbound : ∀ k, Reaches entries keepRecentTokens k → k ≤ entries.length := by
    rintro k ⟨hk, -⟩
    obtain ⟨message, hm⟩ := Option.isSome_iff_exists.mp hk
    exact (lt_length_of_messageAt hm).le
  refine ⟨Nat.findGreatest (Reaches entries keepRecentTokens) entries.length,
    hle.trans (Nat.le_findGreatest (hbound i h) h), Nat.findGreatest_spec (hbound i h) h, ?_⟩
  intro j hj hr
  exact Nat.findGreatest_is_greatest hj (hbound j hr) hr

theorem IsBudgetCut.unique {c' : ℕ} (h : IsBudgetCut entries startIndex keepRecentTokens c)
    (h' : IsBudgetCut entries startIndex keepRecentTokens c') : c = c' := by
  by_cases hr : ∃ i, startIndex ≤ i ∧ Reaches entries keepRecentTokens i
  · obtain ⟨i, hle, hi⟩ := hr
    obtain ⟨k, hk, hreach, hlast⟩ := exists_last_reaches hle hi
    exact (h.nearest k hk hreach hlast).unique (h'.nearest k hk hreach hlast)
      h.isCutPoint h'.isCutPoint
  · push Not at hr
    by_contra hne
    obtain hlt | hlt := Nat.lt_or_gt_of_ne hne
    · have hfalse := h'.first hr c h.start_le hlt
      rw [h.isCutPoint] at hfalse
      cases hfalse
    · have hfalse := h.first hr c' h'.start_le hlt
      rw [h'.isCutPoint] at hfalse
      cases hfalse

theorem IsBudgetCut.of_nearest (hle : startIndex ≤ i) (hr : Reaches entries keepRecentTokens i)
    (hlast : ∀ j, i < j → ¬ Reaches entries keepRecentTokens j)
    (hc : startIndex ≤ c ∧ Compaction.isCutPoint entries c = true) (hn : IsNearest entries i c) :
    IsBudgetCut entries startIndex keepRecentTokens c := by
  refine ⟨hc.1, hc.2, ?_, fun hnone => absurd hr (hnone i hle)⟩
  intro k hk hrk hlastk
  obtain hlt | rfl | hlt := Nat.lt_trichotomy i k
  · exact absurd hrk (hlast k hlt)
  · exact hn
  · exact absurd hr (hlastk i hlt)

theorem mem_find? {lastCutIndex : ℕ} {cutPoints : List ℕ}
    (hlast : cutPoints.getLast? = some lastCutIndex) (i : ℕ) :
    (cutPoints.find? fun cutPoint => i ≤ cutPoint).getD lastCutIndex ∈ cutPoints := by
  cases hfind : cutPoints.find? fun cutPoint => i ≤ cutPoint with
  | some c => exact List.mem_of_find?_eq_some hfind
  | none => exact List.mem_of_getLast? hlast

theorem isNearest_find? {lastCutIndex : ℕ}
    (hlast : (findValidCutPoints entries startIndex entries.length).getLast? = some lastCutIndex)
    (hle : startIndex ≤ i) :
    IsNearest entries i (((findValidCutPoints entries startIndex entries.length).find?
      fun cutPoint => i ≤ cutPoint).getD lastCutIndex) := by
  have hsorted := pairwise_findValidCutPoints entries startIndex entries.length
  cases hfind : (findValidCutPoints entries startIndex entries.length).find?
      fun cutPoint => i ≤ cutPoint with
  | some c =>
    left
    obtain ⟨hic, before, after, hsplit, hbefore⟩ := List.find?_eq_some_iff_append.mp hfind
    refine ⟨by simpa using hic, ?_⟩
    intro j hij hjc
    by_contra hj
    have hmem : j ∈ findValidCutPoints entries startIndex entries.length :=
      mem_findValidCutPoints.mpr ⟨hle.trans hij, by simpa using hj⟩
    rw [hsplit, List.mem_append, List.mem_cons] at hmem
    obtain hm | rfl | hm := hmem
    · have hnot := hbefore j hm
      simp [hij] at hnot
    · exact lt_irrefl _ hjc
    · rw [hsplit, List.pairwise_append, List.pairwise_cons] at hsorted
      have hlt := hsorted.2.1.1 j hm
      simp only [Option.getD_some] at hjc
      omega
  | none =>
    right
    rw [List.find?_eq_none] at hfind
    have hmem := List.mem_of_getLast? hlast
    refine ⟨by simpa using hfind _ hmem, ?_⟩
    intro j hj
    by_contra hcut
    obtain ⟨init, hinit⟩ := List.getLast?_eq_some_iff.mp hlast
    have hjm : j ∈ findValidCutPoints entries startIndex entries.length := by
      have hl := (mem_findValidCutPoints.mp hmem).1
      exact mem_findValidCutPoints.mpr ⟨hl.trans (le_of_lt hj), by simpa using hcut⟩
    rw [hinit, List.mem_append, List.mem_singleton] at hjm
    rw [hinit, List.pairwise_append] at hsorted
    obtain hm | rfl := hjm
    · have hlt := hsorted.2.2 j hm lastCutIndex (List.mem_singleton_self _)
      simp only [Option.getD_none] at hj
      omega
    · exact lt_irrefl _ hj

/-- The token walk finds the cut point that the budget asks for. -/
theorem isBudgetCut_tokenWalk {firstCutIndex lastCutIndex : ℕ}
    (hfirst : (findValidCutPoints entries startIndex entries.length).head? = some firstCutIndex)
    (hlast : (findValidCutPoints entries startIndex entries.length).getLast? = some lastCutIndex)
    (n : ℕ) (hn : ∀ j, n ≤ j → ¬ Reaches entries keepRecentTokens j) :
    IsBudgetCut entries startIndex keepRecentTokens
      (tokenWalk entries (findValidCutPoints entries startIndex entries.length) firstCutIndex
        lastCutIndex startIndex keepRecentTokens n (tokensFrom entries n)) := by
  have hsorted := pairwise_findValidCutPoints entries startIndex entries.length
  -- where the budget is not reached, the first cut is the answer
  have hfirstCut : (∀ j, startIndex ≤ j → ¬ Reaches entries keepRecentTokens j) →
      IsBudgetCut entries startIndex keepRecentTokens firstCutIndex := by
    intro hnone
    have hmem := mem_findValidCutPoints.mp (List.mem_of_head? hfirst)
    refine ⟨hmem.1, hmem.2, fun i hi hr => absurd hr (hnone i hi), ?_⟩
    intro _ j hj hlt
    by_contra hcut
    have hjm : j ∈ findValidCutPoints entries startIndex entries.length :=
      mem_findValidCutPoints.mpr ⟨hj, by simpa using hcut⟩
    obtain ⟨rest, hrest⟩ := List.head?_eq_some_iff.mp hfirst
    rw [hrest, List.mem_cons] at hjm
    rw [hrest, List.pairwise_cons] at hsorted
    obtain rfl | hm := hjm
    · exact lt_irrefl _ hlt
    · have := hsorted.1 j hm
      omega
  induction n with
  | zero =>
    rw [tokenWalk]
    exact hfirstCut fun j _ => hn j (Nat.zero_le j)
  | succ i ih =>
    rw [tokenWalk]
    split
    · rename_i hlt
      exact hfirstCut fun j hj => hn j (by omega)
    · rename_i hge
      have htokens := tokensFrom_eq entries i
      cases hm : messageAt entries i with
      | none =>
        rw [hm] at htokens
        simp only [Option.map_none, Option.getD_none, zero_add] at htokens
        rw [← htokens]
        apply ih
        intro j hj
        obtain rfl | hlt := Nat.eq_or_lt_of_le hj
        · rintro ⟨hsome, -⟩
          rw [hm] at hsome
          cases hsome
        · exact hn j hlt
      | some message =>
        rw [hm] at htokens
        simp only [Option.map_some, Option.getD_some] at htokens
        rw [Nat.add_comm] at htokens
        simp only [← htokens]
        split
        · rename_i hreach
          -- the last entry at which the budget is reached
          have hri : Reaches entries keepRecentTokens i := ⟨by rw [hm]; rfl, hreach⟩
          exact IsBudgetCut.of_nearest (not_lt.mp hge) hri (fun j hj => hn j hj)
            (mem_findValidCutPoints.mp (mem_find? hlast i)) (isNearest_find? hlast (not_lt.mp hge))
        · rename_i hreach
          apply ih
          intro j hj
          obtain rfl | hlt := Nat.eq_or_lt_of_le hj
          · exact fun h => hreach h.2
          · exact hn j hlt

theorem moveBack_spec (hle : startIndex ≤ c) :
    startIndex ≤ moveBack entries startIndex c ∧ moveBack entries startIndex c ≤ c ∧
      ∀ i, moveBack entries startIndex c ≤ i → i < c → (entries[i]?).any isSilent = true := by
  induction c with
  | zero => exact ⟨hle, le_rfl, fun i _ hi => absurd hi (Nat.not_lt_zero i)⟩
  | succ k ih =>
    rw [moveBack]
    split
    · rename_i hmoves
      obtain ⟨hstart, hend, hsilent⟩ := ih (Nat.le_of_lt_succ hmoves.1)
      refine ⟨hstart, hend.trans (Nat.le_succ k), ?_⟩
      intro i hi hlt
      obtain rfl | hik := Nat.eq_or_lt_of_le (Nat.le_of_lt_succ hlt)
      · exact hmoves.2
      · exact hsilent i hi hik
    · exact ⟨hle, le_rfl, fun i hi hlt => absurd hi (not_le.mpr hlt)⟩

theorem moveBack_lt_iff (hle : startIndex ≤ c) :
    moveBack entries startIndex c < c ↔ Moves entries startIndex c := by
  cases c with
  | zero =>
    constructor
    · exact fun h => absurd h (Nat.not_lt_zero _)
    · rintro ⟨i, hi, -⟩
      cases hi
  | succ k =>
    rw [moveBack]
    constructor
    · intro h
      split at h
      · rename_i hmoves
        exact ⟨k, rfl, Nat.le_of_lt_succ hmoves.1, hmoves.2⟩
      · exact absurd h (lt_irrefl _)
    · rintro ⟨i, hi, hstart, hsilent⟩
      obtain rfl := Nat.succ.inj hi
      rw [if_pos ⟨Nat.lt_succ_of_le hstart, hsilent⟩]
      exact Nat.lt_succ_of_le (moveBack_spec hstart).2.1

/-- The last start of a turn up to an index, if there is one from the start on. -/
theorem findTurnStartIndex_eq_some {t : ℕ} :
    findTurnStartIndex entries i startIndex = some t ↔
      startIndex ≤ t ∧ t ≤ i ∧ startsTurn entries t = true ∧
        ∀ j, t < j → j ≤ i → startsTurn entries j = false := by
  induction i with
  | zero =>
    rw [findTurnStartIndex]
    constructor
    · intro h
      split at h
      · rename_i hzero
        obtain rfl := Option.some.inj h
        exact ⟨hzero.1.le, le_rfl, hzero.2, fun j hj hj' => absurd hj (by omega)⟩
      · cases h
    · rintro ⟨hstart, hle, ht, -⟩
      obtain rfl := Nat.le_zero.mp hle
      rw [if_pos ⟨Nat.le_zero.mp hstart, ht⟩]
  | succ k ih =>
    rw [findTurnStartIndex]
    constructor
    · intro h
      split at h
      · cases h
      · rename_i hstart
        split at h
        · rename_i hturn
          obtain rfl := Option.some.inj h
          exact ⟨by omega, le_rfl, hturn, fun j hj hj' => absurd hj (by omega)⟩
        · rename_i hturn
          obtain ⟨hs, hle, ht, hlast⟩ := ih.mp h
          refine ⟨hs, by omega, ht, ?_⟩
          intro j hj hjk
          obtain rfl | hlt := Nat.eq_or_lt_of_le hjk
          · simpa using hturn
          · exact hlast j hj (Nat.le_of_lt_succ hlt)
    · rintro ⟨hs, hle, ht, hlast⟩
      rw [if_neg (by omega)]
      obtain rfl | hlt := Nat.eq_or_lt_of_le hle
      · rw [if_pos ht]
      · rw [if_neg (by rw [hlast (k + 1) hlt le_rfl]; exact Bool.false_ne_true)]
        exact ih.mpr ⟨hs, Nat.le_of_lt_succ hlt, ht, fun j hj hjk => hlast j hj (by omega)⟩

end CutPoints

/-- What `findCutPoint` has to do with the cut point that the budget asks for. -/
structure FoundCut (entries : List SessionTreeEntry) (startIndex : ℕ)
    (keepRecentTokens : JsNumber) (r : CutPointResult) (c : ℕ) : Prop where
  budget : IsBudgetCut entries startIndex keepRecentTokens c
  start_le : startIndex ≤ r.firstKeptEntryIndex
  le : r.firstKeptEntryIndex ≤ c
  silent : ∀ i, r.firstKeptEntryIndex ≤ i → i < c → (entries[i]?).any isSilent = true
  lt_iff : r.firstKeptEntryIndex < c ↔ Moves entries startIndex c
  turn : ∀ t, r.turnStartIndex = some t ↔
    startsTurn entries r.firstKeptEntryIndex = false ∧ startIndex ≤ t ∧
      t < r.firstKeptEntryIndex ∧ startsTurn entries t = true ∧
      ∀ j, t < j → j < r.firstKeptEntryIndex → startsTurn entries j = false
  split : r.isSplitTurn = r.turnStartIndex.isSome

namespace FoundCut

variable {entries : List SessionTreeEntry} {startIndex i c : ℕ} {keepRecentTokens : JsNumber}
  {r : CutPointResult}

theorem messageAt_eq_none (h : FoundCut entries startIndex keepRecentTokens r c)
    (hle : r.firstKeptEntryIndex ≤ i) (hlt : i < c) : messageAt entries i = none := by
  have hsilent := h.silent i hle hlt
  unfold messageAt
  cases hentry : entries[i]? with
  | none => rfl
  | some entry =>
    rw [hentry] at hsilent
    simp only [Option.any_some, isSilent, Bool.and_eq_true, Option.isNone_iff_eq_none] at hsilent
    exact hsilent.2

theorem startsTurn_eq_false (h : FoundCut entries startIndex keepRecentTokens r c)
    (hle : r.firstKeptEntryIndex ≤ i) (hlt : i < c) : startsTurn entries i = false := by
  rw [startsTurn_eq, h.messageAt_eq_none hle hlt]
  rfl

/-- A turn is split where the entry at the cut starts none and one before it does. -/
theorem isSplitTurn_iff (h : FoundCut entries startIndex keepRecentTokens r c) :
    r.isSplitTurn = true ↔ startsTurn entries r.firstKeptEntryIndex = false ∧
      ∃ t, startIndex ≤ t ∧ t < r.firstKeptEntryIndex ∧ startsTurn entries t = true := by
  rw [h.split, Option.isSome_iff_exists]
  constructor
  · rintro ⟨t, ht⟩
    obtain ⟨hnot, hs, hlt, hstarts, -⟩ := (h.turn t).mp ht
    exact ⟨hnot, t, hs, hlt, hstarts⟩
  · rintro ⟨hnot, t, hs, hlt, hstarts⟩
    let p : ℕ → Prop := fun j => j < r.firstKeptEntryIndex ∧ startsTurn entries j = true
    have hp : p (Nat.findGreatest p r.firstKeptEntryIndex) :=
      Nat.findGreatest_spec hlt.le ⟨hlt, hstarts⟩
    refine ⟨Nat.findGreatest p r.firstKeptEntryIndex, (h.turn _).mpr ⟨hnot,
      hs.trans (Nat.le_findGreatest hlt.le ⟨hlt, hstarts⟩), hp.1, hp.2, ?_⟩⟩
    intro j hj hjk
    by_contra hstartsj
    exact Nat.findGreatest_is_greatest hj hjk.le ⟨hjk, by simpa using hstartsj⟩

end FoundCut

theorem findCutPoint_spec {entries : List SessionTreeEntry} {startIndex : ℕ}
    {keepRecentTokens : JsNumber} {r : CutPointResult}
    (h : findCutPoint entries startIndex entries.length keepRecentTokens = .ok r) :
    r = ⟨startIndex, none, false⟩ ∨ ∃ c, FoundCut entries startIndex keepRecentTokens r c := by
  unfold findCutPoint at h
  cases hfirst : (findValidCutPoints entries startIndex entries.length).head? with
  | none =>
    simp only [hfirst] at h
    exact .inl (Except.ok.inj h).symm
  | some firstCutIndex =>
    cases hlast : (findValidCutPoints entries startIndex entries.length).getLast? with
    | none =>
      simp only [hfirst, hlast] at h
      exact .inl (Except.ok.inj h).symm
    | some lastCutIndex =>
      right
      simp only [hfirst, hlast] at h
      -- the walk begins behind the last entry, with no tokens counted
      have hnone : ∀ j, entries.length ≤ j → ¬ Reaches entries keepRecentTokens j := by
        rintro j hj ⟨hsome, -⟩
        obtain ⟨message, hm⟩ := Option.isSome_iff_exists.mp hsome
        have := lt_length_of_messageAt hm
        omega
      have hzero : tokensFrom entries entries.length = 0 := by
        simp [tokensFrom]
      have hbudget := isBudgetCut_tokenWalk hfirst hlast entries.length hnone
      rw [hzero] at hbudget
      generalize tokenWalk entries (findValidCutPoints entries startIndex entries.length)
        firstCutIndex lastCutIndex startIndex keepRecentTokens entries.length 0 = c at h hbudget
      obtain ⟨hstart, hle, hsilent⟩ := @moveBack_spec entries _ _ hbudget.start_le
      have hlt := @moveBack_lt_iff entries _ _ hbudget.start_le
      generalize moveBack entries startIndex c = cutIndex at h hstart hle hsilent hlt
      cases hentry : entries[cutIndex]? with
      | none =>
        simp only [hentry] at h
        cases h
      | some cutEntry =>
        simp only [hentry] at h
        obtain rfl := Except.ok.inj h
        -- the turn of the cut is looked for only where the cut does not start one
        have hturn : startsTurn entries cutIndex = isTurnStartEntry cutEntry := by
          rw [startsTurn, hentry]
          rfl
        refine ⟨c, hbudget, hstart, hle, hsilent, hlt, ?_, ?_⟩
        · intro t
          show (if isTurnStartEntry cutEntry = true then none
            else findTurnStartIndex entries cutIndex startIndex) = some t ↔ _
          rw [hturn]
          split
          · rename_i hstarts
            simp [hstarts]
          · rename_i hstarts
            rw [findTurnStartIndex_eq_some]
            constructor
            · rintro ⟨hs, hle', ht, hlast'⟩
              have hne : t ≠ cutIndex := by
                rintro rfl
                rw [hturn] at ht
                exact hstarts ht
              exact ⟨by simpa using hstarts, hs, lt_of_le_of_ne hle' hne, ht,
                fun j hj hjc => hlast' j hj hjc.le⟩
            · rintro ⟨hnot, hs, hlt', ht, hlast'⟩
              refine ⟨hs, hlt'.le, ht, ?_⟩
              intro j hj hjc
              obtain rfl | hjlt := Nat.eq_or_lt_of_le hjc
              · rw [hturn]
                exact hnot
              · exact hlast' j hj hjlt
        · by_cases hstarts : isTurnStartEntry cutEntry = true <;> simp [hstarts]

end Flashclaw.Compaction
