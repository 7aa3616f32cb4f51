import Flashclaw.Compaction.Prepare

/-!
# Compaction: the history is partitioned

What a compaction summarizes and keeps, and the context after it, against the
messages since the last compaction.  A cut that is moved back from the start of
a turn is taken to split the turn before, and the context leaves out branch
summaries without text that the compaction counts.
-/

namespace Flashclaw.Compaction

/-- The messages that a compaction counts. -/
def messagesOf (entries : List SessionTreeEntry) : List AgentMessage :=
  entries.filterMap getMessageFromEntryForCompaction

/-- The entries from an id on. -/
def entriesFrom (path : List SessionTreeEntry) (id : String) : List SessionTreeEntry :=
  path.dropWhile (·.id ≠ id)

/-- The entries since the last compaction, those that it kept included. -/
def entriesSincePrevious (path : List SessionTreeEntry) : List SessionTreeEntry :=
  match lastCompaction path with
  | none => path
  | some entry => entriesFrom path entry.firstKeptEntryId

/-- What a preparation should be, and the context of the session after a compaction with it. -/
structure Partitions (path later : List SessionTreeEntry) (prep : CompactionPreparation)
    (entry : CompactionEntry) : Prop where
  partition : prep.messagesToSummarize ++ prep.turnPrefixMessages ++
    messagesOf (entriesFrom path prep.firstKeptEntryId) = messagesOf (entriesSincePrevious path)
  context : (buildSessionContext (path ++ .compaction entry :: later)).messages =
    createCompactionSummaryMessage entry ::
      messagesOf (entriesFrom path prep.firstKeptEntryId ++ later)
  first_kept : ∀ m, (messagesOf (entriesFrom path prep.firstKeptEntryId)).head? = some m →
    ∀ toolCallId content timestamp, m ≠ .llm (.toolResult toolCallId content timestamp)
  split : prep.isSplitTurn = true ↔
    (∃ m, (messagesOf (entriesFrom path prep.firstKeptEntryId)).head? = some m ∧
      isTurnStartMessage m = false) ∧
    ∃ m ∈ messagesOf ((entriesSincePrevious path).takeWhile (·.id ≠ prep.firstKeptEntryId)),
      isTurnStartMessage m = true

/-- From the cut point that the budget asks for on, no branch summary is empty, and the cut is
not moved back from it where it starts a turn that is not the first one. -/
def CutsCleanly (path later : List SessionTreeEntry) (settings : CompactionSettings) : Prop :=
  ∀ c, IsBudgetCut path (boundaryStart path) settings.keepRecentTokens c →
    (∀ entry ∈ path.drop c ++ later, isEmptyBranchSummary entry = false) ∧
    ¬ (Moves path (boundaryStart path) c ∧ startsTurn path c = true ∧
      ∃ t, boundaryStart path ≤ t ∧ t < c ∧ startsTurn path t = true)

section Slices

variable {path : List SessionTreeEntry} {i j k : ℕ}

theorem drop_take_append_drop (hij : i ≤ j) :
    (path.take j).drop i ++ path.drop j = path.drop i := by
  rw [List.drop_take]
  have hj : path.drop j = (path.drop i).drop (j - i) := by
    rw [List.drop_drop, Nat.add_sub_cancel' hij]
  rw [hj, List.take_append_drop]

theorem messagesBetween_append_messagesOf (hij : i ≤ j) :
    messagesBetween path i j ++ messagesOf (path.drop j) = messagesOf (path.drop i) := by
  rw [messagesBetween, messagesOf, ← List.filterMap_append, drop_take_append_drop hij, messagesOf]

theorem messagesBetween_append (hij : i ≤ j) (hjk : j ≤ k) :
    messagesBetween path i j ++ messagesBetween path j k = messagesBetween path i k := by
  have hj : (path.take k).take j = path.take j := by
    rw [List.take_take, Nat.min_eq_left hjk]
  rw [messagesBetween, messagesBetween, messagesBetween, ← List.filterMap_append, ← hj,
    drop_take_append_drop hij]

theorem mem_messagesBetween {m : AgentMessage} :
    m ∈ messagesBetween path i j ↔ ∃ k, i ≤ k ∧ k < j ∧ messageAt path k = some m := by
  rw [messagesBetween, List.mem_filterMap]
  constructor
  · rintro ⟨entry, he, hm⟩
    obtain ⟨n, hn⟩ := List.mem_iff_getElem?.mp he
    rw [List.getElem?_drop, List.getElem?_take] at hn
    split at hn
    · rename_i hlt
      exact ⟨i + n, by omega, hlt, by rw [messageAt, hn]; exact hm⟩
    · cases hn
  · rintro ⟨k, hik, hkj, hm⟩
    obtain ⟨entry, he, hm⟩ := Option.bind_eq_some_iff.mp hm
    refine ⟨entry, List.mem_iff_getElem?.mpr ⟨k - i, ?_⟩, hm⟩
    rw [List.getElem?_drop, List.getElem?_take, Nat.add_sub_cancel' hik, if_pos hkj, he]

theorem head?_messagesOf_drop {m : AgentMessage} (hij : i ≤ j)
    (hnone : ∀ k, i ≤ k → k < j → messageAt path k = none) (hm : messageAt path j = some m) :
    (messagesOf (path.drop i)).head? = some m := by
  have hnil : messagesBetween path i j = [] := by
    rw [List.eq_nil_iff_forall_not_mem]
    intro m hm
    obtain ⟨k, hik, hkj, hk⟩ := mem_messagesBetween.mp hm
    rw [hnone k hik hkj] at hk
    cases hk
  have hj := lt_length_of_messageAt hm
  rw [← messagesBetween_append_messagesOf hij, hnil, List.nil_append,
    List.drop_eq_getElem_cons hj, messagesOf, List.filterMap_cons]
  rw [messageAt, List.getElem?_eq_getElem hj, Option.bind_some] at hm
  rw [hm]
  rfl

end Slices

theorem entriesSincePrevious_eq {path : List SessionTreeEntry}
    (hearlier : ∀ compaction, .compaction compaction ∈ path →
      ∃ kept ∈ path, kept.id = compaction.firstKeptEntryId) :
    entriesSincePrevious path = path.drop (boundaryStart path) := by
  unfold entriesSincePrevious boundaryStart
  have hprev := prevCompaction_eq path
  cases hlast : lastCompaction path with
  | none =>
    rw [hprev, hlast]
    cases prevCompactionIndex path <;> rfl
  | some entry =>
    rw [hlast] at hprev
    obtain ⟨i, hi, -⟩ := Option.bind_eq_some_iff.mp hprev
    obtain ⟨e, he, hentry⟩ := List.exists_of_findSome?_eq_some hlast
    have hcompaction : e = .compaction entry := by
      cases e with
      | compaction entry' => exact congrArg _ (Option.some.inj hentry)
      | _ => cases hentry
    subst hcompaction
    obtain ⟨kept, hkept, hid⟩ := hearlier entry (List.mem_reverse.mp he)
    have hlt : path.findIdx (·.id = entry.firstKeptEntryId) < path.length :=
      List.findIdx_lt_length_of_exists ⟨kept, hkept, by simpa using hid⟩
    rw [hprev, hi]
    simp only [hlt, if_true]
    rw [entriesFrom, List.dropWhile_eq_drop_findIdx_not]
    simp

section

variable {path later : List SessionTreeEntry} {settings : CompactionSettings}
  {prep : CompactionPreparation} {entry : CompactionEntry} {r : CutPointResult} {c : ℕ}

theorem Prepared.entriesFrom_eq (h : Prepared path settings prep r c)
    (hids : (path.map (·.id)).Nodup) :
    entriesFrom path prep.firstKeptEntryId = path.drop r.firstKeptEntryIndex := by
  obtain ⟨e, he, hid⟩ := Option.map_eq_some_iff.mp h.kept
  rw [entriesFrom, ← hid]
  exact Lists.dropWhile_ne_eq_drop hids he

/-- The entries since the last compaction that are not kept. -/
theorem Prepared.takeWhile_eq (h : Prepared path settings prep r c)
    (hids : (path.map (·.id)).Nodup) :
    (path.drop (boundaryStart path)).takeWhile (·.id ≠ prep.firstKeptEntryId) =
      (path.take r.firstKeptEntryIndex).drop (boundaryStart path) := by
  obtain ⟨e, he, hid⟩ := Option.map_eq_some_iff.mp h.kept
  rw [← hid, List.drop_take]
  apply Lists.takeWhile_ne_eq_take
  · rw [List.map_drop]
    exact hids.sublist (List.drop_sublist _ _)
  · rw [List.getElem?_drop, Nat.add_sub_cancel' h.found.start_le]
    exact he

/-- What is summarized are the messages up to the cut. -/
theorem Prepared.summarized_eq (h : Prepared path settings prep r c) :
    prep.messagesToSummarize ++ prep.turnPrefixMessages =
      messagesBetween path (boundaryStart path) r.firstKeptEntryIndex := by
  have hbounds : boundaryStart path ≤ r.turnStartIndex.getD r.firstKeptEntryIndex ∧
      r.turnStartIndex.getD r.firstKeptEntryIndex ≤ r.firstKeptEntryIndex := by
    cases ht : r.turnStartIndex with
    | none => exact ⟨h.found.start_le, le_rfl⟩
    | some t =>
      obtain ⟨-, hs, hlt, -⟩ := (h.found.turn t).mp ht
      exact ⟨hs, hlt.le⟩
  rw [h.history, h.turn, messagesBetween_append hbounds.1 hbounds.2]

theorem Prepared.partition (h : Prepared path settings prep r c) :
    prep.messagesToSummarize ++ prep.turnPrefixMessages ++
        messagesOf (path.drop r.firstKeptEntryIndex) =
      messagesOf (path.drop (boundaryStart path)) := by
  rw [h.summarized_eq, messagesBetween_append_messagesOf h.found.start_le]

/-- The first kept message is the one of the cut point that the cut was found at. -/
theorem Prepared.head?_kept (h : Prepared path settings prep r c) :
    ∃ m, messageAt path c = some m ∧ isCutPointMessage m = true ∧
      (messagesOf (path.drop r.firstKeptEntryIndex)).head? = some m := by
  obtain ⟨m, hm, hcut⟩ := exists_messageAt_of_isCutPoint h.found.budget.isCutPoint
  exact ⟨m, hm, hcut,
    head?_messagesOf_drop h.found.le (fun k => h.found.messageAt_eq_none) hm⟩

theorem isEmptyBranchSummary_of_isSilent {e : SessionTreeEntry} (h : isSilent e = true) :
    isEmptyBranchSummary e = false := by
  cases e with
  | branch_summary id timestamp fromId summary => cases h
  | _ => rfl

/-- No branch summary is passed over when the cut is moved back. -/
theorem Prepared.forall_kept_iff (h : Prepared path settings prep r c) :
    (∀ e ∈ path.drop r.firstKeptEntryIndex ++ later, isEmptyBranchSummary e = false) ↔
      ∀ e ∈ path.drop c ++ later, isEmptyBranchSummary e = false := by
  have hpassed : ∀ e ∈ (path.take c).drop r.firstKeptEntryIndex,
      isEmptyBranchSummary e = false := by
    intro e he
    obtain ⟨n, hn⟩ := List.mem_iff_getElem?.mp he
    rw [List.getElem?_drop, List.getElem?_take] at hn
    split at hn
    · rename_i hlt
      have hsilent := h.found.silent _ (Nat.le_add_right _ n) hlt
      rw [hn] at hsilent
      exact isEmptyBranchSummary_of_isSilent hsilent
    · cases hn
  rw [← drop_take_append_drop h.found.le, List.append_assoc, List.forall_mem_append]
  exact and_iff_right hpassed

/-- Turn starts since the last compaction that are not kept, as messages and as indices. -/
theorem Prepared.exists_turnStart_iff :
    (∃ m ∈ messagesBetween path (boundaryStart path) r.firstKeptEntryIndex,
        isTurnStartMessage m = true) ↔
      ∃ t, boundaryStart path ≤ t ∧ t < r.firstKeptEntryIndex ∧ startsTurn path t = true := by
  simp only [mem_messagesBetween, startsTurn_eq, Option.any_eq_true]
  constructor
  · rintro ⟨m, ⟨t, hs, hlt, hm⟩, hstarts⟩
    exact ⟨t, hs, hlt, m, hm, hstarts⟩
  · rintro ⟨t, hs, hlt, m, hm, hstarts⟩
    exact ⟨m, ⟨t, hs, hlt, hm⟩, hstarts⟩

/-- The split is told right unless the cut is moved back from the start of a later turn. -/
theorem Prepared.split_iff (h : Prepared path settings prep r c) {m : AgentMessage}
    (hm : messageAt path c = some m) :
    (prep.isSplitTurn = true ↔ isTurnStartMessage m = false ∧
      ∃ t, boundaryStart path ≤ t ∧ t < r.firstKeptEntryIndex ∧ startsTurn path t = true) ↔
    ¬ (Moves path (boundaryStart path) c ∧ startsTurn path c = true ∧
      ∃ t, boundaryStart path ≤ t ∧ t < c ∧ startsTurn path t = true) := by
  have hc : startsTurn path c = isTurnStartMessage m := by
    rw [startsTurn_eq, hm]
    rfl
  have hearlier : (∃ t, boundaryStart path ≤ t ∧ t < c ∧ startsTurn path t = true) ↔
      ∃ t, boundaryStart path ≤ t ∧ t < r.firstKeptEntryIndex ∧ startsTurn path t = true := by
    constructor
    · rintro ⟨t, hs, hlt, hstarts⟩
      refine ⟨t, hs, ?_, hstarts⟩
      by_contra hge
      rw [h.found.startsTurn_eq_false (not_lt.mp hge) hlt] at hstarts
      cases hstarts
    · rintro ⟨t, hs, hlt, hstarts⟩
      exact ⟨t, hs, hlt.trans_le h.found.le, hstarts⟩
  rw [h.isSplitTurn, ← h.found.split, h.found.isSplitTurn_iff, hearlier, ← hc, ← h.found.lt_iff]
  obtain heq | hlt := Nat.eq_or_lt_of_le h.found.le
  · -- the cut stays where it was found
    rw [heq]
    simp
  · rw [h.found.startsTurn_eq_false le_rfl hlt]
    cases startsTurn path c <;> simp [hlt]

end

/-- What a compaction summarizes and keeps partitions the messages since the last one, and the
context after it is the summary with what was kept, exactly where the cut is clean. -/
theorem preparation_partitions_iff {path later : List SessionTreeEntry}
    {settings : CompactionSettings} {prep : CompactionPreparation} {entry : CompactionEntry}
    (hids : ((path ++ .compaction entry :: later).map (·.id)).Nodup)
    (hearlier : ∀ compaction, .compaction compaction ∈ path →
      ∃ kept ∈ path, kept.id = compaction.firstKeptEntryId)
    (hlater : ∀ e ∈ later, e.isCompaction = false)
    (hprep : prepareCompaction path settings = .ok (some prep))
    (hentry : entry.firstKeptEntryId = prep.firstKeptEntryId) :
    Partitions path later prep entry ↔ CutsCleanly path later settings := by
  obtain ⟨r, c, h⟩ := prepareCompaction_spec hprep
  rw [List.map_append, List.nodup_append] at hids
  have hnew : ∀ e ∈ path, e.id ≠ entry.id := fun e he =>
    hids.2.2 e.id (List.mem_map_of_mem he) entry.id (by simp [SessionTreeEntry.id])
  have hkept := h.entriesFrom_eq hids.1
  have hsince := entriesSincePrevious_eq hearlier
  obtain ⟨m, hm, hcut, hhead⟩ := h.head?_kept
  have hcontext : (buildSessionContext (path ++ .compaction entry :: later)).messages =
      createCompactionSummaryMessage entry ::
        messagesOf (entriesFrom path prep.firstKeptEntryId ++ later) ↔
      ∀ e ∈ path.drop c ++ later, isEmptyBranchSummary e = false := by
    rw [buildSessionContext_append hnew hlater, List.cons_inj_right, hentry, ← entriesFrom, hkept,
      messagesOf, filterMap_contextMessage_iff, h.forall_kept_iff]
  have hsplit : (prep.isSplitTurn = true ↔
      (∃ m, (messagesOf (entriesFrom path prep.firstKeptEntryId)).head? = some m ∧
        isTurnStartMessage m = false) ∧
      ∃ m ∈ messagesOf ((entriesSincePrevious path).takeWhile (·.id ≠ prep.firstKeptEntryId)),
        isTurnStartMessage m = true) ↔
      ¬ (Moves path (boundaryStart path) c ∧ startsTurn path c = true ∧
        ∃ t, boundaryStart path ≤ t ∧ t < c ∧ startsTurn path t = true) := by
    rw [← h.split_iff hm, hkept, hhead, hsince, h.takeWhile_eq hids.1, messagesOf,
      ← messagesBetween, Prepared.exists_turnStart_iff]
    simp
  constructor
  · intro hp c' hc'
    obtain rfl := h.found.budget.unique hc'
    exact ⟨hcontext.mp hp.context, hsplit.mp hp.split⟩
  · intro hclean
    obtain ⟨hempty, hmoves⟩ := hclean c h.found.budget
    refine ⟨?_, hcontext.mpr hempty, ?_, hsplit.mpr hmoves⟩
    · rw [hkept, hsince]
      exact h.partition
    · intro m' hm' toolCallId content timestamp
      rw [hkept, hhead] at hm'
      obtain rfl := Option.some.inj hm'
      rintro rfl
      cases hcut

section Samples

open Utf16

def userEntry (id text : String) : SessionTreeEntry :=
  .message id (.llm (.user (.string (ofString text)) false 0))

def assistantEntry (id text : String) : SessionTreeEntry :=
  .message id (.llm (.assistant
    ⟨[.text (ofString text)], "test-provider", "test-model", none, .stop, none, 0⟩))

/-- Settings that keep two tokens. -/
def keepTwo : CompactionSettings := ⟨.finite 2⟩

/-- A turn, and the start of another one. -/
def turnPath : List SessionTreeEntry :=
  [userEntry "a" "look", assistantEntry "b" "done", userEntry "c" "and then"]

/-- The two turns with a change of the model between them. -/
def changedPath : List SessionTreeEntry :=
  [userEntry "a" "look", assistantEntry "b" "done",
    .model_change "m" "test-provider" "test-model", userEntry "c" "and then"]

/-- A compaction that keeps the entries from an id on. -/
def compactionKeeping (id : String) : CompactionEntry :=
  ⟨"compaction", 0, ofString "so far", id, 0, none, false⟩

theorem preparation_partitions_iff_turnPath :
    ∃ prep, prepareCompaction turnPath keepTwo = .ok (some prep) ∧
      (Partitions turnPath [] prep (compactionKeeping prep.firstKeptEntryId) ↔
        CutsCleanly turnPath [] keepTwo) := by
  obtain ⟨prep, hprep⟩ := Option.isSome_iff_exists.mp
    (by decide +kernel : (preparedOf turnPath keepTwo).isSome = true)
  refine ⟨prep, prepareCompaction_of_preparedOf hprep, ?_⟩
  apply preparation_partitions_iff
  · show (["a", "b", "c", "compaction"] : List String).Nodup
    decide
  · intro compaction hm
    simp [turnPath, userEntry, assistantEntry] at hm
  · exact List.forall_mem_nil _
  · exact prepareCompaction_of_preparedOf hprep
  · rfl

/-- The cut moves back to the change of the model, and the turn before counts as split. -/
theorem preparation_not_partitions :
    ¬ ∀ (path later : List SessionTreeEntry) (settings : CompactionSettings)
      (prep : CompactionPreparation) (entry : CompactionEntry),
      ((path ++ .compaction entry :: later).map (·.id)).Nodup →
      (∀ compaction, .compaction compaction ∈ path →
        ∃ kept ∈ path, kept.id = compaction.firstKeptEntryId) →
      (∀ e ∈ later, e.isCompaction = false) →
      prepareCompaction path settings = .ok (some prep) →
      entry.firstKeptEntryId = prep.firstKeptEntryId → Partitions path later prep entry := by
  intro h
  obtain ⟨prep, hprep⟩ := Option.isSome_iff_exists.mp
    (by decide +kernel : (preparedOf changedPath keepTwo).isSome = true)
  have hsplit : (preparedOf changedPath keepTwo).map (fun p => (p.isSplitTurn,
      ((messagesOf (entriesFrom changedPath p.firstKeptEntryId)).head?).any isTurnStartMessage)) =
      some (true, true) := by decide +kernel
  rw [hprep] at hsplit
  simp only [Option.map_some, Option.some.injEq, Prod.mk.injEq] at hsplit
  have hpartitions := h changedPath [] keepTwo prep (compactionKeeping prep.firstKeptEntryId)
    (by show (["a", "b", "m", "c", "compaction"] : List String).Nodup; decide)
    (by intro compaction hm; simp [changedPath, userEntry, assistantEntry] at hm)
    (List.forall_mem_nil _) (prepareCompaction_of_preparedOf hprep) rfl
  obtain ⟨⟨m, hm, hnot⟩, -⟩ := hpartitions.split.mp hsplit.1
  have hstarts := hsplit.2
  rw [hm] at hstarts
  exact Bool.false_ne_true (hnot.symm.trans hstarts)

end Samples

end Flashclaw.Compaction
