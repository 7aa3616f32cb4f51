import Flashclaw.Lib.Results
import Flashclaw.Compaction.Cut

/-!
# Compaction: the preparation

`prepareCompaction`, which splits the messages since the last compaction into
those to summarize, the start of a turn that is cut, and those to keep.
-/

namespace Flashclaw.Compaction

open Utf16

/-- The paths of the files that were read, written and edited, each once. -/
structure FileOperations where
  read : List Utf16
  written : List Utf16
  edited : List Utf16

def createFileOps : FileOperations := ⟨[], [], []⟩

/-- `Set.prototype.add`. -/
def addPath (set : List Utf16) (path : Utf16) : List Utf16 :=
  if path ∈ set then set else set ++ [path]

/-- `args.path`, if it is a text that is not empty. -/
def toolCallPath (arguments : List (Utf16 × JsValue)) : Option Utf16 :=
  match arguments.find? (·.1 = ofString "path") with
  | some (_, .string path) => if path ≠ [] then some path else none
  | _ => none

def extractFileOpsFromBlock (fileOps : FileOperations) : AssistantBlock → FileOperations
  | .toolCall name arguments =>
    match toolCallPath arguments with
    | none => fileOps
    | some path =>
      if name = ofString "read" then { fileOps with read := addPath fileOps.read path }
      else if name = ofString "write" then { fileOps with written := addPath fileOps.written path }
      else if name = ofString "edit" then { fileOps with edited := addPath fileOps.edited path }
      else fileOps
  | _ => fileOps

def extractFileOpsFromMessage (fileOps : FileOperations) : AgentMessage → FileOperations
  | .llm (.assistant message) => message.content.foldl extractFileOpsFromBlock fileOps
  | _ => fileOps

/-- The file lists of the last compaction, if it is one whose details are the code's own. -/
def previousFileOps (previous : Option CompactionEntry) : FileOperations :=
  match previous.filter fun entry => !entry.fromHook with
  | none => createFileOps
  | some entry =>
    match entry.details with
    | none => createFileOps
    | some details =>
      { createFileOps with
        read := (details.readFiles.getD []).foldl addPath []
        edited := (details.modifiedFiles.getD []).foldl addPath [] }

def extractFileOperations (messages : List AgentMessage) (previous : Option CompactionEntry) :
    FileOperations :=
  messages.foldl extractFileOpsFromMessage (previousFileOps previous)

structure CompactionSettings where
  keepRecentTokens : JsNumber

structure CompactionPreparation where
  firstKeptEntryId : String
  messagesToSummarize : List AgentMessage
  turnPrefixMessages : List AgentMessage
  isSplitTurn : Bool
  tokensBefore : ℕ
  previousSummary : Option Utf16
  fileOps : FileOperations
  settings : CompactionSettings

/-- The index of the last compaction, none for `-1`. -/
def prevCompactionIndex (pathEntries : List SessionTreeEntry) : Option ℕ :=
  (List.range pathEntries.length).reverse.find? fun i =>
    (pathEntries[i]?).any SessionTreeEntry.isCompaction

/-- The last compaction, as `pathEntries[prevCompactionIndex]`. -/
def prevCompaction (pathEntries : List SessionTreeEntry) : Option CompactionEntry := do
  let i ← prevCompactionIndex pathEntries
  (← pathEntries[i]?).compaction?

/-- The index of the first entry that the last compaction kept, or of the one after it. -/
def boundaryStart (pathEntries : List SessionTreeEntry) : ℕ :=
  match prevCompactionIndex pathEntries, prevCompaction pathEntries with
  | some i, some entry =>
    let firstKeptEntryIndex := pathEntries.findIdx (·.id = entry.firstKeptEntryId)
    if firstKeptEntryIndex < pathEntries.length then firstKeptEntryIndex else i + 1
  | _, _ => 0

/-- The messages of the entries from one index up to another. -/
def messagesBetween (pathEntries : List SessionTreeEntry) (i j : ℕ) : List AgentMessage :=
  ((pathEntries.take j).drop i).filterMap getMessageFromEntryForCompaction

def prepareCompaction (pathEntries : List SessionTreeEntry) (settings : CompactionSettings) :
    Except CompactionFailure (Option CompactionPreparation) :=
  if (pathEntries.getLast?).any SessionTreeEntry.isCompaction || pathEntries.isEmpty then .ok none
  else do
    let start := boundaryStart pathEntries
    let tokensBefore := (estimateContextTokens (buildSessionContext pathEntries).messages).tokens
    let cutPoint ←
      findCutPoint pathEntries start pathEntries.length settings.keepRecentTokens
    let firstKeptEntryId := ((pathEntries[cutPoint.firstKeptEntryIndex]?).map (·.id)).getD ""
    if firstKeptEntryId = "" then
      throw (.error .invalid_session
        (ofString "First kept entry has no UUID - session may need migration"))
    let turnStart := if cutPoint.isSplitTurn then cutPoint.turnStartIndex else none
    let historyEnd := turnStart.getD cutPoint.firstKeptEntryIndex
    let messagesToSummarize := messagesBetween pathEntries start historyEnd
    let turnPrefixMessages :=
      if cutPoint.isSplitTurn then
        messagesBetween pathEntries historyEnd cutPoint.firstKeptEntryIndex
      else []
    if messagesToSummarize.length = 0 ∧ turnPrefixMessages.length = 0 then return none
    let fileOps := extractFileOperations messagesToSummarize (prevCompaction pathEntries)
    let fileOps :=
      if cutPoint.isSplitTurn then turnPrefixMessages.foldl extractFileOpsFromMessage fileOps
      else fileOps
    return some
      { firstKeptEntryId, messagesToSummarize, turnPrefixMessages,
        isSplitTurn := cutPoint.isSplitTurn, tokensBefore,
        previousSummary := (prevCompaction pathEntries).map (·.summary), fileOps, settings }

theorem prevCompactionIndex_append (path : List SessionTreeEntry) (entry : SessionTreeEntry) :
    prevCompactionIndex (path ++ [entry]) =
      if entry.isCompaction then some path.length else prevCompactionIndex path := by
  have hprev : (List.range path.length).reverse.find? (fun i =>
      ((path ++ [entry])[i]?).any SessionTreeEntry.isCompaction) = prevCompactionIndex path := by
    rw [prevCompactionIndex, ← List.head?_filter, ← List.head?_filter]
    congr 1
    apply List.filter_congr
    intro i hi
    rw [List.mem_reverse, List.mem_range] at hi
    rw [List.getElem?_append_left hi]
  rw [prevCompactionIndex, List.length_append, List.length_singleton, List.range_succ,
    List.reverse_append, List.reverse_singleton, List.singleton_append, List.find?_cons, hprev,
    List.getElem?_concat_length]
  cases h : entry.isCompaction <;> simp [h]

theorem lt_of_prevCompactionIndex {path : List SessionTreeEntry} {i : ℕ}
    (h : prevCompactionIndex path = some i) : i < path.length := by
  have hm := List.mem_of_find?_eq_some h
  rwa [List.mem_reverse, List.mem_range] at hm

/-- The last compaction is the one that the context of the session starts with. -/
theorem prevCompaction_eq (path : List SessionTreeEntry) :
    prevCompaction path = lastCompaction path := by
  induction path using List.reverseRecOn with
  | nil => rfl
  | append_singleton path entry ih =>
    rw [lastCompaction_concat, ← ih]
    unfold prevCompaction
    rw [prevCompactionIndex_append]
    cases hc : entry.compaction? with
    | some compaction =>
      simp [SessionTreeEntry.isCompaction, hc]
    | none =>
      rw [SessionTreeEntry.isCompaction, hc]
      cases hi : prevCompactionIndex path with
      | none => rfl
      | some i =>
        show ((path ++ [entry])[i]?).bind _ = (path[i]?).bind _
        rw [List.getElem?_append_left (lt_of_prevCompactionIndex hi)]

/-- How a preparation comes from the cut that was found and the cut point that it was found at. -/
structure Prepared (path : List SessionTreeEntry) (settings : CompactionSettings)
    (prep : CompactionPreparation) (r : CutPointResult) (c : ℕ) : Prop where
  found : FoundCut path (boundaryStart path) settings.keepRecentTokens r c
  kept : (path[r.firstKeptEntryIndex]?).map (·.id) = some prep.firstKeptEntryId
  history : prep.messagesToSummarize =
    messagesBetween path (boundaryStart path) (r.turnStartIndex.getD r.firstKeptEntryIndex)
  turn : prep.turnPrefixMessages =
    messagesBetween path (r.turnStartIndex.getD r.firstKeptEntryIndex) r.firstKeptEntryIndex
  isSplitTurn : prep.isSplitTurn = r.turnStartIndex.isSome
  previousSummary : prep.previousSummary = (lastCompaction path).map (·.summary)
  fileOps : prep.fileOps = extractFileOperations
    (prep.messagesToSummarize ++ prep.turnPrefixMessages) (lastCompaction path)
  id_ne : prep.firstKeptEntryId ≠ ""

theorem messagesBetween_self (path : List SessionTreeEntry) (i : ℕ) :
    messagesBetween path i i = [] := by
  rw [messagesBetween, List.drop_take, Nat.sub_self, List.take_zero]
  rfl

theorem prepareCompaction_spec {path : List SessionTreeEntry} {settings : CompactionSettings}
    {prep : CompactionPreparation} (h : prepareCompaction path settings = .ok (some prep)) :
    ∃ r c, Prepared path settings prep r c := by
  unfold prepareCompaction at h
  split at h
  · cases h
  · rename_i happlies
    obtain ⟨r, hr, h⟩ := Results.bind_eq_ok.mp h
    have hcut := findCutPoint_spec hr
    -- the flag and the start of the split turn agree, so each of the two reads is the start
    have hsplit : r.isSplitTurn = r.turnStartIndex.isSome := by
      obtain rfl | ⟨c, hc⟩ := hcut
      · rfl
      · exact hc.split
    have hturn : (if r.isSplitTurn = true then r.turnStartIndex else none) = r.turnStartIndex := by
      rw [hsplit]
      cases r.turnStartIndex <;> rfl
    have hstart : (if r.isSplitTurn = true then
        messagesBetween path (r.turnStartIndex.getD r.firstKeptEntryIndex) r.firstKeptEntryIndex
        else []) =
        messagesBetween path (r.turnStartIndex.getD r.firstKeptEntryIndex)
          r.firstKeptEntryIndex := by
      rw [hsplit]
      cases r.turnStartIndex with
      | none => exact (messagesBetween_self path _).symm
      | some t => rfl
    dsimp only at h
    rw [hturn, hstart] at h
    split at h
    · cases h
    · rename_i hid
      split at h
      · cases h
      · rename_i hne
        obtain rfl := Option.some.inj (Except.ok.inj h)
        -- something is summarized
        have hnot : messagesBetween path (boundaryStart path)
              (r.turnStartIndex.getD r.firstKeptEntryIndex) ≠ [] ∨
            messagesBetween path (r.turnStartIndex.getD r.firstKeptEntryIndex)
              r.firstKeptEntryIndex ≠ [] := by
          by_contra hempty
          push Not at hempty
          exact hne ⟨List.length_eq_zero_iff.mpr hempty.1, List.length_eq_zero_iff.mpr hempty.2⟩
        obtain rfl | ⟨c, hc⟩ := hcut
        · simp only [Option.getD_none, messagesBetween_self, ne_eq, not_true_eq_false,
            or_self] at hnot
        · refine ⟨r, c, hc, ?_, rfl, rfl, hsplit, ?_, ?_, hid⟩
          · cases hentry : path[r.firstKeptEntryIndex]? with
            | none =>
              rw [hentry] at hid
              exact absurd rfl hid
            | some entry => simp
          · rw [prevCompaction_eq]
          · rw [prevCompaction_eq, hsplit, extractFileOperations, extractFileOperations,
              List.foldl_append]
            cases r.turnStartIndex with
            | none =>
              rw [Option.getD_none, messagesBetween_self path r.firstKeptEntryIndex]
              rfl
            | some t => rfl

/-- What is prepared, if anything is. -/
def preparedOf (path : List SessionTreeEntry) (settings : CompactionSettings) :
    Option CompactionPreparation :=
  match prepareCompaction path settings with
  | .ok prep => prep
  | .error _ => none

theorem prepareCompaction_of_preparedOf {path : List SessionTreeEntry}
    {settings : CompactionSettings} {prep : CompactionPreparation}
    (h : preparedOf path settings = some prep) :
    prepareCompaction path settings = .ok (some prep) := by
  unfold preparedOf at h
  split at h
  · rename_i hok
    rw [hok, h]
  · cases h

end Flashclaw.Compaction
