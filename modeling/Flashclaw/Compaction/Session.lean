import Flashclaw.Lib.Lists
import Flashclaw.Compaction.Messages

/-!
# Compaction: sessions

The entries of a session path and the context a model is given for one.
-/

namespace Flashclaw.Compaction

/-- The file lists that a compaction stores, where its details have them. -/
structure CompactionDetails where
  readFiles : Option (List Utf16)
  modifiedFiles : Option (List Utf16)

structure CompactionEntry where
  id : String
  timestamp : ℤ
  summary : Utf16
  firstKeptEntryId : String
  tokensBefore : ℕ
  details : Option CompactionDetails
  fromHook : Bool

/-- An entry of a session path.  Timestamps are milliseconds: of an entry whose stamp is no date
there is no message, and what asks for it throws. -/
inductive SessionTreeEntry where
  | message (id : String) (message : AgentMessage)
  | thinking_level_change (id : String) (thinkingLevel : String)
  | model_change (id : String) (provider modelId : String)
  | compaction (entry : CompactionEntry)
  | branch_summary (id : String) (timestamp : ℤ) (fromId : String) (summary : Utf16)
  | custom (id : String)
  | custom_message (id : String) (message : CustomMessage)
  | label (id : String)
  | session_info (id : String)
  | leaf (id : String)

namespace SessionTreeEntry

def id : SessionTreeEntry → String
  | message id _ => id
  | thinking_level_change id _ => id
  | model_change id _ _ => id
  | compaction entry => entry.id
  | branch_summary id _ _ _ => id
  | custom id => id
  | custom_message id _ => id
  | label id => id
  | session_info id => id
  | leaf id => id

/-- The entry where it is a compaction. -/
def compaction? : SessionTreeEntry → Option CompactionEntry
  | compaction entry => some entry
  | _ => none

def isCompaction (entry : SessionTreeEntry) : Bool := entry.compaction?.isSome

end SessionTreeEntry

structure SessionContext where
  messages : List AgentMessage
  thinkingLevel : String
  model : Option (String × String)

/-- `appendMessage`: what the context takes of an entry. -/
def contextMessage : SessionTreeEntry → Option AgentMessage
  | .message _ message => some message
  | .custom_message _ message => some (.custom message)
  | .branch_summary _ timestamp fromId summary =>
    if summary ≠ [] then some (.branchSummary summary fromId timestamp) else none
  | _ => none

/-- `createCompactionSummaryMessage`. -/
def createCompactionSummaryMessage (entry : CompactionEntry) : AgentMessage :=
  .compactionSummary entry.summary entry.tokensBefore entry.timestamp

/-- The last compaction of a path. -/
def lastCompaction (pathEntries : List SessionTreeEntry) : Option CompactionEntry :=
  pathEntries.reverse.findSome? SessionTreeEntry.compaction?

/-- The state markers that an entry sets. -/
def applyMarker (context : SessionContext) : SessionTreeEntry → SessionContext
  | .thinking_level_change _ thinkingLevel => { context with thinkingLevel }
  | .model_change _ provider modelId => { context with model := some (provider, modelId) }
  | .message _ (.llm (.assistant message)) =>
    { context with model := some (message.provider, message.model) }
  | _ => context

def buildSessionContext (pathEntries : List SessionTreeEntry) : SessionContext :=
  let context := pathEntries.foldl applyMarker ⟨[], "off", none⟩
  match lastCompaction pathEntries with
  | none => { context with messages := pathEntries.filterMap contextMessage }
  | some compaction =>
    let compactionIdx := pathEntries.findIdx fun entry =>
      entry.isCompaction && entry.id = compaction.id
    let retained := (pathEntries.take compactionIdx).dropWhile fun entry =>
      entry.id ≠ compaction.firstKeptEntryId
    { context with
      messages := createCompactionSummaryMessage compaction ::
        ((retained ++ pathEntries.drop (compactionIdx + 1)).filterMap contextMessage) }

def getMessageFromEntry : SessionTreeEntry → Option AgentMessage
  | .message _ message => some message
  | .custom_message _ message => some (.custom message)
  | .branch_summary _ timestamp fromId summary => some (.branchSummary summary fromId timestamp)
  | .compaction entry => some (createCompactionSummaryMessage entry)
  | _ => none

def getMessageFromEntryForCompaction (entry : SessionTreeEntry) : Option AgentMessage :=
  if entry.isCompaction then none else getMessageFromEntry entry

/-- A branch summary without text. -/
def isEmptyBranchSummary : SessionTreeEntry → Bool
  | .branch_summary _ _ _ summary => summary = []
  | _ => false

/-- The context leaves out what a compaction counts only where a branch summary has no text. -/
theorem contextMessage_eq (entry : SessionTreeEntry) :
    contextMessage entry =
      if isEmptyBranchSummary entry then none else getMessageFromEntryForCompaction entry := by
  cases entry with
  | branch_summary id timestamp fromId summary =>
    by_cases h : summary = [] <;> simp [contextMessage, isEmptyBranchSummary, h,
      getMessageFromEntryForCompaction, getMessageFromEntry, SessionTreeEntry.isCompaction,
      SessionTreeEntry.compaction?]
  | _ => rfl

theorem contextMessage_eq_or_none (entry : SessionTreeEntry) :
    contextMessage entry = getMessageFromEntryForCompaction entry ∨ contextMessage entry = none := by
  rw [contextMessage_eq]
  split
  · exact .inr rfl
  · exact .inl rfl

theorem contextMessage_eq_iff (entry : SessionTreeEntry) :
    contextMessage entry = getMessageFromEntryForCompaction entry ↔
      isEmptyBranchSummary entry = false := by
  cases entry with
  | branch_summary id timestamp fromId summary =>
    by_cases h : summary = [] <;> simp [contextMessage, isEmptyBranchSummary, h,
      getMessageFromEntryForCompaction, getMessageFromEntry, SessionTreeEntry.isCompaction,
      SessionTreeEntry.compaction?]
  | _ => exact ⟨fun _ => rfl, fun _ => rfl⟩

/-- The context takes the messages of entries exactly where no branch summary is empty. -/
theorem filterMap_contextMessage_iff (entries : List SessionTreeEntry) :
    entries.filterMap contextMessage = entries.filterMap getMessageFromEntryForCompaction ↔
      ∀ entry ∈ entries, isEmptyBranchSummary entry = false := by
  simp_rw [Lists.filterMap_eq_filterMap_iff contextMessage_eq_or_none, contextMessage_eq_iff]

theorem lastCompaction_concat (path : List SessionTreeEntry) (entry : SessionTreeEntry) :
    lastCompaction (path ++ [entry]) = (entry.compaction?).or (lastCompaction path) := by
  rw [lastCompaction, List.reverse_append, List.reverse_singleton, List.singleton_append,
    List.findSome?_cons, lastCompaction]
  cases entry.compaction? <;> rfl

theorem lastCompaction_append {later : List SessionTreeEntry}
    (h : ∀ e ∈ later, e.isCompaction = false) (path : List SessionTreeEntry)
    (entry : CompactionEntry) : lastCompaction (path ++ .compaction entry :: later) = some entry := by
  have hnone : later.reverse.findSome? SessionTreeEntry.compaction? = none := by
    rw [List.findSome?_eq_none_iff]
    intro e he
    have hnot : e.compaction?.isSome = false := h e (List.mem_reverse.mp he)
    simpa using hnot
  rw [lastCompaction, List.reverse_append, List.reverse_cons, List.append_assoc,
    List.findSome?_append, hnone]
  rfl

/-- The context of a path that a compaction with an id of its own was appended to. -/
theorem buildSessionContext_append {path later : List SessionTreeEntry} {entry : CompactionEntry}
    (hid : ∀ e ∈ path, e.id ≠ entry.id) (hlater : ∀ e ∈ later, e.isCompaction = false) :
    (buildSessionContext (path ++ .compaction entry :: later)).messages =
      createCompactionSummaryMessage entry ::
        ((path.dropWhile fun e => e.id ≠ entry.firstKeptEntryId) ++ later).filterMap
          contextMessage := by
  have hidx : (path ++ .compaction entry :: later).findIdx
      (fun e => e.isCompaction && e.id = entry.id) = path.length := by
    rw [List.findIdx_append, List.findIdx_eq_length_of_false, if_neg (lt_irrefl _)]
    · simp [List.findIdx_cons, SessionTreeEntry.isCompaction, SessionTreeEntry.compaction?,
        SessionTreeEntry.id]
    · intro e he
      simp [hid e he]
  have hdrop : (path ++ .compaction entry :: later).drop (path.length + 1) = later := by
    rw [← List.drop_drop, List.drop_left]
    rfl
  unfold buildSessionContext
  rw [lastCompaction_append hlater]
  simp only [hidx, hdrop, List.take_left]

end Flashclaw.Compaction
