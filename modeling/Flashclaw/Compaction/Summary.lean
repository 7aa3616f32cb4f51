import Flashclaw.Lib.Trace
import Flashclaw.Compaction.Prepare

/-!
# Compaction: the summary

`compact`, which has a summarizer answer prompts about the prepared messages
and adds the files that were read and modified.
-/

namespace Flashclaw.Compaction

open Utf16

/-- A summarizer answers a prompt, in whatever way, or throws. -/
abbrev Summarizer (σ : Type) := Utf16 → ExceptT CompactionFailure (StateM σ) AssistantMessage

/-- A computation that logs the prompts it has a summarizer answer. -/
abbrev Summarizing (σ α : Type) := Traced CompactionFailure σ Utf16 α

def SUMMARIZATION_PROMPT : Utf16 := ofString
  "The messages above are a conversation to summarize. Create a structured context checkpoint summary that another LLM will use to continue the work.

Use this EXACT format:

## Goal
[What is the user trying to accomplish? Can be multiple items if the session covers different tasks.]

## Constraints & Preferences
- [Any constraints, preferences, or requirements mentioned by user]
- [Or \"(none)\" if none were mentioned]

## Progress
### Done
- [x] [Completed tasks/changes]

### In Progress
- [ ] [Current work]

### Blocked
- [Issues preventing progress, if any]

## Key Decisions
- **[Decision]**: [Brief rationale]

## Next Steps
1. [Ordered list of what should happen next]

## Critical Context
- [Any data, examples, or references needed to continue]
- [Or \"(none)\" if not applicable]

Keep each section concise. Preserve exact file paths, function names, and error messages."

def UPDATE_SUMMARIZATION_PROMPT : Utf16 := ofString
  "The messages above are NEW conversation messages to incorporate into the existing summary provided in <previous-summary> tags.

Update the existing structured summary with new information. RULES:
- PRESERVE all existing information from the previous summary
- ADD new progress, decisions, and context from the new messages
- UPDATE the Progress section: move items from \"In Progress\" to \"Done\" when completed
- UPDATE \"Next Steps\" based on what was accomplished
- PRESERVE exact file paths, function names, and error messages
- If something is no longer relevant, you may remove it

Use this EXACT format:

## Goal
[Preserve existing goals, add new ones if the task expanded]

## Constraints & Preferences
- [Preserve existing, add new ones discovered]

## Progress
### Done
- [x] [Include previously done items AND newly completed items]

### In Progress
- [ ] [Current work - update based on progress]

### Blocked
- [Current blockers - remove if resolved]

## Key Decisions
- **[Decision]**: [Brief rationale] (preserve all previous, add new)

## Next Steps
1. [Update based on current state]

## Critical Context
- [Preserve important context, add new if needed]

Keep each section concise. Preserve exact file paths, function names, and error messages."

def TURN_PREFIX_SUMMARIZATION_PROMPT : Utf16 := ofString
  "This is the PREFIX of a turn that was too large to keep. The SUFFIX (recent work) is retained.

Summarize the prefix to provide context for the retained suffix:

## Original Request
[What did the user ask for in this turn?]

## Early Progress
- [Key decisions and work done in the prefix]

## Context for Suffix
- [Information needed to understand the retained recent work]

Be concise. Focus on what's needed to understand the kept suffix."

/-- The error message of an answer, or another one. -/
def errorMessageOr (response : AssistantMessage) (message : String) : Utf16 :=
  if isTruthy response.errorMessage then response.errorMessage.getD [] else ofString message

/-- The text blocks of an answer. -/
def responseText (response : AssistantMessage) : Utf16 :=
  join "\n" (response.content.filterMap fun
    | .text text => some text
    | _ => none)

section

variable {σ : Type} (summarizer : Summarizer σ)

def runSummarizationCompletion (promptText : Utf16) (errorLabel : String) :
    Summarizing σ Utf16 := do
  let response ← Traced.call (fun _ => promptText) (summarizer promptText)
  if response.stopReason = .aborted then
    throw (.error .aborted (errorMessageOr response (errorLabel ++ " aborted")))
  else if response.stopReason = .error then
    throw (.error .summarization_failed
      (ofString (errorLabel ++ " failed: ") ++ errorMessageOr response "Unknown error"))
  else return responseText response

/-- `<conversation>…</conversation>` -/
def conversationText (messages : List AgentMessage) : Utf16 :=
  ofString "<conversation>\n" ++ serializeConversation (convertToLlm messages) ++
    ofString "\n</conversation>\n\n"

/-- The prompt of `generateSummary`. -/
def summaryPrompt (currentMessages : List AgentMessage)
    (customInstructions previousSummary : Option Utf16) : Utf16 :=
  let basePrompt :=
    if isTruthy previousSummary then UPDATE_SUMMARIZATION_PROMPT else SUMMARIZATION_PROMPT
  let basePrompt :=
    if isTruthy customInstructions then
      basePrompt ++ ofString "\n\nAdditional focus: " ++ customInstructions.getD []
    else basePrompt
  let previous :=
    if isTruthy previousSummary then
      ofString "<previous-summary>\n" ++ previousSummary.getD [] ++
        ofString "\n</previous-summary>\n\n"
    else []
  conversationText currentMessages ++ previous ++ basePrompt

def generateSummary (currentMessages : List AgentMessage)
    (customInstructions previousSummary : Option Utf16) : Summarizing σ Utf16 :=
  runSummarizationCompletion summarizer
    (summaryPrompt currentMessages customInstructions previousSummary) "Summarization"

/-- The prompt of `generateTurnPrefixSummary`. -/
def turnPrefixPrompt (messages : List AgentMessage) : Utf16 :=
  conversationText messages ++ TURN_PREFIX_SUMMARIZATION_PROMPT

def generateTurnPrefixSummary (messages : List AgentMessage) : Summarizing σ Utf16 :=
  runSummarizationCompletion summarizer (turnPrefixPrompt messages) "Turn prefix summarization"

/-- The paths that were only read, and those that were modified. -/
def computeFileLists (fileOps : FileOperations) : List Utf16 × List Utf16 :=
  let modified := (fileOps.edited ++ fileOps.written).foldl addPath []
  ((fileOps.read.filter fun f => f ∉ modified).insertionSort (· ≤ ·),
    modified.insertionSort (· ≤ ·))

/-- `<tag>…</tag>` around paths, nothing around none. -/
def fileSection (tag : String) (files : List Utf16) : List Utf16 :=
  if files.length > 0 then
    [ofString ("<" ++ tag ++ ">\n") ++ join "\n" files ++ ofString ("\n</" ++ tag ++ ">")]
  else []

def formatFileOperations (readFiles modifiedFiles : List Utf16) : Utf16 :=
  let sections := fileSection "read-files" readFiles ++ fileSection "modified-files" modifiedFiles
  if sections.length = 0 then [] else ofString "\n\n" ++ join "\n\n" sections

structure CompactionResult where
  summary : Utf16
  firstKeptEntryId : String
  tokensBefore : ℕ
  details : CompactionDetails

/-- What stands between the summary of the history and that of the turn. -/
def splitTurnHeading : Utf16 := ofString "\n\n---\n\n**Turn Context (split turn):**\n\n"

/-- The summary without the file lists. -/
def compactSummary (preparation : CompactionPreparation) (customInstructions : Option Utf16) :
    Summarizing σ Utf16 :=
  if preparation.isSplitTurn && 0 < preparation.turnPrefixMessages.length then do
    let history ←
      if 0 < preparation.messagesToSummarize.length then
        generateSummary summarizer preparation.messagesToSummarize customInstructions
          preparation.previousSummary
      else pure (ofString "No prior history.")
    let turn ← generateTurnPrefixSummary summarizer preparation.turnPrefixMessages
    return history ++ splitTurnHeading ++ turn
  else
    generateSummary summarizer preparation.messagesToSummarize customInstructions
      preparation.previousSummary

def compact (preparation : CompactionPreparation) (customInstructions : Option Utf16) :
    Summarizing σ CompactionResult :=
  if preparation.firstKeptEntryId = "" then
    throw (.error .invalid_session
      (ofString "First kept entry has no UUID - session may need migration"))
  else do
    let summary ← compactSummary summarizer preparation customInstructions
    let (readFiles, modifiedFiles) := computeFileLists preparation.fileOps
    return ⟨summary ++ formatFileOperations readFiles modifiedFiles, preparation.firstKeptEntryId,
      preparation.tokensBefore, ⟨some readFiles, some modifiedFiles⟩⟩

end

end Flashclaw.Compaction
