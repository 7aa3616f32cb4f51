import Flashclaw.Lib.JsMap
import Flashclaw.Lib.Json
import Flashclaw.Lib.Utf16Text

/-!
# Repair of transcripts

`repairToolUseResultPairing` in `src/agents/session-transcript-repair.ts`: the results of tools are
moved behind the calls they answer, missing ones are made up, and what answers no call is dropped.
-/

namespace Flashclaw.Transcript

open Utf16

/-- A block of an assistant's message.  A field that holds no text is absent. -/
structure AssistantBlock where
  type : Option Utf16
  id : Option Utf16
  name : Option Utf16
  rest : JsValue

structure AssistantMessage where
  content : Option (List AssistantBlock)
  stopReason : Option Utf16
  rest : JsValue

inductive ContentBlock where
  | text (text : Utf16)
  | other (value : JsValue)

/-- `syntheticMissing` is the mark among the details of a result that a repair made up. -/
structure ToolResultMessage where
  toolCallId : Option Utf16
  toolUseId : Option Utf16
  tool_call_id : Option Utf16
  tool_use_id : Option Utf16
  callId : Option Utf16
  call_id : Option Utf16
  toolName : Option Utf16
  isError : Bool
  syntheticMissing : Bool
  content : Option (List ContentBlock)
  rest : JsValue

/-- An element of a transcript may be no message at all. -/
inductive AgentMessage where
  | assistant (message : AssistantMessage)
  | toolResult (message : ToolResultMessage)
  | other (message : JsValue)
  | invalid (value : JsValue)

structure ToolCallLike where
  id : Utf16
  name : Option Utf16

def TOOL_CALL_TYPES : List Utf16 :=
  [ofString "toolCall", ofString "toolUse", ofString "functionCall"]

def normalizeOptionalString (value : Option Utf16) : Option Utf16 :=
  (value.map trim).filter fun trimmed => trimmed ≠ []

def toolCallOf (block : AssistantBlock) : Option ToolCallLike :=
  match block.id, block.type with
  | some id, some type =>
    if id ≠ [] ∧ type ∈ TOOL_CALL_TYPES then some ⟨id, block.name⟩ else none
  | _, _ => none

def extractToolCallsFromAssistant (message : AssistantMessage) : List ToolCallLike :=
  (message.content.getD []).filterMap toolCallOf

/-- The calls of a message, which has none where it is not an assistant's. -/
def toolCallsOf : AgentMessage → List ToolCallLike
  | .assistant message => extractToolCallsFromAssistant message
  | _ => []

def extractToolResultIds (message : ToolResultMessage) : List Utf16 :=
  [message.toolCallId, message.toolUseId, message.tool_call_id, message.tool_use_id, message.callId,
    message.call_id].foldl (fun ids value =>
      match normalizeOptionalString value with
      | some id => if id ∈ ids then ids else ids ++ [id]
      | none => ids) []

def extractToolResultId (message : ToolResultMessage) : Option Utf16 :=
  (extractToolResultIds message).head?

def DEFAULT_MISSING_TOOL_RESULT_TEXT : Utf16 :=
  ofString ("[openclaw] missing tool result in session history; " ++
    "inserted synthetic error result for transcript repair.")

def UNKNOWN_TOOL : Utf16 := ofString "unknown"

def makeMissingToolResult (now : Number) (call : ToolCallLike) (text : Option Utf16) :
    ToolResultMessage where
  toolCallId := some call.id
  toolUseId := none
  tool_call_id := none
  tool_use_id := none
  callId := none
  call_id := none
  toolName := some (call.name.getD UNKNOWN_TOOL)
  isError := true
  syntheticMissing := true
  content := some [.text (text.getD DEFAULT_MISSING_TOOL_RESULT_TEXT)]
  rest := .object [(ofString "timestamp", .number now)]

def ContentBlock.isDefaultText : ContentBlock → Bool
  | .text value => value = DEFAULT_MISSING_TOOL_RESULT_TEXT
  | .other _ => false

def isSyntheticMissingToolResult (message : ToolResultMessage) : Bool :=
  message.isError &&
    (message.syntheticMissing || (message.content.getD []).any ContentBlock.isDefaultText)

/-- A result with its place in the transcript.  It is a copy once a field of it was changed. -/
structure Sourced where
  message : ToolResultMessage
  source : ℕ
  copied : Bool

def Sourced.withName (result : Sourced) (name : Utf16) : Sourced :=
  { result with message := { result.message with toolName := some name }, copied := true }

def normalizeToolResultName (result : Sourced) (fallbackName : Option Utf16) : Sourced :=
  match normalizeOptionalString result.message.toolName with
  | some name => if result.message.toolName = some name then result else result.withName name
  | none =>
    match normalizeOptionalString fallbackName with
    | some name => result.withName name
    | none => if result.message.toolName.isSome then result.withName UNKNOWN_TOOL else result

/-- A result without an id belongs to the one call there is, if their names agree. -/
def normalizeLegacyToolResultId (result : Sourced) (toolCalls : List ToolCallLike) : Sourced :=
  match extractToolResultId result.message, toolCalls with
  | none, [toolCall] =>
    match normalizeOptionalString result.message.toolName, normalizeOptionalString toolCall.name with
    | some resultName, some callName =>
      if resultName ≠ callName then result
      else
        { result with
          message := { result.message with toolCallId := some toolCall.id, isError := true }
          copied := true }
    | _, _ =>
      { result with
        message := { result.message with toolCallId := some toolCall.id, isError := true }
        copied := true }
  | _, _ => result

structure ToolResultRecord where
  result : Sourced
  id : Option Utf16

structure ToolCallOccurrence where
  id : Utf16
  name : Option Utf16
  result : Option Sourced

/-- The result for a call, under its name. -/
def ToolCallOccurrence.answer (result : Sourced) (occurrence : ToolCallOccurrence) :
    ToolCallOccurrence :=
  { occurrence with result := some (normalizeToolResultName result occurrence.name) }

/-- The places of the calls with one id, and of those among them with a made up result. -/
structure SameIdOccurrenceGroup where
  occurrences : List ℕ
  nextUnfilledIndex : ℕ
  syntheticOccurrences : List ℕ
  nextSyntheticIndex : ℕ

/-- An assistant's message with calls, and what follows it up to the next one. -/
structure FrameSpan where
  assistant : AssistantMessage
  startIndex : ℕ
  body : List (AgentMessage × ℕ)

/-- The messages before the first frame, and the frames.  Each frame ends where the next begins. -/
def splitFrames : List (AgentMessage × ℕ) → List (AgentMessage × ℕ) × List FrameSpan
  | [] => ([], [])
  | (message, index) :: rest =>
    match message with
    | .assistant assistant =>
      if extractToolCallsFromAssistant assistant = [] then
        ((message, index) :: (splitFrames rest).1, (splitFrames rest).2)
      else ([], ⟨assistant, index, (splitFrames rest).1⟩ :: (splitFrames rest).2)
    | _ => ((message, index) :: (splitFrames rest).1, (splitFrames rest).2)

/-- A frame while its messages are read. -/
structure FrameState where
  occurrences : List ToolCallOccurrence
  occurrencesById : JsMap Utf16 SameIdOccurrenceGroup
  remainder : List (AgentMessage × ℕ)
  unclaimedResults : List ToolResultRecord
  droppedDuplicateCount : ℕ

structure ToolUseFrame where
  assistant : AssistantMessage
  startIndex : ℕ
  remainder : List (AgentMessage × ℕ)
  unclaimedResults : List ToolResultRecord
  occurrences : List ToolCallOccurrence
  failed : Bool

def groupOccurrences (position : ℕ) (occurrencesById : JsMap Utf16 SameIdOccurrenceGroup) :
    List ToolCallLike → JsMap Utf16 SameIdOccurrenceGroup
  | [] => occurrencesById
  | toolCall :: toolCalls =>
    let group :=
      match occurrencesById.get? toolCall.id with
      | some group => { group with occurrences := group.occurrences ++ [position] }
      | none => ⟨[position], 0, [], 0⟩
    groupOccurrences (position + 1) (occurrencesById.set toolCall.id group) toolCalls

def FrameState.start (toolCalls : List ToolCallLike) : FrameState where
  occurrences := toolCalls.map fun toolCall => ⟨toolCall.id, toolCall.name, none⟩
  occurrencesById := groupOccurrences 0 .empty toolCalls
  remainder := []
  unclaimedResults := []
  droppedDuplicateCount := 0

/-- A result with the id of a group. -/
def FrameState.claim (state : FrameState) (group : SameIdOccurrenceGroup) (id : Utf16)
    (result : Sourced) : FrameState :=
  match group.occurrences[group.nextUnfilledIndex]? with
  | some unfilled =>
    { state with
      occurrences := state.occurrences.modify unfilled (ToolCallOccurrence.answer result)
      occurrencesById := state.occurrencesById.set id
        { group with
          nextUnfilledIndex := group.nextUnfilledIndex + 1
          syntheticOccurrences :=
            if isSyntheticMissingToolResult result.message then
              group.syntheticOccurrences ++ [unfilled]
            else group.syntheticOccurrences } }
  | none =>
    let state := { state with droppedDuplicateCount := state.droppedDuplicateCount + 1 }
    if isSyntheticMissingToolResult result.message then state
    else
      match group.syntheticOccurrences[group.nextSyntheticIndex]? with
      | none => state
      | some replaceable =>
        { state with
          occurrences := state.occurrences.modify replaceable (ToolCallOccurrence.answer result)
          occurrencesById := state.occurrencesById.set id
            { group with nextSyntheticIndex := group.nextSyntheticIndex + 1 } }

def FrameState.leaveUnclaimed (state : FrameState) (result : Sourced) (id : Option Utf16) :
    FrameState :=
  { state with unclaimedResults := state.unclaimedResults ++ [⟨result, id⟩] }

/-- The round of `buildToolUseFrames` for a message of a frame. -/
def FrameState.read (toolCalls : List ToolCallLike) (state : FrameState) :
    AgentMessage × ℕ → FrameState
  | (.invalid _, _) => state
  | (.toolResult message, index) =>
    let legacyNormalized := normalizeLegacyToolResultId ⟨message, index, false⟩ toolCalls
    match extractToolResultId legacyNormalized.message with
    | none => state.leaveUnclaimed legacyNormalized none
    | some id =>
      match state.occurrencesById.get? id with
      | none => state.leaveUnclaimed legacyNormalized (some id)
      | some group => state.claim group id legacyNormalized
  | entry => { state with remainder := state.remainder ++ [entry] }

def FrameSpan.readAll (span : FrameSpan) : FrameState :=
  let toolCalls := extractToolCallsFromAssistant span.assistant
  span.body.foldl (FrameState.read toolCalls) (.start toolCalls)

def isFailed (assistant : AssistantMessage) : Bool :=
  assistant.stopReason = some (ofString "error") || assistant.stopReason = some (ofString "aborted")

def FrameSpan.build (span : FrameSpan) : ToolUseFrame where
  assistant := span.assistant
  startIndex := span.startIndex
  remainder := span.readAll.remainder
  unclaimedResults := span.readAll.unclaimedResults
  occurrences := span.readAll.occurrences
  failed := isFailed span.assistant

/-- The calls of all frames in a row, and the places of those without a result of a tool. -/
structure RecoveryState where
  occurrences : List ToolCallOccurrence
  unresolvedById : JsMap Utf16 (List ℕ)
  droppedDuplicateCount : ℕ
  droppedOrphanCount : ℕ

def ToolCallOccurrence.isUnresolved (occurrence : ToolCallOccurrence) : Bool :=
  match occurrence.result with
  | none => true
  | some result => isSyntheticMissingToolResult result.message

/-- A call that a result may be for. -/
def ToolCallOccurrence.isCandidate (result : Sourced) (occurrence : ToolCallOccurrence) : Bool :=
  match occurrence.result with
  | none => true
  | some present =>
    isSyntheticMissingToolResult present.message && !isSyntheticMissingToolResult result.message

def RecoveryState.addUnresolved (state : RecoveryState) (place : ℕ) : RecoveryState :=
  match state.occurrences[place]? with
  | none => state
  | some occurrence =>
    if occurrence.isUnresolved then
      { state with unresolvedById := state.unresolvedById.push occurrence.id place }
    else state

def RecoveryState.dropOrphan (state : RecoveryState) : RecoveryState :=
  { state with droppedOrphanCount := state.droppedOrphanCount + 1 }

def RecoveryState.candidates (state : RecoveryState) (result : Sourced) (id : Utf16) : List ℕ :=
  (state.unresolvedById.getAll id).filter fun place =>
    state.occurrences[place]?.any (ToolCallOccurrence.isCandidate result)

/-- A result is moved to a call of another frame only if there is just one it may be for. -/
def RecoveryState.recover (state : RecoveryState) (record : ToolResultRecord) : RecoveryState :=
  match record.id with
  | none => state.dropOrphan
  | some id =>
    match state.candidates record.result id with
    | [place] =>
      { state with
        occurrences := state.occurrences.modify place (ToolCallOccurrence.answer record.result)
        droppedDuplicateCount :=
          if (state.occurrences[place]?.bind ToolCallOccurrence.result).isSome then
            state.droppedDuplicateCount + 1
          else state.droppedDuplicateCount }
    | _ => state.dropOrphan

/-- The frames in turn, of which the calls of one begin at a place. -/
def recoverFrames (first : ℕ) (state : RecoveryState) : List ToolUseFrame → RecoveryState
  | [] => state
  | frame :: frames =>
    let state :=
      (List.range' first frame.occurrences.length).foldl RecoveryState.addUnresolved state
    let state := frame.unclaimedResults.foldl RecoveryState.recover state
    recoverFrames (first + frame.occurrences.length) state frames

def startRecovery (frames : List ToolUseFrame) (droppedDuplicateCount : ℕ) : RecoveryState where
  occurrences := frames.flatMap ToolUseFrame.occurrences
  unresolvedById := .empty
  droppedDuplicateCount := droppedDuplicateCount
  droppedOrphanCount := 0

/-- Each frame with its calls of all the calls in a row. -/
def distribute : List ToolUseFrame → List ToolCallOccurrence → List ToolUseFrame
  | [], _ => []
  | frame :: frames, occurrences =>
    { frame with occurrences := occurrences.take frame.occurrences.length } ::
      distribute frames (occurrences.drop frame.occurrences.length)

structure ToolUseResultPairingOptions where
  dropErroredAssistantResults : Bool
  missingToolResultText : Option Utf16

/-- A message of the repaired transcript, with the place of the message it is or is made of. -/
structure OutMessage where
  message : AgentMessage
  source : Option ℕ
  copied : Bool

structure ToolUseRepairReport where
  messages : List AgentMessage
  added : List ToolResultMessage
  droppedDuplicateCount : ℕ
  droppedOrphanCount : ℕ
  moved : Bool

def OutMessage.kept (entry : AgentMessage × ℕ) : OutMessage := ⟨entry.1, some entry.2, false⟩

/-- `pushUnframedRange`: what is kept of messages outside of frames. -/
def unframedMessages (messages : List (AgentMessage × ℕ)) : List OutMessage :=
  messages.filterMap fun entry =>
    match entry.1 with
    | .invalid _ => none
    | .toolResult _ => none
    | _ => some (.kept entry)

def countUnframedResults (messages : List (AgentMessage × ℕ)) : ℕ :=
  messages.countP fun entry =>
    match entry.1 with
    | .toolResult _ => true
    | _ => false

section Output

variable (now : Number) (options : ToolUseResultPairingOptions)

def missingResult (occurrence : ToolCallOccurrence) : ToolResultMessage :=
  makeMissingToolResult now ⟨occurrence.id, occurrence.name⟩ options.missingToolResultText

/-- The result that is written for a call.  A failed turn may lack some. -/
def resultMessage (failed : Bool) (occurrence : ToolCallOccurrence) : Option OutMessage :=
  match occurrence.result with
  | some result => some ⟨.toolResult result.message, some result.source, result.copied⟩
  | none =>
    if failed then none else some ⟨.toolResult (missingResult now options occurrence), none, true⟩

def ToolUseFrame.isDropped (frame : ToolUseFrame) : Bool :=
  frame.failed && options.dropErroredAssistantResults

def ToolUseFrame.output (frame : ToolUseFrame) : List OutMessage :=
  let turn :=
    if frame.isDropped options then []
    else
      ⟨.assistant frame.assistant, some frame.startIndex, false⟩ ::
        frame.occurrences.filterMap (resultMessage now options frame.failed)
  turn ++ frame.remainder.map OutMessage.kept

def ToolUseFrame.added (frame : ToolUseFrame) : List ToolResultMessage :=
  if frame.failed then []
  else
    (frame.occurrences.filter fun occurrence => occurrence.result.isNone).map
      (missingResult now options)

/-- The frames after the recovery, and what was dropped on the way. -/
def recoveredFrames (spans : List FrameSpan) : List ToolUseFrame × RecoveryState :=
  let frames := spans.map FrameSpan.build
  let duplicates := (spans.map fun span => span.readAll.droppedDuplicateCount).sum
  let recovered := recoverFrames 0 (startRecovery frames duplicates) frames
  (distribute frames recovered.occurrences, recovered)

def repairOutput (messages : List AgentMessage) : List OutMessage :=
  let (unframed, spans) := splitFrames messages.zipIdx
  unframedMessages unframed ++ (recoveredFrames spans).1.flatMap (ToolUseFrame.output now options)

/-- Something is not where it was, or is no longer what it was. -/
def isChanged (messages : List AgentMessage) (out : List OutMessage) : Bool :=
  out.length ≠ messages.length ||
    out.zipIdx.any fun entry => entry.1.copied || entry.1.source ≠ some entry.2

def repairToolUseResultPairing (messages : List AgentMessage) : ToolUseRepairReport :=
  let (unframed, spans) := splitFrames messages.zipIdx
  let (frames, recovered) := recoveredFrames spans
  let out := repairOutput now options messages
  let changed := isChanged messages out
  { messages := if changed then out.map OutMessage.message else messages
    added := frames.flatMap (ToolUseFrame.added now options)
    droppedDuplicateCount := recovered.droppedDuplicateCount
    droppedOrphanCount := recovered.droppedOrphanCount + countUnframedResults unframed
    moved := changed }

end Output

end Flashclaw.Transcript
