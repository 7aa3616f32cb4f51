import Flashclaw.Lib.Json
import Flashclaw.Lib.Utf16Text

/-!
# Compaction: messages

The messages of a session, the text a summarizer is shown of them, and the
tokens they are taken to cost.
-/

namespace Flashclaw.Compaction

open Utf16

/-- `if (text)`. -/
def isTruthy (text : Option Utf16) : Bool := text.any (· ≠ [])

inductive BlockType where
  | text
  | image
  | toolResult
  | tool_result
  | other
deriving DecidableEq

/-- A block of a user's, a tool's or a custom message. -/
structure ContentBlock where
  type : BlockType
  text : Option Utf16
  /-- The field of this name where it holds a string. -/
  content : Option Utf16

inductive Content where
  | string (text : Utf16)
  | blocks (blocks : List ContentBlock)

inductive AssistantBlock where
  | text (text : Utf16)
  | thinking (thinking : Utf16)
  /-- The arguments in the order of `Object.entries`. -/
  | toolCall (name : Utf16) (arguments : List (Utf16 × JsValue))

inductive StopReason where
  | stop
  | length
  | toolUse
  | error
  | aborted
deriving DecidableEq

inductive ContextUsage where
  | available (totalTokens : ℕ)
  | unavailable
deriving DecidableEq

structure Usage where
  input : ℕ
  output : ℕ
  cacheRead : ℕ
  cacheWrite : ℕ
  contextUsage : Option ContextUsage
  totalTokens : ℕ

structure AssistantMessage where
  content : List AssistantBlock
  provider : String
  model : String
  usage : Option Usage
  stopReason : StopReason
  errorMessage : Option Utf16
  timestamp : ℤ

/-- The messages that a model takes. -/
inductive Message where
  | user (content : Content) (runtimeContextCarrier : Bool) (timestamp : ℤ)
  | assistant (message : AssistantMessage)
  | toolResult (toolCallId : String) (content : List ContentBlock) (timestamp : ℤ)

structure BashExecutionMessage where
  command : Utf16
  output : Utf16
  exitCode : Option ℤ
  cancelled : Bool
  truncated : Bool
  fullOutputPath : Option Utf16
  excludeFromContext : Bool
  timestamp : ℤ

structure CustomMessage where
  customType : String
  content : Content
  display : Bool
  details : JsValue
  timestamp : ℤ

inductive AgentMessage where
  | llm (message : Message)
  | bashExecution (message : BashExecutionMessage)
  | custom (message : CustomMessage)
  | branchSummary (summary : Utf16) (fromId : String) (timestamp : ℤ)
  | compactionSummary (summary : Utf16) (tokensBefore : ℕ) (timestamp : ℤ)

def COMPACTION_SUMMARY_PREFIX : Utf16 := ofString
  "The conversation history before this point was compacted into the following summary:

<summary>
"

def COMPACTION_SUMMARY_SUFFIX : Utf16 := ofString "
</summary>"

def BRANCH_SUMMARY_PREFIX : Utf16 := ofString
  "The following is a summary of a branch that this conversation came back from:

<summary>
"

def BRANCH_SUMMARY_SUFFIX : Utf16 := ofString "</summary>"

def bashExecutionToText (msg : BashExecutionMessage) : Utf16 :=
  let ran := ofString "Ran `" ++ msg.command ++ ofString "`\n"
  let output :=
    if msg.output ≠ [] then ofString "```\n" ++ msg.output ++ ofString "\n```"
    else ofString "(no output)"
  let ended :=
    if msg.cancelled then ofString "\n\n(command cancelled)"
    else
      match msg.exitCode with
      | none => []
      | some code =>
        if code ≠ 0 then ofString "\n\nCommand exited with code " ++ ofString (toString code) else []
  let cut :=
    if msg.truncated && isTruthy msg.fullOutputPath then
      ofString "\n\n[Output truncated. Full output: " ++ msg.fullOutputPath.getD [] ++ ofString "]"
    else []
  ran ++ output ++ ended ++ cut

def textBlock (text : Utf16) : ContentBlock := ⟨.text, some text, none⟩

/-- `details?.runtimeContextCarrier === true`. -/
def isRuntimeContextCarrier : JsValue → Bool
  | .object fields =>
    match fields.find? (·.1 = ofString "runtimeContextCarrier") with
    | some (_, .boolean b) => b
    | _ => false
  | _ => false

/-- The message a model is sent for one of the session, if it is sent one. -/
def toLlmMessage : AgentMessage → Option Message
  | .bashExecution message =>
    if message.excludeFromContext then none
    else some (.user (.blocks [textBlock (bashExecutionToText message)]) false message.timestamp)
  | .custom message =>
    let content :=
      match message.content with
      | .string text => .blocks [textBlock text]
      | content => content
    some (.user content (isRuntimeContextCarrier message.details) message.timestamp)
  | .branchSummary summary _ timestamp =>
    some (.user (.blocks [textBlock (BRANCH_SUMMARY_PREFIX ++ summary ++ BRANCH_SUMMARY_SUFFIX)])
      false timestamp)
  | .compactionSummary summary _ timestamp =>
    some (.user (.blocks
      [textBlock (COMPACTION_SUMMARY_PREFIX ++ summary ++ COMPACTION_SUMMARY_SUFFIX)])
      false timestamp)
  | .llm message => some message

def convertToLlm (messages : List AgentMessage) : List Message := messages.filterMap toLlmMessage

/-- `Array.prototype.join`. -/
def join (separator : String) : List Utf16 → Utf16 := List.intercalate (ofString separator)

/-- `JSON.stringify`, with a text for `undefined`. -/
def safeJsonStringify : JsValue → Utf16
  | .undefined => ofString "undefined"
  | value => Json.render value

def TOOL_RESULT_MAX_CHARS : ℕ := 2000

def truncateForSummary (text : Utf16) (maxChars : ℕ) : Utf16 :=
  if text.length ≤ maxChars then text
  else
    let sliced := truncateUtf16Safe text maxChars
    sliced ++ ofString "\n\n[... " ++ ofString (toString (text.length - sliced.length)) ++
      ofString " more characters truncated]"

def getCompactionContentBlockText (block : ContentBlock) : Utf16 :=
  if block.type = .text && isTruthy block.text then block.text.getD []
  else if block.type ≠ .toolResult && block.type ≠ .tool_result then []
  else if isTruthy block.text then block.text.getD []
  else block.content.getD []

/-- `[User]: …` for a text, nothing for the empty one. -/
def labelled (label : String) (text : Utf16) : List Utf16 :=
  if text ≠ [] then [ofString label ++ text] else []

def userText : Content → Utf16
  | .string text => text
  | .blocks blocks =>
    ((blocks.filter (·.type = .text)).map fun block => block.text.getD []).flatten

def toolCallText (name : Utf16) (arguments : List (Utf16 × JsValue)) : Utf16 :=
  name ++ ofString "(" ++
    join ", " (arguments.map fun a => a.1 ++ ofString "=" ++ safeJsonStringify a.2) ++ ofString ")"

/-- The parts of the conversation text that a message adds. -/
def serializeMessage : Message → List Utf16
  | .user content _ _ => labelled "[User]: " (userText content)
  | .assistant message =>
    let textParts := message.content.filterMap fun
      | .text text => some text
      | _ => none
    let thinkingParts := message.content.filterMap fun
      | .thinking thinking => some thinking
      | _ => none
    let toolCalls := message.content.filterMap fun
      | .toolCall name arguments => some (toolCallText name arguments)
      | _ => none
    (if thinkingParts = [] then []
      else [ofString "[Assistant thinking]: " ++ join "\n" thinkingParts]) ++
    (if textParts = [] then [] else [ofString "[Assistant]: " ++ join "\n" textParts]) ++
    (if toolCalls = [] then []
      else [ofString "[Assistant tool calls]: " ++ join "; " toolCalls])
  | .toolResult _ blocks _ =>
    let content := (blocks.map getCompactionContentBlockText).flatten
    if content ≠ [] then
      [ofString "[Tool result]: " ++ truncateForSummary content TOOL_RESULT_MAX_CHARS]
    else []

def serializeConversation (messages : List Message) : Utf16 :=
  join "\n\n" (messages.flatMap serializeMessage)

def calculateContextTokens (usage : Usage) : ℕ :=
  match usage.contextUsage with
  | some (.available totalTokens) => totalTokens
  | _ =>
    if usage.totalTokens ≠ 0 then usage.totalTokens
    else usage.input + usage.output + usage.cacheRead + usage.cacheWrite

def getAssistantUsage : AgentMessage → Option Usage
  | .llm (.assistant message) =>
    if message.stopReason ≠ .aborted && message.stopReason ≠ .error then
      message.usage.filter fun usage => calculateContextTokens usage > 0
    else none
  | _ => none

/-- The last message with usable usage, by its index. -/
def getLastAssistantUsageInfo (messages : List AgentMessage) : Option (Usage × ℕ) :=
  (List.range messages.length).reverse.findSome? fun i =>
    match (messages[i]?).bind getAssistantUsage with
    | some usage => if usage.contextUsage ≠ some .unavailable then some (usage, i) else none
    | none => none

def IMAGE_BLOCK_CHARS : ℕ := 4800

def countContentBlockChars (content : List ContentBlock) : ℕ :=
  (content.map fun block =>
    if block.type = .image then IMAGE_BLOCK_CHARS
    else (getCompactionContentBlockText block).length).sum

def contentChars : Content → ℕ
  | .string text => text.length
  | .blocks blocks => countContentBlockChars blocks

def assistantBlockChars : AssistantBlock → ℕ
  | .text text => text.length
  | .thinking thinking => thinking.length
  | .toolCall name arguments => name.length + (safeJsonStringify (.object arguments)).length

def messageChars : AgentMessage → ℕ
  | .llm (.user content _ _) => contentChars content
  | .llm (.assistant message) => (message.content.map assistantBlockChars).sum
  | .llm (.toolResult _ content _) => countContentBlockChars content
  | .custom message => contentChars message.content
  | .bashExecution message => message.command.length + message.output.length
  | .branchSummary summary _ _ => summary.length
  | .compactionSummary summary _ _ => summary.length

/-- `Math.ceil(chars / 4)`. -/
def estimateTokens (message : AgentMessage) : ℕ := (messageChars message + 3) / 4

structure ContextUsageEstimate where
  tokens : ℕ
  usageTokens : ℕ
  trailingTokens : ℕ
  lastUsageIndex : Option ℕ

def estimateContextTokens (messages : List AgentMessage) : ContextUsageEstimate :=
  match getLastAssistantUsageInfo messages with
  | none =>
    let estimated := (messages.map estimateTokens).sum
    ⟨estimated, 0, estimated, none⟩
  | some (usage, index) =>
    let usageTokens := calculateContextTokens usage
    let trailingTokens := ((messages.drop (index + 1)).map estimateTokens).sum
    ⟨usageTokens + trailingTokens, usageTokens, trailingTokens, some index⟩

end Flashclaw.Compaction
