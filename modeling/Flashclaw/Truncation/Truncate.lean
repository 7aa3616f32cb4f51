import Flashclaw.Lib.Utf16Text
import Flashclaw.Lib.Utf8

/-!
# Truncation of tool output

`packages/agent-core/src/harness/utils/truncate.ts`: a text is kept as it is,
or cut to its first (last) complete lines under a limit of lines and one of
bytes. Only the last line is ever cut inside, by the truncation to the tail.
-/

namespace Flashclaw.Truncation

open Utf16

def DEFAULT_MAX_LINES : ℕ := 2000

def DEFAULT_MAX_BYTES : ℕ := 50 * 1024

def LF : CodeUnit := unit '\n'

/-- Which limit was hit. -/
inductive TruncatedBy where
  | lines
  | bytes
  deriving DecidableEq, Repr

structure TruncationResult where
  content : Utf16
  truncated : Bool
  truncatedBy : Option TruncatedBy
  totalLines : ℕ
  totalBytes : ℕ
  outputLines : ℕ
  outputBytes : ℕ
  lastLinePartial : Bool
  firstLineExceedsLimit : Bool
  maxLines : ℕ
  maxBytes : ℕ
  deriving DecidableEq, Repr

structure TruncationOptions where
  maxLines : Option ℕ
  maxBytes : Option ℕ
  deriving DecidableEq, Repr

namespace TruncationOptions

/-- The limit of lines that applies. -/
def lineLimit (options : TruncationOptions) : ℕ := options.maxLines.getD DEFAULT_MAX_LINES

/-- The limit of bytes that applies. -/
def byteLimit (options : TruncationOptions) : ℕ := options.maxBytes.getD DEFAULT_MAX_BYTES

end TruncationOptions

structure ResolvedTruncationInput where
  lines : List Utf16
  totalLines : ℕ
  totalBytes : ℕ
  maxLines : ℕ
  maxBytes : ℕ

def splitLinesForCounting (content : Utf16) : List Utf16 :=
  if content.length = 0 then []
  else
    let lines := content.splitOn LF
    if content.getLast? = some LF then lines.dropLast else lines

def findFirstNonAscii (content : Utf16) : Option ℕ := content.findIdx? fun code => 0x7f < code.val

/-- The loop of `utf8ByteLength` over the units from `i` on. -/
def byteLengthFrom : Utf16 → ℕ → ℕ
  | [], bytes => bytes
  | [code], bytes =>
    if code.val ≤ 0x7f then bytes + 1
    else if code.val ≤ 0x7ff then bytes + 2
    else bytes + 3
  | code :: next :: rest, bytes =>
    if code.val ≤ 0x7f then byteLengthFrom (next :: rest) (bytes + 1)
    else if code.val ≤ 0x7ff then byteLengthFrom (next :: rest) (bytes + 2)
    else if isHighSurrogate code then
      if isLowSurrogate next then byteLengthFrom rest (bytes + 4)
      else byteLengthFrom (next :: rest) (bytes + 3)
    else byteLengthFrom (next :: rest) (bytes + 3)

def replaceUnpairedSurrogates : Utf16 → Utf16
  | [] => []
  | [code] => if isSurrogate code then [0xFFFD] else [code]
  | code :: next :: rest =>
    if isHighSurrogate code then
      if isLowSurrogate next then code :: next :: replaceUnpairedSurrogates rest
      else 0xFFFD :: replaceUnpairedSurrogates (next :: rest)
    else if isLowSurrogate code then 0xFFFD :: replaceUnpairedSurrogates (next :: rest)
    else code :: replaceUnpairedSurrogates (next :: rest)

/-- The bytes of a unit that is not half of a pair. -/
def characterBytes (code : CodeUnit) : ℕ :=
  if isSurrogate code then 3
  else if code.val ≤ 0x7f then 1
  else if code.val ≤ 0x7ff then 2
  else 3

/-- The loop of `truncateStringToBytesFromEnd`, over the units before `i` from the last one back.
It returns the start of the part to keep, and whether that part needs a replacement. -/
def cutFromEnd (maxBytes : ℕ) : Utf16 → ℕ → Bool → ℕ × Bool
  | [], _, needsReplacement => (0, needsReplacement)
  | [code], outputBytes, needsReplacement =>
    if outputBytes + characterBytes code > maxBytes then (1, needsReplacement)
    else (0, needsReplacement || isSurrogate code)
  | code :: previous :: before, outputBytes, needsReplacement =>
    if isLowSurrogate code && isHighSurrogate previous then
      if outputBytes + 4 > maxBytes then (before.length + 2, needsReplacement)
      else cutFromEnd maxBytes before (outputBytes + 4) needsReplacement
    else if outputBytes + characterBytes code > maxBytes then (before.length + 2, needsReplacement)
    else
      cutFromEnd maxBytes (previous :: before) (outputBytes + characterBytes code)
        (needsReplacement || isSurrogate code)

def truncateStringToBytesFromEnd (str : Utf16) (maxBytes : ℕ) : Utf16 :=
  if maxBytes = 0 then []
  else
    let cut := cutFromEnd maxBytes str.reverse 0 false
    let output := str.drop cut.1
    if cut.2 then replaceUnpairedSurrogates output else output

/-- What a loop over the lines has kept. -/
structure Kept where
  outputLinesArr : List Utf16
  outputBytesCount : ℕ
  truncatedBy : TruncatedBy
  lastLinePartial : Bool
  deriving DecidableEq, Repr

section Runtime

-- Whether the runtime has a `Buffer`.
variable (runtimeBuffer : Bool)

def utf8ByteLength (content : Utf16) : ℕ :=
  if runtimeBuffer then (Utf8.encode content).length
  else
    match findFirstNonAscii content with
    | none => content.length
    | some firstNonAscii => byteLengthFrom (content.drop firstNonAscii) firstNonAscii

def resolveTruncationInput (content : Utf16) (options : TruncationOptions) :
    ResolvedTruncationInput where
  lines := splitLinesForCounting content
  totalLines := (splitLinesForCounting content).length
  totalBytes := utf8ByteLength runtimeBuffer content
  maxLines := options.lineLimit
  maxBytes := options.byteLimit

def ResolvedTruncationInput.initialLimit (input : ResolvedTruncationInput) : TruncatedBy :=
  if input.totalLines > input.maxLines then .lines else .bytes

/-- The limit that a truncation reports after its loop. -/
def ResolvedTruncationInput.finalLimit (input : ResolvedTruncationInput) (kept : Kept) :
    TruncatedBy :=
  if input.totalLines > input.maxLines ∧ kept.outputLinesArr.length ≥ input.maxLines ∧
      kept.outputBytesCount ≤ input.maxBytes then .lines
  else kept.truncatedBy

/-- `buildTruncationResult` for a text that is returned whole. -/
def ResolvedTruncationInput.wholeResult (input : ResolvedTruncationInput) (content : Utf16) :
    TruncationResult where
  content := content
  truncated := false
  truncatedBy := none
  totalLines := input.totalLines
  totalBytes := input.totalBytes
  outputLines := input.totalLines
  outputBytes := input.totalBytes
  lastLinePartial := false
  firstLineExceedsLimit := false
  maxLines := input.maxLines
  maxBytes := input.maxBytes

/-- `buildTruncationResult` for the lines that a loop has kept. -/
def ResolvedTruncationInput.keptResult (input : ResolvedTruncationInput) (kept : Kept) :
    TruncationResult where
  content := join LF kept.outputLinesArr
  truncated := true
  truncatedBy := some (input.finalLimit kept)
  totalLines := input.totalLines
  totalBytes := input.totalBytes
  outputLines := kept.outputLinesArr.length
  outputBytes := utf8ByteLength runtimeBuffer (join LF kept.outputLinesArr)
  lastLinePartial := kept.lastLinePartial
  firstLineExceedsLimit := false
  maxLines := input.maxLines
  maxBytes := input.maxBytes

/-- The loop of `truncateHead` over the lines from `i` on. -/
def headLoop (maxBytes : ℕ) : List Utf16 → ℕ → Kept → Kept
  | [], _, kept => kept
  | line :: lines, i, kept =>
    let lineBytes := utf8ByteLength runtimeBuffer line + if i > 0 then 1 else 0
    if kept.outputBytesCount + lineBytes > maxBytes then { kept with truncatedBy := .bytes }
    else
      headLoop maxBytes lines (i + 1)
        { kept with
          outputLinesArr := kept.outputLinesArr ++ [line]
          outputBytesCount := kept.outputBytesCount + lineBytes }

def truncateHead (content : Utf16) (options : TruncationOptions) : TruncationResult :=
  let input := resolveTruncationInput runtimeBuffer content options
  if input.totalLines ≤ input.maxLines ∧ input.totalBytes ≤ input.maxBytes then
    input.wholeResult content
  else if (input.lines[0]?).any fun firstLine =>
      utf8ByteLength runtimeBuffer firstLine > input.maxBytes then
    { content := []
      truncated := true
      truncatedBy := some .bytes
      totalLines := input.totalLines
      totalBytes := input.totalBytes
      outputLines := 0
      outputBytes := 0
      lastLinePartial := false
      firstLineExceedsLimit := true
      maxLines := input.maxLines
      maxBytes := input.maxBytes }
  else
    input.keptResult runtimeBuffer
      (headLoop runtimeBuffer input.maxBytes (input.lines.take input.maxLines) 0
        ⟨[], 0, input.initialLimit, false⟩)

/-- The loop of `truncateTail`, over the lines from the last one back. -/
def tailLoop (maxLines maxBytes : ℕ) : List Utf16 → Kept → Kept
  | [], kept => kept
  | line :: before, kept =>
    if kept.outputLinesArr.length < maxLines then
      let lineBytes :=
        utf8ByteLength runtimeBuffer line + if kept.outputLinesArr.length > 0 then 1 else 0
      if kept.outputBytesCount + lineBytes > maxBytes then
        if kept.outputLinesArr.length = 0 then
          let truncatedLine := truncateStringToBytesFromEnd line maxBytes
          { outputLinesArr := truncatedLine :: kept.outputLinesArr
            outputBytesCount := utf8ByteLength runtimeBuffer truncatedLine
            truncatedBy := .bytes
            lastLinePartial := true }
        else { kept with truncatedBy := .bytes }
      else
        tailLoop maxLines maxBytes before
          { kept with
            outputLinesArr := line :: kept.outputLinesArr
            outputBytesCount := kept.outputBytesCount + lineBytes }
    else kept

def truncateTail (content : Utf16) (options : TruncationOptions) : TruncationResult :=
  let input := resolveTruncationInput runtimeBuffer content options
  if input.totalLines ≤ input.maxLines ∧ input.totalBytes ≤ input.maxBytes then
    input.wholeResult content
  else
    input.keptResult runtimeBuffer
      (tailLoop runtimeBuffer input.maxLines input.maxBytes input.lines.reverse
        ⟨[], 0, input.initialLimit, false⟩)

end Runtime

end Flashclaw.Truncation
