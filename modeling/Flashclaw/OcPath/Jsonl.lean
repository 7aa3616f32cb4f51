import Flashclaw.Lib.Results
import Flashclaw.Lib.Utf16Text
import Flashclaw.OcPath.Jsonc

/-!
# JSONL documents

`jsonl/ast.ts`, `parse.ts`, `line.ts`, `resolve.ts`, `emit.ts` and `edit.ts`.  The
parser of one line, `parseJsonc`, is a parameter.
-/

open Utf16

/-- One line, with its number and its text. -/
inductive JsonlLine where
  | value (line : ℕ) (value : JsoncValue) (raw : Utf16)
  | blank (line : ℕ) (raw : Utf16)
  | malformed (line : ℕ) (raw : Utf16)

namespace JsonlLine

def line : JsonlLine → ℕ
  | .value line _ _ => line
  | .blank line _ => line
  | .malformed line _ => line

def isValue : JsonlLine → Bool
  | .value .. => true
  | _ => false

end JsonlLine

inductive LineEnding where
  | crlf
  | lf
deriving DecidableEq

def CR : CodeUnit := unit '\r'

def LF : CodeUnit := unit '\n'

def LineEnding.text : LineEnding → Utf16
  | .crlf => [CR, LF]
  | .lf => [LF]

/-- The root; a document that was not parsed may leave the line ending open. -/
structure JsonlAst where
  raw : Utf16
  lines : List JsonlLine
  lineEnding : Option LineEnding

namespace Jsonl

open OcPath JsoncValue

/-- The matches of `/\r\n/g`. -/
def countCrlf : Utf16 → ℕ
  | c :: d :: rest => if c = CR ∧ d = LF then countCrlf rest + 1 else countCrlf (d :: rest)
  | _ => 0

/-- `replace(/\r\n/g, "\n")`. -/
def crlfToLf : Utf16 → Utf16
  | c :: d :: rest => if c = CR ∧ d = LF then LF :: crlfToLf rest else c :: crlfToLf (d :: rest)
  | s => s

/-- The dominant convention of a text. -/
def detectLineEnding (raw : Utf16) : LineEnding :=
  let crlfCount := countCrlf raw
  let lfCount := raw.count LF
  if 0 < crlfCount ∧ lfCount ≤ crlfCount * 2 then .crlf else .lf

/-- The text without its last line end. -/
def trimLastBreak (raw : Utf16) : Utf16 :=
  if [CR, LF] <:+ raw then raw.dropLast.dropLast
  else if [LF] <:+ raw then raw.dropLast
  else raw

structure Diagnostic where
  line : ℕ
  message : Utf16

def lineDiagnostic : JsonlLine → Option Diagnostic
  | .malformed line _ =>
    some ⟨line, ofString "line " ++ natText line ++ ofString " could not be parsed as JSON"⟩
  | _ => none

structure JsonlParseResult where
  ast : JsonlAst
  diagnostics : List Diagnostic

section Parse

variable (parseJsonc : Utf16 → Option JsoncValue)

def parseLine (lineText : Utf16) (idx : ℕ) : JsonlLine :=
  let lineNo := idx + 1
  if (trim lineText).length = 0 then .blank lineNo lineText
  else
    match parseJsonc lineText with
    | none => .malformed lineNo lineText
    | some root => .value lineNo root lineText

def parseJsonl (raw : Utf16) : JsonlParseResult :=
  let lineEnding := detectLineEnding raw
  let body := crlfToLf (trimLastBreak raw)
  let lines := if body.length = 0 then [] else (body.splitOn LF).mapIdx fun idx lineText =>
    parseLine parseJsonc lineText idx
  ⟨⟨raw, lines, some lineEnding⟩, lines.filterMap lineDiagnostic⟩

end Parse

/-- The number of a line address `L\d+`. -/
def lineNumber? (addr : Utf16) : Option ℕ :=
  match addr with
  | c :: digits => if c = unit 'L' then decimal? digits else none
  | [] => none

def pickJsonlLine (ast : JsonlAst) (addr : Utf16) : Option JsonlLine :=
  if addr = POS_FIRST then ast.lines.find? JsonlLine.isValue
  else if addr = POS_LAST then ast.lines.reverse.find? JsonlLine.isValue
  else
    match lineNumber? addr with
    | none => none
    | some target => ast.lines.find? fun l => l.line = target

/-- `JsonlOcPathMatch`. -/
inductive JsonlOcPathMatch where
  | root (node : JsonlAst)
  | line (node : JsonlLine)
  | value (node : JsoncValue) (line : ℕ) (path : List Utf16) (address : List ℕ)
  | objectEntry (node : Utf16 × JsoncValue) (line : ℕ) (path : List Utf16) (address : List ℕ)

/-- The sub-segments of the slots that are there. -/
def slotSegments (slot : Option Utf16) : Except OcPathError (List Utf16) :=
  match slot with
  | none => .ok []
  | some slot => splitRespectingBrackets slot (unit '.')

def itemSegments (path : OcPath) : Except OcPathError (List Utf16) := do
  let item ← slotSegments path.item
  let field ← slotSegments path.field
  return item ++ field

def resolveJsonlOcPath (ast : JsonlAst) (path : OcPath) :
    Except OcPathError (Option JsonlOcPathMatch) :=
  match path.sectionSlot with
  | none => .ok (some (.root ast))
  | some head =>
    match pickJsonlLine ast head with
    | none => .ok none
    | some lineEntry =>
      if path.item = none ∧ path.field = none then .ok (some (.line lineEntry))
      else
        match lineEntry with
        | .value line value _ => do
          let segments ← itemSegments path
          match resolveJsoncValueOcPath value (segments.map unquoteSeg) with
          | none => return none
          | some (.objectEntry node walked address) =>
            return some (.objectEntry node line walked address)
          | some (.value node walked address) => return some (.value node line walked address)
        | _ => .ok none

mutual

def renderValue (guardPath : Utf16) (walked : List Utf16) :
    JsoncValue → Except OcEmitSentinelError Utf16
  | .object entries => do
    let parts ← renderEntries guardPath walked entries
    return unit '\x7b' :: (Json.join (unit ',') parts ++ [unit '\x7d'])
  | .array items => do
    let parts ← renderItems guardPath walked 0 items
    return unit '[' :: (Json.join (unit ',') parts ++ [unit ']'])
  | .string value =>
    if REDACTED_SENTINEL <:+: value then
      .error ⟨guardPath ++ unit '/' :: Json.join (unit '/') walked⟩
    else .ok (Json.quote value)
  | .number value => .ok value.toText
  | .boolean value => .ok (ofString (if value then "true" else "false"))
  | .null => .ok (ofString "null")

def renderEntries (guardPath : Utf16) (walked : List Utf16) :
    List (Utf16 × JsoncValue) → Except OcEmitSentinelError (List Utf16)
  | [] => .ok []
  | (key, value) :: entries => do
    let text ← renderValue guardPath (walked ++ [key]) value
    let parts ← renderEntries guardPath walked entries
    return (Json.quote key ++ unit ':' :: text) :: parts

def renderItems (guardPath : Utf16) (walked : List Utf16) (i : ℕ) :
    List JsoncValue → Except OcEmitSentinelError (List Utf16)
  | [] => .ok []
  | value :: items => do
    let text ← renderValue guardPath (walked ++ [natText i]) value
    let parts ← renderItems guardPath walked (i + 1) items
    return text :: parts

end

inductive EmitMode where
  | roundtrip
  | render
deriving DecidableEq

structure JsonlEmitOptions where
  mode : EmitMode := .roundtrip
  fileNameForGuard : Option Utf16 := none
  acceptPreExistingSentinel : Bool := true

def guardPathOf (opts : JsonlEmitOptions) : Utf16 := ofString "oc://" ++ opts.fileNameForGuard.getD []

def lineGuard (guardPath : Utf16) (line : ℕ) : Utf16 := guardPath ++ ofString "/L" ++ natText line

def keepRaw (guardPath : Utf16) (acceptPreExisting : Bool) (line : ℕ) (raw : Utf16) :
    Except OcEmitSentinelError Utf16 :=
  if !acceptPreExisting ∧ REDACTED_SENTINEL <:+: raw then .error ⟨lineGuard guardPath line⟩
  else .ok raw

def emitLine (guardPath : Utf16) (acceptPreExisting : Bool) :
    JsonlLine → Except OcEmitSentinelError Utf16
  | .blank line raw => keepRaw guardPath acceptPreExisting line raw
  | .malformed line raw => keepRaw guardPath acceptPreExisting line raw
  | .value line value _ => renderValue (lineGuard guardPath line) [] value

def emitJsonl (ast : JsonlAst) (opts : JsonlEmitOptions) : Except OcEmitSentinelError Utf16 :=
  let guardPath := guardPathOf opts
  match opts.mode with
  | .roundtrip =>
    if !opts.acceptPreExistingSentinel ∧ REDACTED_SENTINEL <:+: ast.raw then
      .error ⟨guardPath ++ ofString "/[raw]"⟩
    else .ok ast.raw
  | .render => do
    let out ← ast.lines.mapM (emitLine guardPath opts.acceptPreExistingSentinel)
    return (ast.lineEnding.getD .lf).text.intercalate out

inductive EditFailure where
  | unresolved
  | notAValueLine
deriving DecidableEq

/-- `JsonlEditResult`. -/
inductive JsonlEditResult where
  | ok (ast : JsonlAst)
  | failed (reason : EditFailure)

/-- The entry of an object that the editor looks up. -/
def editedEntry (entries : List (Utf16 × JsoncValue)) (seg : Utf16) : Option ℕ :=
  let segNorm :=
    if isPositionalSeg seg then
      resolvePositionalSeg seg ⟨false, entries.length, entries.map Prod.fst⟩
    else some seg
  match segNorm with
  | none => none
  | some segNorm => entries.findIdx? fun e => e.1 = unquoteSeg segNorm

/-- The item of an array that the editor looks up. -/
def editedItem (items : List JsoncValue) (seg : Utf16) : Option ℕ :=
  let segNorm :=
    if isPositionalSeg seg then resolvePositionalSeg seg ⟨true, items.length, []⟩ else some seg
  match segNorm with
  | none => none
  | some segNorm => parseArrayIndexSegment segNorm items.length

def replaceAt (newValue : JsoncValue) (current : JsoncValue) : List Utf16 → Option JsoncValue
  | [] => some newValue
  | seg :: segments =>
    if seg.length = 0 then none
    else
      match current with
      | .object entries =>
        match editedEntry entries seg with
        | none => none
        | some idx =>
          match entries[idx]? with
          | none => none
          | some child =>
            (replaceAt newValue child.2 segments).map fun replacedChild =>
              .object (entries.set idx (child.1, replacedChild))
      | .array items =>
        match editedItem items seg with
        | none => none
        | some idx =>
          match items[idx]? with
          | none => none
          | some child =>
            (replaceAt newValue child segments).map fun replacedChild =>
              .array (items.set idx replacedChild)
      | _ => none

def pickLineIndex (ast : JsonlAst) (addr : Utf16) : Option ℕ :=
  if addr = POS_FIRST then ast.lines.findIdx? JsonlLine.isValue
  else if addr = POS_LAST then
    (ast.lines.reverse.findIdx? JsonlLine.isValue).map fun i => ast.lines.length - 1 - i
  else
    match lineNumber? addr with
    | none => none
    | some target => ast.lines.findIdx? fun l => l.line = target

def finalize (ast : JsonlAst) (lineIdx : ℕ) (newLine : JsonlLine) (fileName : Utf16) :
    Except Thrown JsonlEditResult :=
  let next : JsonlAst :=
    { raw := [], lines := ast.lines.set lineIdx newLine, lineEnding := ast.lineEnding }
  match emitJsonl next { mode := .render, fileNameForGuard := some fileName } with
  | .error e => .error (.sentinel e)
  | .ok rendered => .ok (.ok { next with raw := rendered })

def setJsonlOcPath (ast : JsonlAst) (path : OcPath) (newValue : JsoncValue) :
    Except Thrown JsonlEditResult :=
  match path.sectionSlot with
  | none => .ok (.failed .unresolved)
  | some head =>
    match pickLineIndex ast head with
    | none => .ok (.failed .unresolved)
    | some lineIdx =>
      match ast.lines[lineIdx]? with
      | none => .ok (.failed .unresolved)
      | some (.value line value raw) =>
        if path.item = none ∧ path.field = none then
          finalize ast lineIdx (.value line newValue raw) path.file
        else
          match itemSegments path with
          | .error e => .error (.path e)
          | .ok segments =>
            match replaceAt newValue value segments with
            | none => .ok (.failed .unresolved)
            | some replaced => finalize ast lineIdx (.value line replaced raw) path.file
      | some _ => .ok (.failed .notAValueLine)

end Jsonl
