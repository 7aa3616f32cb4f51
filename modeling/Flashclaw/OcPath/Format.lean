import Flashclaw.Lib.Utf8
import Flashclaw.Lib.Utf16Text
import Flashclaw.OcPath.Segments

/-!
# Formatting of `oc://` paths

`formatOcPath` with its checks and the texts of its errors.
-/

open Utf16

namespace OcPath

/-- No writing of the sentinel, alone or inside of a text. -/
def guardSentinel (value ocPath : Utf16) : Except Thrown Unit :=
  if REDACTED_SENTINEL <:+: value then .error (.sentinel ⟨ocPath⟩) else .ok ()

def MAX_PATH_LENGTH : ℕ := 4096

def OC_SCHEME : Utf16 := ofString "oc://"

def isControl (c : CodeUnit) : Bool := c.val ≤ 0x1F || c.val = 0x7F

def hasControlChar (s : Utf16) : Bool := s.any isControl

/-- `\xNN` escapes for control characters. -/
def printable (s : Utf16) : Utf16 := s.flatMap fun c =>
  if isControl c then
    [unit '\\', unit 'x', unit (Nat.digitChar (c.val / 16)), unit (Nat.digitChar (c.val % 16))]
  else [c]

def fail {α : Type} (message : String) (detail input : Utf16) (code : OcPathErrorCode) :
    Except Thrown α := .error (.path ⟨ofString message ++ detail, input, code⟩)

def isLetter (c : CodeUnit) : Bool :=
  (0x41 ≤ c.val && c.val ≤ 0x5A) || (0x61 ≤ c.val && c.val ≤ 0x7A)

/-- A slash, a backslash or a drive letter in front. -/
def isAbsolute (file : Utf16) : Bool :=
  match file with
  | [] => false
  | [c] => c = unit '/' || c = unit '\\'
  | c :: d :: _ => c = unit '/' || c = unit '\\' || (isLetter c && d = unit ':')

/-- The parts between slashes and backslashes. -/
def slashParts (file : Utf16) : List Utf16 :=
  file.splitOnP fun c => c = unit '/' || c = unit '\\'

def validateFileSlot (file contextInput : Utf16) : Except Thrown Unit :=
  if isAbsolute file then
    fail "Absolute file slot not allowed (oc:// paths are workspace-relative): "
      (printable contextInput) contextInput .absoluteFile
  else if (slashParts file).any (· = ofString "..") then
    fail "Parent-directory segment ('..') not allowed in oc:// file slot: "
      (printable contextInput) contextInput .parentTraversal
  else if hasControlChar file then
    fail "Control character in oc:// file slot: " (printable contextInput) contextInput .controlChar
  else .ok ()

/-- `RESERVED_CHARS_RE`. -/
def isReserved (c : CodeUnit) : Bool := c ∈ ofString "?&%"

def validateSessionSlot (session contextInput : Utf16) : Except Thrown Unit :=
  if hasControlChar session then
    fail "Control character in oc:// session query: " (printable contextInput) contextInput
      .controlChar
  else if session.any isReserved then
    fail "Reserved character (`?` / `&` / `%`) in oc:// session query: " (printable contextInput)
      contextInput .reservedChar
  else .ok ()

/-- What makes a value need quotes. -/
def needsQuotes (c : CodeUnit) : Bool := c ∈ ofString "/.[]\x7b\x7d?&%" || isWhiteSpace c

/-- No quotes around values with quotes or backslashes: there is no escape for them. -/
def quoteSeg (value : Utf16) : Except Thrown Utf16 :=
  if value.length = 0 then .ok (ofString "\"\"")
  else if unit '"' ∈ value ∨ unit '\\' ∈ value then
    fail "Cannot quote value containing '\"' or '\\\\': " (printable value) value .unquotable
  else .ok (if value.any needsQuotes then unit '"' :: (value ++ [unit '"']) else value)

/-- The slots below the file. -/
inductive Slot where
  | sectionSlot
  | item
  | field
deriving DecidableEq

def Slot.name : Slot → Utf16
  | .sectionSlot => ofString "section"
  | .item => ofString "item"
  | .field => ofString "field"

def hasEnds (first last : Char) (sub : Utf16) : Bool :=
  sub.head? = some (unit first) && sub.getLast? = some (unit last)

/-- Quoted sub-segments, predicates and unions stay as they are. -/
def formatSubSegment (sub : Utf16) : Except Thrown Utf16 :=
  if isQuotedSeg sub then .ok sub
  else if hasEnds '[' ']' sub then .ok sub
  else if hasEnds '\x7b' '\x7d' sub then .ok sub
  else quoteSeg sub

def validateSubForFormat (file : Utf16) (slot : Slot) (sub : Utf16) : Except Thrown Unit :=
  if sub.length = 0 then
    fail "Empty dotted sub-segment in OcPath." slot.name file .emptySubSegment
  else if hasControlChar sub then
    fail "Control character in OcPath."
      (slot.name ++ ofString " sub-segment \"" ++ printable sub ++ ofString "\"") file .controlChar
  else .ok ()

def formatSlot (file : Utf16) (slot : Slot) (text : Utf16) : Except Thrown Utf16 := do
  let subs ← (splitRespectingBrackets text (unit '.')).mapError Thrown.path
  subs.forM (validateSubForFormat file slot)
  let parts ← subs.mapM formatSubSegment
  return Utf16.join (unit '.') parts

/-- A slash and the slot, where the slot is there. -/
def formatSlot? (file : Utf16) (slot : Slot) : Option Utf16 → Except Thrown Utf16
  | none => .ok []
  | some text => do
    let part ← formatSlot file slot text
    return unit '/' :: part

/-- The file slot is quoted for characters that would parse as structure; dots are not. -/
def fileNeedsQuote (c : CodeUnit) : Bool := c ∈ ofString "/[]\x7b\x7d?&%\"" || isWhiteSpace c

def sessionSuffix (path : OcPath) : Except Thrown Utf16 :=
  match path.session with
  | none => .ok []
  | some session => do
    validateSessionSlot session path.file
    return ofString "?session=" ++ session

def formatOcPath (path : OcPath) : Except Thrown Utf16 := do
  if path.file.length = 0 then
    fail "oc:// path requires a file" [] [] .fileRequired
  validateFileSlot path.file path.file
  if path.item ≠ none ∧ path.sectionSlot = none then
    fail "Structural nesting violation: item requires section" [] path.file .nesting
  if path.field ≠ none ∧ path.item = none then
    fail "Structural nesting violation: field requires item" [] path.file .nesting
  let formattedFile ← if path.file.any fileNeedsQuote then quoteSeg path.file else .ok path.file
  let sectionPart ← formatSlot? path.file .sectionSlot path.sectionSlot
  let itemPart ← formatSlot? path.file .item path.item
  let fieldPart ← formatSlot? path.file .field path.field
  let sessionPart ← sessionSuffix path
  let out := OC_SCHEME ++ formattedFile ++ sectionPart ++ itemPart ++ fieldPart ++ sessionPart
  let outputBytes := (Utf8.encode out).length
  if MAX_PATH_LENGTH < outputBytes then
    fail "Formatted oc:// exceeds " (natText MAX_PATH_LENGTH ++ ofString " bytes (length: " ++
      natText outputBytes ++ ofString ")") (truncateUtf16Safe out 80 ++ [unit '…']) .tooLong
  if REDACTED_SENTINEL <:+: out then
    throw (.sentinel ⟨out⟩)
  return out

end OcPath
