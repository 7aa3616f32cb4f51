import Flashclaw.Lib.Utf16Text

/-!
# Tool calls in plain text: characters and markers

`packages/tool-call-repair/src/grammar.ts`. A position in a text is the text from there on.
-/

namespace Flashclaw.ToolCallRepair

open Utf16

def END_TOOL_REQUEST : Utf16 := ofString "[END_TOOL_REQUEST]"

def HARMONY_CALL_MARKER : Utf16 := ofString "<|call|>"

def FUNCTION_CLOSE : Utf16 := ofString "</function>"

def PARAMETER_OPEN : Utf16 := ofString "<parameter="

def PARAMETER_CLOSE : Utf16 := ofString "</parameter>"

def RETURN : CodeUnit := unit '\r'

def NEWLINE : CodeUnit := unit '\n'

def LESS : CodeUnit := unit '<'

def isAlphanumeric (c : CodeUnit) : Bool :=
  (unit 'A' ≤ c && c ≤ unit 'Z') || (unit 'a' ≤ c && c ≤ unit 'z') ||
    (unit '0' ≤ c && c ≤ unit '9')

/-- `/[A-Za-z0-9_.:-]/` -/
def isXmlishNameChar (c : CodeUnit) : Bool := isAlphanumeric c || c ∈ ofString "_.:-"

/-- `/[^\S\r\n]/` -/
def isIndentation (c : CodeUnit) : Bool := isWhiteSpace c && c ≠ RETURN && c ≠ NEWLINE

def skipLineIndentation (text : Utf16) : Utf16 := text.dropWhile isIndentation

def skipWhitespace (text : Utf16) : Utf16 := text.dropWhile isWhiteSpace

def consumeLineBreak : Utf16 → Option Utf16
  | [] => none
  | c :: rest =>
    if c = RETURN then
      if rest.head? = some NEWLINE then some rest.tail else some rest
    else if c = NEWLINE then some rest
    else none

/-- Markers are in lower case and have no `k`, so that of the characters whose lower case is
one of theirs only letters of ASCII differ from it. -/
def startsWithAsciiMarkerIgnoreCase (text marker : Utf16) : Bool :=
  (text.take marker.length).map lowerAscii = marker

def isAsciiMarkerPrefixIgnoreCase (text marker : Utf16) : Bool :=
  let rest := (text.take marker.length).map lowerAscii
  rest.length < marker.length && rest.isPrefixOf marker

/-- How far away a marker is. -/
def indexOfAsciiMarkerIgnoreCase (marker : Utf16) : Utf16 → Option ℕ
  | [] => none
  | c :: rest =>
    if c = LESS && startsWithAsciiMarkerIgnoreCase (c :: rest) marker then some 0
    else (indexOfAsciiMarkerIgnoreCase marker rest).map (· + 1)

end Flashclaw.ToolCallRepair
