import Flashclaw.ToolCallRepair.Grammar

/-!
# Tool calls in plain text: what a scan says

The results of `scanPlainTextJsonToolCall`, `scanXmlishToolCall` and `scanPlainTextToolCall`.
-/

namespace Flashclaw.ToolCallRepair

open Utf16

/-- From one position to a later one. -/
structure Span where
  start : Utf16
  stop : Utf16
deriving DecidableEq

def Span.slice (span : Span) : Utf16 :=
  span.start.take (span.start.length - span.stop.length)

inductive JsonSyntax where
  | harmony
  | namedBracket
  | toolBracket
deriving DecidableEq

structure JsonState where
  depth : ℤ
  escaped : Bool
  inString : Bool
deriving DecidableEq

structure JsonCandidate where
  json : Option JsonState
  name : Span
  nameComplete : Bool
  payload : Option Span
  syntaxKind : JsonSyntax
deriving DecidableEq

inductive JsonScan where
  | invalid (position : Utf16) (candidate : Option JsonCandidate)
  | unfinished (candidate : Option JsonCandidate)
  | complete (value : JsonCandidate) (payload : Span) (stop : Utf16)
deriving DecidableEq

inductive XmlishSyntax where
  | function
  | namedBracket
  | toolBracket
deriving DecidableEq

structure XmlishParameter where
  name : Span
  value : Span
deriving DecidableEq

structure XmlishCandidate where
  activeParameterOpenEnd : Option Utf16
  name : Span
  nameComplete : Bool
  parameters : List XmlishParameter
  payload : Option Span
  syntaxKind : XmlishSyntax
deriving DecidableEq

inductive XmlishScan where
  | invalid (position : Utf16) (candidate : Option XmlishCandidate)
  | unfinished (candidate : Option XmlishCandidate) (completeEnd : Option Utf16)
  | complete (value : XmlishCandidate) (payload : Span) (stop : Utf16)
deriving DecidableEq

/-- Both scans at a position, and whether their names are accepted. -/
structure ScanBranches where
  json : JsonScan
  matchesJson : Bool
  matchesXmlish : Bool
  xmlish : XmlishScan
deriving DecidableEq

end Flashclaw.ToolCallRepair
