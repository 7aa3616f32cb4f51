import Flashclaw.ToolCallRepair.Scans
import Flashclaw.ToolCallRepair.Suppressor

/-!
# The suppressor of a call over the cap
-/

namespace Flashclaw.ToolCallRepair

open Utf16

/-- `utf8ByteLengthWithinLimit` of a slice -/
def utf8ByteLengthWithinLimit (slice : Utf16) (maxBytes : ℕ) : Option ℕ :=
  if slice.length > maxBytes then none
  else if (Utf8.encode slice).length ≤ maxBytes then some (Utf8.encode slice).length
  else none

/-- `text.slice(text.lastIndexOf(c))`, nothing where it is not found. -/
def fromLast (c : CodeUnit) : Utf16 → Option Utf16
  | [] => none
  | d :: rest => (fromLast c rest).orElse fun _ => if d = c then some (d :: rest) else none

/-- The call that a JSON scan found, complete or not. -/
def JsonScan.value : JsonScan → Option JsonCandidate
  | .invalid _ _ => none
  | .unfinished candidate => candidate
  | .complete value payload _ => some { value with payload := some payload }

def JsonScan.isComplete : JsonScan → Bool
  | .complete _ _ _ => true
  | _ => false

def jsonSuppressorOf (value : JsonCandidate) (state : Option JsonState) : JsonSuppressor :=
  let closed := state.map JsonState.depth = some 0
  let bracket := ofString "[/" ++ value.name.slice ++ ofString "]"
  { carry := (value.payload.filter fun _ => closed).elim [] fun payload =>
      skipWhitespace payload.stop
    depth := (state.map JsonState.depth).getD 0
    escaped := (state.map JsonState.escaped).getD false
    inString := (state.map JsonState.inString).getD false
    phase := if value.payload = none then .opening else if closed then .closing else .payload
    requiredClosing := if value.syntaxKind = .namedBracket then some bracket else none
    optionalClosings := if value.syntaxKind = .namedBracket then none
      else some [HARMONY_CALL_MARKER, END_TOOL_REQUEST, bracket] }

/-- The suppressor for the body of an XML call, or for the value of its open parameter. -/
def xmlSuppressorOf (text : Utf16) (candidate : XmlishCandidate) : XmlSuppressor :=
  let phase := if candidate.activeParameterOpenEnd = none then XmlPhase.body else .parameter
  let markers := if phase = .parameter then [PARAMETER_CLOSE] else [PARAMETER_OPEN, FUNCTION_CLOSE]
  { carry := ((fromLast LESS text).filter fun marker =>
      markers.any (isAsciiMarkerPrefixIgnoreCase marker)).getD []
    phase }

/-- The candidate of an XML scan that has a payload and is not complete. -/
def openXmlish (scan : ScanBranches) : Option (XmlishCandidate × Span) :=
  match scan.xmlish with
  | .unfinished (some candidate) _ =>
    if scan.matchesXmlish then candidate.payload.map fun payload => (candidate, payload) else none
  | _ => none

def XmlishScan.isUnfinished : XmlishScan → Bool
  | .unfinished _ _ => true
  | _ => false

/-- `createOverCapSuppressor`, with the text of the view and its scan. -/
def createOverCapSuppressor (text : Utf16) (scan : ScanBranches) (force : Bool) :
    Option OverCapSuppressor :=
  let value := scan.json.value
  let state := (value.bind JsonCandidate.json).orElse fun _ =>
    if scan.json.isComplete then some ⟨0, false, false⟩ else none
  let jsonSuppressor := value.map fun value => jsonSuppressorOf value state
  let overCap (payload : Span) :=
    (utf8ByteLengthWithinLimit payload.slice MAX_PAYLOAD_BYTES) = none
  match value.filter fun value =>
      force && value.nameComplete && value.payload = none && scan.matchesJson with
  | some value =>
    some (.opening
      { allowXml := scan.xmlish.isUnfinished && scan.matchesXmlish
        carry := []
        choice := none
        json := jsonSuppressorOf value state })
  | none =>
    match (openXmlish scan).filter fun (_, payload) => force || overCap payload with
    | some (candidate, _) => some (.xml (xmlSuppressorOf text candidate))
    | none =>
      (value.filter fun value =>
        (value.nameComplete || value.payload.isSome) && scan.matchesJson &&
          (state.isSome || force) && (value.payload.isSome || force) &&
          (force || value.payload.all fun payload => overCap payload)).bind fun _ =>
            jsonSuppressor.map .json

end Flashclaw.ToolCallRepair
