import Flashclaw.Lib.Chunks
import Flashclaw.Lib.Utf8
import Flashclaw.ToolCallRepair.Grammar

/-!
# Suppression of calls over the cap

The suppressors of `packages/tool-call-repair/src/stream-normalizer.ts`, which take the rest
of a call out of a stream whose buffer was full, chunk by chunk.
-/

namespace Flashclaw.ToolCallRepair

open Utf16 Chunks

def MAX_PAYLOAD_BYTES : ℕ := 256000

def MAX_TOOL_NAME_CHARS : ℕ := 120

inductive XmlPhase where
  | body
  | parameter
deriving DecidableEq

structure XmlSuppressor where
  carry : Utf16
  phase : XmlPhase
deriving DecidableEq

inductive JsonPhase where
  | closing
  | opening
  | payload
deriving DecidableEq

structure JsonSuppressor where
  carry : Utf16
  depth : ℤ
  escaped : Bool
  inString : Bool
  optionalClosings : Option (List Utf16)
  phase : JsonPhase
  requiredClosing : Option Utf16
deriving DecidableEq

inductive Choice where
  | json (suppressor : JsonSuppressor)
  | xml (suppressor : XmlSuppressor)
deriving DecidableEq

structure OpeningSuppressor where
  allowXml : Bool
  carry : Utf16
  choice : Option Choice
  json : JsonSuppressor
deriving DecidableEq

inductive OverCapSuppressor where
  | json (suppressor : JsonSuppressor)
  | opening (suppressor : OpeningSuppressor)
  | xml (suppressor : XmlSuppressor)
deriving DecidableEq

/-- What is left once a call is removed, with the end of its line. -/
def consumeRemovedLineEnd (text : Utf16) : Utf16 :=
  let lineBreak := skipLineIndentation text
  if lineBreak = [] then [] else (consumeLineBreak lineBreak).getD text

/-- `text.slice(-n)` -/
def lastUnits (n : ℕ) (text : Utf16) : Utf16 := text.drop (text.length - n)

/-- The text behind the value of a parameter. -/
def behindParameter (rest : Utf16) : Option Utf16 :=
  (indexOfAsciiMarkerIgnoreCase PARAMETER_CLOSE rest).map fun close =>
    rest.drop (close + PARAMETER_CLOSE.length)

def isToolName (name : Utf16) : Bool :=
  name ≠ [] && name.length ≤ MAX_TOOL_NAME_CHARS && name.all isXmlishNameChar

/-- Where the body goes on: behind the parameter that is open. -/
def bodyFrom (phase : XmlPhase) (rest : Utf16) : Option Utf16 :=
  match phase with
  | .body => some rest
  | .parameter => behindParameter rest

theorem length_bodyFrom_le {phase : XmlPhase} {rest body : Utf16}
    (h : bodyFrom phase rest = some body) : body.length ≤ rest.length := by
  cases phase with
  | body =>
    obtain rfl := Option.some.inj h
    exact Nat.le_refl _
  | parameter =>
    obtain ⟨close, -, rfl⟩ := Option.map_eq_some_iff.mp h
    rw [List.length_drop]
    exact Nat.sub_le _ _

/-- What a round of the loop does at a marker in the body. -/
inductive BodyStep where
  | stop (outcome : Outcome XmlSuppressor CodeUnit)
  | parameter (value : Utf16)

/-- At the start of a parameter, whose name and value are still to come. -/
def openStep (marker name : Utf16) : BodyStep :=
  match name.idxOf? (unit '>') with
  | none =>
    if marker.length ≤ PARAMETER_OPEN.length + 120 then .stop (.incomplete ⟨marker, .body⟩)
    else .stop (.complete marker)
  | some close =>
    if isToolName (name.take close) then .parameter (name.drop (close + 1))
    else .stop (.complete marker)

def bodyStep (marker : Utf16) : BodyStep :=
  if marker = [] then .stop (.incomplete ⟨[], .body⟩)
  else if startsWithAsciiMarkerIgnoreCase marker FUNCTION_CLOSE then
    .stop (.complete (consumeRemovedLineEnd (marker.drop FUNCTION_CLOSE.length)))
  else if isAsciiMarkerPrefixIgnoreCase marker FUNCTION_CLOSE ||
      isAsciiMarkerPrefixIgnoreCase marker PARAMETER_OPEN then .stop (.incomplete ⟨marker, .body⟩)
  else if startsWithAsciiMarkerIgnoreCase marker PARAMETER_OPEN then
    openStep marker (marker.drop PARAMETER_OPEN.length)
  else .stop (.complete marker)

theorem length_of_openStep {marker name value : Utf16}
    (h : openStep marker name = .parameter value) : value.length < name.length := by
  rw [openStep] at h
  cases hclose : name.idxOf? (unit '>') with
  | none =>
    rw [hclose] at h
    dsimp only at h
    split_ifs at h
  | some close =>
    rw [hclose] at h
    dsimp only at h
    split_ifs at h
    obtain rfl := BodyStep.parameter.inj h
    have hbound := (List.idxOf?_eq_some_iff.mp hclose).1
    rw [List.length_drop]
    omega

theorem length_of_parameter {marker value : Utf16} (h : bodyStep marker = .parameter value) :
    value.length < marker.length := by
  rw [bodyStep] at h
  split_ifs at h
  exact (length_of_openStep h).trans_le (by
    rw [List.length_drop]
    exact Nat.sub_le _ _)

/-- The loop of `consumeXmlSuppressor`, at a position in a text. -/
def xmlLoop (text : Utf16) (phase : XmlPhase) (rest : Utf16) : Outcome XmlSuppressor CodeUnit :=
  match hbody : bodyFrom phase rest with
  | none => .incomplete ⟨lastUnits (PARAMETER_CLOSE.length - 1) text, .parameter⟩
  | some body =>
    match _hstep : bodyStep (skipWhitespace body) with
    | .stop outcome => outcome
    | .parameter value => xmlLoop text .parameter value
termination_by rest.length
decreasing_by
  exact (length_of_parameter _hstep).trans_le
    ((List.dropWhile_suffix _).length_le.trans (length_bodyFrom_le hbody))

def consumeXmlSuppressor (suppressor : XmlSuppressor) (chunk : Utf16) :
    Outcome XmlSuppressor CodeUnit :=
  xmlLoop (suppressor.carry ++ chunk) suppressor.phase (suppressor.carry ++ chunk)

/-- The loop over a payload, with the text behind it once it is closed. -/
def scanPayload (suppressor : JsonSuppressor) : Utf16 → JsonSuppressor × Option Utf16
  | [] => (suppressor, none)
  | char :: rest =>
    if suppressor.inString then
      if suppressor.escaped then scanPayload { suppressor with escaped := false } rest
      else if char = unit '\\' then scanPayload { suppressor with escaped := true } rest
      else if char = unit '"' then scanPayload { suppressor with inString := false } rest
      else scanPayload suppressor rest
    else if char = unit '"' then scanPayload { suppressor with inString := true } rest
    else if char = unit '{' then scanPayload { suppressor with depth := suppressor.depth + 1 } rest
    else if char = unit '}' then
      if suppressor.depth - 1 = 0 then
        ({ suppressor with depth := suppressor.depth - 1, phase := .closing }, some rest)
      else scanPayload { suppressor with depth := suppressor.depth - 1 } rest
    else scanPayload suppressor rest

/-- Behind the payload, in front of one of the markers or of what is visible. -/
def consumeClosing (suppressor : JsonSuppressor) (text : Utf16) :
    Outcome JsonSuppressor CodeUnit :=
  let rest := skipWhitespace text
  match suppressor.requiredClosing.filter (· ≠ []) with
  | some requiredClosing =>
    let markers := [requiredClosing, END_TOOL_REQUEST]
    match markers.find? fun marker => marker.isPrefixOf rest with
    | some closing => .complete (consumeRemovedLineEnd (rest.drop closing.length))
    | none =>
      if markers.any fun marker => rest.isPrefixOf marker then
        .incomplete { suppressor with carry := rest }
      else .complete rest
  | none =>
    let markers := suppressor.optionalClosings.getD []
    match markers.find? fun marker => marker.isPrefixOf rest with
    | some closing => .complete (consumeRemovedLineEnd (rest.drop closing.length))
    | none =>
      if markers.any fun marker => rest.isPrefixOf marker then
        .incomplete { suppressor with carry := lastUnits ((markers.map List.length).foldl max 0) text }
      else .complete (consumeRemovedLineEnd text)

def consumePayload (suppressor : JsonSuppressor) (text : Utf16) :
    Outcome JsonSuppressor CodeUnit :=
  match scanPayload suppressor text with
  | (suppressor, none) => .incomplete suppressor
  | (suppressor, some rest) => consumeClosing suppressor rest

def consumeJsonSuppressor (suppressor : JsonSuppressor) (chunk : Utf16) :
    Outcome JsonSuppressor CodeUnit :=
  let text := suppressor.carry ++ chunk
  let suppressor := { suppressor with carry := [] }
  match suppressor.phase with
  | .opening =>
    match skipWhitespace text with
    | [] => .incomplete suppressor
    | char :: rest =>
      if char ≠ unit '{' then .complete (char :: rest)
      else consumePayload { suppressor with depth := 1, phase := .payload } rest
  | .payload => consumePayload suppressor text
  | .closing => consumeClosing suppressor text

def consumeChoice (choice : Choice) (chunk : Utf16) : Outcome Choice CodeUnit :=
  match choice with
  | .json suppressor => (consumeJsonSuppressor suppressor chunk).map .json
  | .xml suppressor => (consumeXmlSuppressor suppressor chunk).map .xml

def consumeOpeningSuppressor (suppressor : OpeningSuppressor) (chunk : Utf16) :
    Outcome OpeningSuppressor CodeUnit :=
  match suppressor.choice with
  | some choice =>
    (consumeChoice choice chunk).map fun choice => { suppressor with choice := some choice }
  | none =>
    let text := suppressor.carry ++ chunk
    let suppressor := { suppressor with carry := [] }
    let rest := skipWhitespace text
    if rest = [] then .incomplete suppressor
    else if rest.head? = some (unit '{') then
      (consumeChoice (.json suppressor.json) rest).map fun choice =>
        { suppressor with choice := some choice }
    else if suppressor.allowXml && isAsciiMarkerPrefixIgnoreCase rest PARAMETER_OPEN then
      .incomplete { suppressor with carry := rest }
    else if suppressor.allowXml && startsWithAsciiMarkerIgnoreCase rest PARAMETER_OPEN then
      (consumeChoice (.xml ⟨[], .body⟩) rest).map fun choice =>
        { suppressor with choice := some choice }
    else .complete rest

def consumeOverCapSuppressor (suppressor : OverCapSuppressor) (chunk : Utf16) :
    Outcome OverCapSuppressor CodeUnit :=
  match suppressor with
  | .xml suppressor => (consumeXmlSuppressor suppressor chunk).map .xml
  | .json suppressor => (consumeJsonSuppressor suppressor chunk).map .json
  | .opening suppressor => (consumeOpeningSuppressor suppressor chunk).map .opening

end Flashclaw.ToolCallRepair
