import Flashclaw.Exec.Allowlist
import Flashclaw.Lib.Backtracking
import Flashclaw.Lib.Utf16Text

/-!
# Exec on Windows: one command as a text

`src/infra/windows-shell-command.ts`, and `buildEnforcedShellCommand` of
`src/infra/exec-approvals-analysis.ts`: a command is split into the argv that is
approved, and the argv is written as a command again.
-/

namespace Flashclaw.Exec.Windows

open Utf16 Backtracking

def DOUBLE : CodeUnit := unit '"'

def SINGLE : CodeUnit := unit '\''

def NEWLINE : CodeUnit := unit '\n'

def RETURN : CodeUnit := unit '\r'

def WINDOWS_UNSUPPORTED_TOKENS : Utf16 := ofString "&|<>;^()%!`\n\r"

def WINDOWS_ALWAYS_UNSAFE_TOKENS : Utf16 := ofString "\n\r%`"

def isLetter (c : CodeUnit) : Bool :=
  (unit 'a' ≤ c && c ≤ unit 'z') || (unit 'A' ≤ c && c ≤ unit 'Z')

def isDigit (c : CodeUnit) : Bool := unit '0' ≤ c && c ≤ unit '9'

/-- `/[A-Za-z_{(?$]/`, what makes a variable of a `$` before it. -/
def isExpansion (next : CodeUnit) : Bool := isLetter next || next ∈ ofString "_\x7b(?$"

/-- `findWindowsUnsupportedToken`, from a position inside or outside double quotes on. -/
def findFrom : Bool → Utf16 → Option Utf16
  | _, [] => none
  | inDouble, ch :: rest =>
    if ch = DOUBLE then findFrom (!inDouble) rest
    else if ch = unit '$' then
      if rest.head?.any isExpansion then some (ofString "$") else findFrom inDouble rest
    else if ch ∈ WINDOWS_UNSUPPORTED_TOKENS then
      if inDouble && ch ∉ WINDOWS_ALWAYS_UNSAFE_TOKENS then findFrom inDouble rest
      else if ch = NEWLINE || ch = RETURN then some (ofString "newline")
      else some [ch]
    else findFrom inDouble rest

def findWindowsUnsupportedToken (command : Utf16) : Option Utf16 := findFrom false command

/-- The variables of `tokenizeWindowsSegment`. -/
structure Tokenizer where
  tokens : List Utf16
  buf : Utf16
  inDouble : Bool
  inSingle : Bool
  wasQuoted : Bool
  deriving DecidableEq, Repr

namespace Tokenizer

def start : Tokenizer := ⟨[], [], false, false, false⟩

def pushToken (t : Tokenizer) : Tokenizer :=
  if t.buf.length > 0 || t.wasQuoted then
    { t with tokens := t.tokens ++ [t.buf], buf := [], wasQuoted := false }
  else { t with wasQuoted := false }

/-- One character, where it is not the first of two single quotes inside single quotes. -/
def read (t : Tokenizer) (ch : CodeUnit) : Tokenizer :=
  if ch = DOUBLE ∧ !t.inSingle then
    { t with wasQuoted := t.wasQuoted || !t.inDouble, inDouble := !t.inDouble }
  else if ch = SINGLE ∧ !t.inDouble then
    { t with wasQuoted := t.wasQuoted || !t.inSingle, inSingle := !t.inSingle }
  else if !t.inDouble && !t.inSingle && isWhiteSpace ch then t.pushToken
  else { t with buf := t.buf ++ [ch] }

def readAll : Utf16 → Tokenizer → Tokenizer
  | [], t => t
  | [ch], t => t.read ch
  | ch :: next :: rest, t =>
    if ch = SINGLE ∧ !t.inDouble ∧ t.inSingle ∧ next = SINGLE then
      readAll rest { t with buf := t.buf ++ [SINGLE] }
    else readAll (next :: rest) (t.read ch)

end Tokenizer

def tokenizeWindowsSegment (segment : Utf16) : Option (List Utf16) :=
  let t := Tokenizer.readAll segment .start
  if t.inDouble || t.inSingle then none
  else if t.pushToken.tokens.length > 0 then some t.pushToken.tokens
  else none

/-- A character, whatever its case. -/
def sameLetter (c d : CodeUnit) : Bool :=
  c = d || (isLetter c && isLetter d && c.val % 0x20 = d.val % 0x20)

def text (s : String) : Pattern := .seqs ((ofString s).map fun c => .unit (sameLetter c))

def space : Pattern := .unit isWhiteSpace

def nonSpace : Pattern := .unit fun c => !isWhiteSpace c

def anyUnit : Pattern := .unit fun _ => true

/-- `"[^"]*(?:""[^"]*)*"`, for either quote. -/
def quotedArg (quote : CodeUnit) : Pattern :=
  let inside := Pattern.star (.unit fun c => c ≠ quote)
  let mark := Pattern.unit fun c => c = quote
  .seqs [mark, inside, .star (.seqs [mark, mark, inside]), mark]

def psFlags : Pattern :=
  .star (.seqs [text "-",
    .notAhead (.alts [.seqs [text "c", .optional (text "ommand"), .boundary],
      .seqs [text "-command", .boundary]]),
    .plus (.unit isWord),
    .optional (.seqs [.plus space, .notAhead (text "-"),
      .alts [quotedArg DOUBLE, quotedArg SINGLE, .plus nonSpace]]),
    .plus space])

def psCommandFlag : Pattern := .alts [text "-command", text "-c", text "--command"]

/-- A call of PowerShell up to the command that it is to run. -/
def psInvoke (command : Pattern) : Pattern :=
  .seq (.alts [text "powershell", text "pwsh"])
    (.seqs [.optional (text ".exe"), .plus space, psFlags, psCommandFlag, .plus space, command,
      .atEnd])

def psCall : Pattern := .seqs [text "&", .plus space, .group (.plus anyUnit), .atEnd]

def psInvokeQuoted (quote : CodeUnit) : Pattern :=
  psInvoke (.seqs [.unit fun c => c = quote, .group (.plus anyUnit), .unit fun c => c = quote])

def psInvokeNoQuote : Pattern := psInvoke (.group (.plus anyUnit))

/-- `.replace(/""/g, '"')`, for either quote. -/
def undouble (quote : CodeUnit) : Utf16 → Utf16
  | [] => []
  | [c] => [c]
  | c :: d :: rest =>
    if c = quote ∧ d = quote then quote :: undouble quote rest
    else c :: undouble quote (d :: rest)

def stripWindowsShellWrapperOnce (command : Utf16) : Utf16 :=
  match capture psCall command with
  | some inner => inner
  | none =>
    match capture (psInvokeQuoted DOUBLE) command with
    | some inner => undouble DOUBLE inner
    | none =>
      match capture (psInvokeQuoted SINGLE) command with
      | some inner => undouble SINGLE inner
      | none =>
        match capture psInvokeNoQuote command with
        | some inner => inner
        | none => command

/-- The loop of `stripWindowsShellWrapper`, with the rounds that are left. -/
def stripLoop : ℕ → Utf16 → Utf16
  | 0, result => result
  | n + 1, result =>
    let next := stripWindowsShellWrapperOnce (trim result)
    if next = result then next else stripLoop n next

def stripWindowsShellWrapper (command : Utf16) : Utf16 := stripLoop 5 command

/-- What the plan for a command looks at in its resolution. -/
structure CommandResolution where
  execution : ExecutableResolution
  effectiveArgv : Option (List Utf16)
  policyBlocked : Option Bool

structure ExecCommandSegment where
  raw : Utf16
  argv : List Utf16
  resolution : Option CommandResolution

/-- The segments of a command, or why it is not analysed. The executable is looked up by
`resolve`. -/
def analyzeWindowsShellCommand (resolve : List Utf16 → Option CommandResolution)
    (command : Utf16) : Except Utf16 (List ExecCommandSegment) :=
  let effective := stripWindowsShellWrapper (trim command)
  match findWindowsUnsupportedToken effective with
  | some unsupported => .error (ofString "unsupported windows shell token: " ++ unsupported)
  | none =>
    match tokenizeWindowsSegment effective with
    | none => .error (ofString "unable to parse windows command")
    | some argv => .ok [⟨command, argv, resolve argv⟩]

/-- `/[%`]|\$(?=[A-Za-z_{(?$])/` -/
def hasUnsafeMeta : Utf16 → Bool
  | [] => false
  | c :: rest =>
    c = unit '%' || c = unit '`' || (c = unit '$' && rest.head?.any isExpansion) ||
      hasUnsafeMeta rest

/-- `[a-zA-Z0-9_./:~\\=-]` -/
def isBare (c : CodeUnit) : Bool := isLetter c || isDigit c || c ∈ ofString "_./:~\\=-"

def windowsEscapeArg (value : Utf16) : Option Utf16 :=
  if value = [] then some [DOUBLE, DOUBLE]
  else if hasUnsafeMeta value then none
  else if value.all isBare then some value
  else some (DOUBLE :: (value.flatMap fun c => if c = DOUBLE then [DOUBLE, DOUBLE] else [c]) ++
    [DOUBLE])

def escapeAll : List Utf16 → Except Utf16 (List Utf16)
  | [] => .ok []
  | token :: argv =>
    match windowsEscapeArg token with
    | none => .error (ofString "unsafe windows token: " ++ token)
    | some escaped =>
      match escapeAll argv with
      | .error reason => .error reason
      | .ok parts => .ok (escaped :: parts)

def renderWindowsQuotedArgv (argv : List Utf16) : Except Utf16 Utf16 :=
  match escapeAll argv with
  | .error reason => .error reason
  | .ok parts => .ok (join (unit ' ') parts)

def resolvePlannedSegmentArgv (segment : ExecCommandSegment) : Option (List Utf16) :=
  if segment.resolution.bind CommandResolution.policyBlocked = some true then none
  else
    let effective := (segment.resolution.bind CommandResolution.effectiveArgv).getD []
    let baseArgv := if effective.length > 0 then effective else segment.argv
    match baseArgv with
    | [] => none
    | first :: args =>
      let execution := segment.resolution.map CommandResolution.execution
      let resolvedExecutable :=
        (((execution.bind ExecutableResolution.resolvedRealPath).orElse fun _ =>
          execution.bind ExecutableResolution.resolvedPath).map trim).getD []
      some ((if resolvedExecutable ≠ [] then resolvedExecutable else first) :: args)

def rebuildWindowsShellCommandFromSource (command : Utf16)
    (renderSegment : Utf16 → ℕ → Except Utf16 Utf16) : Except Utf16 Utf16 :=
  let source := stripWindowsShellWrapper (trim command)
  if source = [] then .error (ofString "empty command")
  else
    match findWindowsUnsupportedToken source with
    | some unsupported => .error (ofString "unsupported windows shell token: " ++ unsupported)
    | none =>
      match renderSegment source 0 with
      | .error reason => .error reason
      | .ok rendered => .ok (unit '&' :: unit ' ' :: rendered)

def renderPlannedSegment (segments : List ExecCommandSegment) (segmentIndex : ℕ) :
    Except Utf16 Utf16 :=
  match segments[segmentIndex]? with
  | none => .error (ofString "segment mapping failed")
  | some segment =>
    match resolvePlannedSegmentArgv segment with
    | none => .error (ofString "segment execution plan unavailable")
    | some argv => renderWindowsQuotedArgv argv

def buildEnforcedShellCommand (command : Utf16) (segments : List ExecCommandSegment)
    (platform : Option Utf16) : Except Utf16 Utf16 :=
  if platform ≠ some (ofString "win32") then .error (ofString "unsupported platform")
  else
    match rebuildWindowsShellCommandFromSource command fun _ => renderPlannedSegment segments with
    | .error reason => .error reason
    | .ok rebuilt =>
      if segments.length ≠ 1 then .error (ofString "segment count mismatch") else .ok rebuilt

end Flashclaw.Exec.Windows
