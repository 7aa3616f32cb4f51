import Flashclaw.Lib.RegExp
import Flashclaw.Lib.Utf16Text

/-!
# Exec allowlist

`infra/exec-allowlist-pattern.ts`, with what the file system, `node:path` and the
regular expressions of the language answer as a parameter; the entries and their
arguments of `infra/exec-command-resolution.ts`; and the entries that an approval
for good persists, `infra/exec-approvals-allowlist.ts` and `infra/exec-approvals.ts`.
-/

namespace Flashclaw.Exec

open Utf16

structure Host where
  /-- `process.platform` -/
  platform : Utf16
  /-- `fs.realpathSync`, nothing where it throws. -/
  realpathSync : Utf16 → Option Utf16
  normalizePosix : Utf16 → Utf16
  normalizeWin32 : Utf16 → Utf16
  isAbsolute : Utf16 → Bool
  /-- `path.resolve(base, value)` -/
  resolve : Utf16 → Utf16 → Utf16
  basename : Utf16 → Utf16
  cwd : Utf16
  expandHomePrefix : Utf16 → Utf16
  toLowerCase : Utf16 → Utf16
  /-- What two characters have in common that the flag `i` does not tell apart. -/
  canonicalize : CodeUnit → CodeUnit
  /-- `new RegExp(source, flags).test` with or without the flag `i`, nothing where it throws. -/
  regExp : Utf16 → Bool → Option (Utf16 → Bool)

def Host.isWin32 (host : Host) : Bool := host.platform = ofString "win32"

def Host.isDarwin (host : Host) : Bool := host.platform = ofString "darwin"

/-- The case that regular expressions of paths look at. -/
def Host.pathCase (host : Host) : CodeUnit → CodeUnit := if host.isWin32 then host.canonicalize else id

def slash : CodeUnit := unit '/'

def backslash : CodeUnit := unit '\\'

def isWildcard (c : CodeUnit) : Bool := c = unit '*' || c = unit '?'

/-- `/[*?]/` -/
def hasWildcard (s : Utf16) : Bool := s.any isWildcard

section Pattern

variable (host : Host)

def normalizeLowercaseStringOrEmpty (value : Utf16) : Utf16 :=
  if trim value = [] then [] else host.toLowerCase (trim value)

/-- `replace(/^\\\\[?.]\\/, "")` -/
def stripVerbatimPrefix : Utf16 → Utf16
  | a :: b :: c :: d :: rest =>
    if a = backslash ∧ b = backslash ∧ (c = unit '?' ∨ c = unit '.') ∧ d = backslash then rest
    else a :: b :: c :: d :: rest
  | s => s

/-- `replace(/\\\\/g, "/")` -/
def collapseBackslashes : Utf16 → Utf16
  | [] => []
  | [c] => [c]
  | c :: d :: rest =>
    if c = backslash ∧ d = backslash then slash :: collapseBackslashes rest
    else c :: collapseBackslashes (d :: rest)

def privateVar : Utf16 := ofString "/private/var"

def normalizeMatchTarget (value : Utf16) : Utf16 :=
  if host.isWin32 then
    normalizeLowercaseStringOrEmpty host (replaceUnit backslash slash (stripVerbatimPrefix value))
  else
    let normalized := collapseBackslashes value
    if host.isDarwin then
      if normalized = privateVar then ofString "/var"
      else if (privateVar ++ [slash]).isPrefixOf normalized then normalized.drop 8
      else normalized
    else normalized

def hasDotPathSegment (value : Utf16) : Bool :=
  ((replaceUnit backslash slash value).splitOn slash).any fun segment =>
    segment = ofString "." || segment = ofString ".."

def normalizeDotPathSegments (value : Utf16) : Utf16 :=
  normalizeMatchTarget host
    (if host.isWin32 then host.normalizeWin32 value else host.normalizePosix value)

def escapeRegExpLiteral (input : Utf16) : Utf16 := input.flatMap RegExp.escape

/-- What the loop of `compileGlobRegex` writes for a character that is not of a `**`. -/
def globUnit (c : CodeUnit) : Utf16 :=
  if c = unit '*' then ofString "[^/]*"
  else if c = unit '?' then ofString "[^/]"
  else escapeRegExpLiteral [c]

def globSource : Utf16 → Utf16
  | [] => []
  | [c] => globUnit c
  | c :: d :: rest =>
    if c = unit '*' ∧ d = unit '*' then ofString ".*" ++ globSource rest
    else globUnit c ++ globSource (d :: rest)

/-- The source is well formed, so that no regular expression throws. -/
def compileGlobRegex (pattern : Utf16) : Option (Utf16 → Bool) :=
  host.regExp (unit '^' :: globSource pattern ++ [unit '$']) host.isWin32

def matchesExecAllowlistPattern (pattern target : Utf16) : Bool :=
  let trimmed := trim pattern
  if trimmed = [] then false
  else
    let expanded :=
      if trimmed.head? = some (unit '~') then host.expandHomePrefix trimmed else trimmed
    let resolveReal (value : Utf16) :=
      if host.isWin32 && !hasWildcard expanded then (host.realpathSync value).getD value else value
    let normalizedPattern := normalizeMatchTarget host (resolveReal expanded)
    let normalizedTarget := normalizeMatchTarget host (resolveReal target)
    (compileGlobRegex host normalizedPattern).any fun test =>
      test (if hasWildcard expanded && hasDotPathSegment normalizedTarget then
        normalizeDotPathSegments host normalizedTarget
      else normalizedTarget)

end Pattern

structure ExecutableResolution where
  rawExecutable : Utf16
  resolvedPath : Option Utf16
  resolvedRealPath : Option Utf16
  executableName : Utf16

structure ExecAllowlistEntry where
  id : Utf16
  pattern : Option Utf16
  argPattern : Option Utf16
  source : Option Utf16
  lastUsedAt : Option ℕ
deriving DecidableEq

/-- What a text that may be left out stands for in a condition. -/
def isSet (text : Option Utf16) : Bool := text.any (· ≠ [])

def NUL : CodeUnit := 0

section Match

variable (host : Host)

def isWindowsPlatform (platform : Utf16) : Bool :=
  (ofString "win").isPrefixOf (normalizeLowercaseStringOrEmpty host platform)

/-- The arguments as their pattern has them. -/
def argsString (sep : CodeUnit) (args : List Utf16) : Utf16 :=
  if sep = NUL then
    if args = [] then [NUL, NUL] else join sep args ++ [sep]
  else join sep args

def toBackslashes (s : Utf16) : Utf16 := replaceUnit slash backslash s

def matchArgPattern (argPattern : Utf16) (argv : List Utf16) (platform : Option Utf16) : Bool :=
  let sep := if NUL ∈ argPattern then NUL else unit ' '
  let args := argsString sep argv.tail
  (host.regExp argPattern false).any fun test =>
    test args ||
      (isWindowsPlatform host (platform.getD host.platform) &&
        toBackslashes args ≠ args && test (toBackslashes args))

def hasPathSelector (value : Utf16) : Bool :=
  slash ∈ value || backslash ∈ value || unit '~' ∈ value

def matchesExecutableBasenamePattern (pattern : Utf16) (resolution : ExecutableResolution) : Bool :=
  if hasPathSelector resolution.rawExecutable then false
  else
    (resolution.executableName ≠ [] &&
        matchesExecAllowlistPattern host pattern resolution.executableName) ||
      resolution.resolvedPath.any fun path =>
        path ≠ [] && matchesExecAllowlistPattern host pattern (host.basename path)

/-- The path that entries are compared with. -/
def trustPathOf (resolution : ExecutableResolution) : Utf16 :=
  let real := trim (resolution.resolvedRealPath.getD [])
  if real ≠ [] then real else resolution.resolvedPath.getD []

def matchesEntryPath (pattern : Utf16) (resolution : ExecutableResolution) : Bool :=
  if hasPathSelector pattern then matchesExecAllowlistPattern host pattern (trustPathOf resolution)
  else pattern ≠ [unit '*'] && matchesExecutableBasenamePattern host pattern resolution

/-- The loop over the entries, with the first that matched by its path alone. -/
def matchEntries (resolution : ExecutableResolution) (argv : Option (List Utf16))
    (platform : Option Utf16) :
    List ExecAllowlistEntry → Option ExecAllowlistEntry → Option ExecAllowlistEntry
  | [], pathOnlyMatch => pathOnlyMatch
  | entry :: entries, pathOnlyMatch =>
    let pattern := trim (entry.pattern.getD [])
    if pattern = [] then matchEntries resolution argv platform entries pathOnlyMatch
    else if !matchesEntryPath host pattern resolution then
      matchEntries resolution argv platform entries pathOnlyMatch
    else if !isSet entry.argPattern then
      matchEntries resolution argv platform entries (pathOnlyMatch.orElse fun _ => some entry)
    else if argv.any fun argv => matchArgPattern host (entry.argPattern.getD []) argv platform then
      some entry
    else matchEntries resolution argv platform entries pathOnlyMatch

def matchAllowlist (entries : List ExecAllowlistEntry) (resolution : Option ExecutableResolution)
    (argv : Option (List Utf16)) (platform : Option Utf16) : Option ExecAllowlistEntry :=
  let bareWild := entries.find? fun entry =>
    entry.pattern.map trim = some [unit '*'] && !isSet entry.argPattern
  match resolution with
  | none => none
  | some resolution =>
    if bareWild.isSome then bareWild
    else if !isSet resolution.resolvedPath then none
    else if trustPathOf resolution = [] then none
    else matchEntries host resolution argv platform entries none

def buildArgPatternFromArgv (argv : List Utf16) (platform : Option Utf16) : Option Utf16 :=
  if !isWindowsPlatform host (platform.getD host.platform) then none
  else
    let normalized := argv.tail.map toBackslashes
    if normalized = [] then some [unit '^', NUL, NUL, unit '$']
    else some (unit '^' :: escapeRegExpLiteral (join NUL normalized) ++ [NUL, unit '$'])

def resolveArgPath (base arg : Utf16) : Utf16 :=
  if host.isAbsolute arg then arg else host.resolve base arg

/-- Where the script stands in the arguments. -/
def findScript (argv : List Utf16) (scriptPath : Utf16) (cwd : Option Utf16) : Option ℕ :=
  let scriptBase := normalizeLowercaseStringOrEmpty host (host.basename scriptPath)
  let base := if trim (cwd.getD []) ≠ [] then trim (cwd.getD []) else host.cwd
  (argv.findIdx? fun arg => resolveArgPath host base arg = scriptPath).orElse fun _ =>
    argv.findIdx? fun arg => normalizeLowercaseStringOrEmpty host (host.basename arg) = scriptBase

/-- The arguments after the script. -/
def scriptArgs (argv : List Utf16) (scriptPath : Utf16) (cwd : Option Utf16) : List Utf16 :=
  (findScript host argv scriptPath cwd).elim [] fun i => argv.drop (i + 1)

def buildScriptArgPatternFromArgv (argv : List Utf16) (scriptPath : Utf16) (cwd : Option Utf16)
    (platform : Option Utf16) : Option Utf16 :=
  if !isWindowsPlatform host (platform.getD host.platform) then none
  else
    let normalized := (scriptArgs host argv scriptPath cwd).map toBackslashes
    if normalized = [] then some [unit '^', NUL, NUL, unit '$']
    else some (unit '^' :: join NUL (normalized.map escapeRegExpLiteral) ++ [NUL, unit '$'])

end Match

/-- The allowlist of an agent after an entry is added, nothing where it stays. -/
def applyAllowlistEntryUpdate (allowlist : List ExecAllowlistEntry) (pattern : Utf16)
    (argPattern source : Option Utf16) (id : Utf16) (now : ℕ) : Option (List ExecAllowlistEntry) :=
  let trimmed := trim pattern
  let argPattern := if argPattern = some [] then none else argPattern
  let isSame (entry : ExecAllowlistEntry) : Bool :=
    entry.pattern = some trimmed && entry.argPattern = argPattern
  if trimmed = [] then none
  else
    match allowlist.find? isSame with
    | some existing =>
      if !isSet source || existing.source = source then none
      else
        some (allowlist.map fun entry =>
          if isSame entry then
            { entry with
              argPattern := argPattern
              source := source.orElse fun _ => entry.source
              lastUsedAt := some now }
          else entry)
    | none => some (allowlist ++ [⟨id, some trimmed, argPattern, source, some now⟩])

end Flashclaw.Exec
