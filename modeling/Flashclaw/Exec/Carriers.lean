import Flashclaw.Lib.Utf16Text

/-!
# Exec wrappers: tokens and commands that carry commands

`infra/exec-wrapper-tokens.ts`, `infra/inline-option-token.ts`,
`infra/command-carriers.ts` and `splitShellArgs` of `utils/shell-argv.ts`.
-/

namespace Flashclaw.Exec

open Utf16

/-- What the language and `node:path` answer, and the inline command that a shell is given. -/
structure Runtime where
  toLowerCase : Utf16 → Utf16
  win32Basename : Utf16 → Utf16
  posixBasename : Utf16 → Utf16
  extractBindableShellWrapperInlineCommand : List Utf16 → Option Utf16

/-- The token is of a set of names. -/
def has (names : List String) (token : Utf16) : Bool := names.any fun name => ofString name = token

def startsWith (s : Utf16) (start : String) : Bool := (ofString start).isPrefixOf s

def isAsciiLetter (c : CodeUnit) : Bool :=
  (unit 'a' ≤ c && c ≤ unit 'z') || (unit 'A' ≤ c && c ≤ unit 'Z')

def isAsciiDigit (c : CodeUnit) : Bool := unit '0' ≤ c && c ≤ unit '9'

section Tokens

variable (rt : Runtime)

/-- `normalizeLowercaseStringOrEmpty` -/
def lowercaseOrEmpty (value : Utf16) : Utf16 :=
  if trim value = [] then [] else rt.toLowerCase (trim value)

def WINDOWS_EXECUTABLE_SUFFIXES : List String := [".exe", ".cmd", ".bat", ".com"]

def stripWindowsExecutableSuffix (value : Utf16) : Utf16 :=
  if WINDOWS_EXECUTABLE_SUFFIXES.any fun suffix => (ofString suffix).isSuffixOf value then
    value.take (value.length - 4)
  else value

def basenameLower (token : Utf16) : Utf16 :=
  let win := rt.win32Basename token
  let posix := rt.posixBasename token
  lowercaseOrEmpty rt (if win.length < posix.length then win else posix)

def normalizeExecutableToken (token : Utf16) : Utf16 :=
  stripWindowsExecutableSuffix (basenameLower rt token)

/-- `normalizeExecutableToken(argv[0] ?? "")` -/
def executableOf (argv : List Utf16) : Utf16 := normalizeExecutableToken rt (argv.head?.getD [])

end Tokens

structure InlineOptionToken where
  name : Utf16
  inlineValue : Option Utf16

def parseInlineOptionToken (token : Utf16) : InlineOptionToken where
  name := token.takeWhile (· ≠ unit '=')
  inlineValue :=
    if unit '=' ∈ token then some (token.dropWhile (· ≠ unit '=')).tail else none

/-- Before which units `\` escapes between double quotes. -/
def isDoubleQuoteEscape (next : CodeUnit) : Bool :=
  next ∈ ofString "\\\"$`" || next.val = 0x0A || next.val = 0x0D

inductive Quoting where
  | plain
  | escaped
  | single
  | double
  /-- After a `\` between double quotes that escapes the next unit. -/
  | doubleEscaped
deriving DecidableEq

def pushToken (tokens : List Utf16) (buf : Utf16) : List Utf16 :=
  if buf = [] then tokens else tokens ++ [buf]

def splitShellLoop : Quoting → List Utf16 → Utf16 → Utf16 → Option (List Utf16)
  | .plain, tokens, buf, [] => some (pushToken tokens buf)
  | _, _, _, [] => none
  | .escaped, tokens, buf, c :: rest => splitShellLoop .plain tokens (buf ++ [c]) rest
  | .doubleEscaped, tokens, buf, c :: rest => splitShellLoop .double tokens (buf ++ [c]) rest
  | .single, tokens, buf, c :: rest =>
    if c = unit '\'' then splitShellLoop .plain tokens buf rest
    else splitShellLoop .single tokens (buf ++ [c]) rest
  | .double, tokens, buf, c :: rest =>
    if c = unit '\\' ∧ rest.head?.any isDoubleQuoteEscape then
      splitShellLoop .doubleEscaped tokens buf rest
    else if c = unit '"' then splitShellLoop .plain tokens buf rest
    else splitShellLoop .double tokens (buf ++ [c]) rest
  | .plain, tokens, buf, c :: rest =>
    if c = unit '\\' then splitShellLoop .escaped tokens buf rest
    else if c = unit '\'' then splitShellLoop .single tokens buf rest
    else if c = unit '"' then splitShellLoop .double tokens buf rest
    else if c = unit '#' ∧ buf = [] then some (pushToken tokens buf)
    else if isWhiteSpace c then splitShellLoop .plain (pushToken tokens buf) [] rest
    else splitShellLoop .plain tokens (buf ++ [c]) rest

def splitShellArgs (raw : Utf16) : Option (List Utf16) := splitShellLoop .plain [] [] raw

def COMMAND_EXECUTING_OPTIONS : List String := ["-p"]
def COMMAND_QUERY_OPTIONS : List String := ["-v", "-V"]
def ENV_OPTIONS_WITH_VALUE : List String :=
  ["-C", "-P", "-S", "-s", "-u", "--argv0", "--block-signal", "--chdir", "--default-signal",
    "--ignore-signal", "--split-string", "--unset"]
def ENV_SPLIT_STRING_OPTIONS : List String := ["-S", "-s", "--split-string"]
def ENV_STANDALONE_OPTIONS : List String := ["-0", "-i", "--ignore-environment", "--null"]
def SUDO_OPTIONS_WITH_VALUE : List String :=
  ["-C", "-D", "-g", "-h", "-p", "-R", "-T", "-U", "-u", "--chdir", "--chroot", "--close-from",
    "--command-timeout", "--group", "--host", "--other-user", "--prompt", "--role", "--type",
    "--user"]
def SUDO_STANDALONE_OPTIONS : List String :=
  ["-A", "-B", "-b", "-E", "-H", "-i", "-k", "-N", "-n", "-P", "-S", "-s", "--askpass",
    "--background", "--bell", "--login", "--no-update", "--non-interactive", "--preserve-env",
    "--preserve-groups", "--reset-home", "--reset-timestamp", "--set-home", "--shell", "--stdin"]
def SUDO_NON_EXEC_OPTIONS : List String :=
  ["-K", "-l", "-V", "-v", "-e", "--edit", "--help", "--list", "--remove-timestamp", "--validate",
    "--version"]
def DOAS_OPTIONS_WITH_VALUE : List String := ["-a", "-C", "-u"]
def DOAS_STANDALONE_OPTIONS : List String := ["-L", "-n", "-s"]
def EXEC_OPTIONS_WITH_VALUE : List String := ["-a"]
def EXEC_STANDALONE_OPTIONS : List String := ["-c", "-l"]

/-- `/^[A-Za-z_][A-Za-z0-9_]*=.*$/u` -/
def isEnvAssignmentToken (token : Utf16) : Bool :=
  let name := token.takeWhile (· ≠ unit '=')
  let value := token.dropWhile (· ≠ unit '=')
  value ≠ [] && name.head?.any (fun c => isAsciiLetter c || c = unit '_') &&
    name.all (fun c => isAsciiLetter c || isAsciiDigit c || c = unit '_') &&
    value.all fun c => c.val ∉ [0x0A, 0x0D, 0x2028, 0x2029]

structure ParsedCarrierOption where
  name : Utf16
  hasInlineValue : Bool
  inlineValue : Option Utf16

/-- The loop over the letters of a short option. -/
def parseShortOptions (standaloneOptions optionsWithValue nonExecutingOptions : List String) :
    Utf16 → Option (List ParsedCarrierOption)
  | [] => some []
  | c :: rest =>
    let name := [unit '-', c]
    if has optionsWithValue name then
      some [⟨name, rest ≠ [], if rest ≠ [] then some rest else none⟩]
    else if has standaloneOptions name || has nonExecutingOptions name then
      (parseShortOptions standaloneOptions optionsWithValue nonExecutingOptions rest).map
        (⟨name, false, none⟩ :: ·)
    else none

def parseCarrierOptionToken (token : Utf16)
    (standaloneOptions optionsWithValue nonExecutingOptions : List String) :
    Option (List ParsedCarrierOption) :=
  if startsWith token "--" then
    let option := parseInlineOptionToken token
    if has standaloneOptions option.name || has optionsWithValue option.name ||
        has nonExecutingOptions option.name then
      some [⟨option.name, option.inlineValue.isSome, option.inlineValue⟩]
    else none
  else if token.head? = some (unit '-') &&
      token.tail.head?.any (fun c => isAsciiLetter c || isAsciiDigit c) then
    parseShortOptions standaloneOptions optionsWithValue nonExecutingOptions token.tail
  else none

/-- Nothing for options that execute nothing. -/
def knownCarrierOptionConsumesNextValue (options : List ParsedCarrierOption)
    (optionsWithValue nonExecutingOptions : List String) : Option Bool :=
  if options.any fun option => has nonExecutingOptions option.name then none
  else
    some (options.foldl (fun consumes option =>
      if has optionsWithValue option.name then !option.hasInlineValue else consumes) false)

section Carriers

variable (rt : Runtime)

/-! ## `env` -/

structure ParsedEnvInvocationPrelude where
  assignmentKeys : List Utf16
  commandIndex : ℕ
  splitArgv : Option (List Utf16)
  usesModifiers : Bool

/-- The loop over the arguments from an index on. -/
def parseEnvLoop (resolveEnvSplitPayload : Utf16 → List Utf16 → Option (List Utf16)) :
    ℕ → List Utf16 → Bool → List Utf16 → Option ParsedEnvInvocationPrelude
  | _, _, _, [] => none
  | index, keys, usesModifiers, token :: rest =>
    if token = [] then none
    else if isEnvAssignmentToken token then
      let key := token.takeWhile (· ≠ unit '=')
      parseEnvLoop resolveEnvSplitPayload (index + 1) (if key ≠ [] then keys ++ [key] else keys)
        true rest
    else if token = ofString "--" ∨ token = ofString "-" then
      if rest ≠ [] then some ⟨keys, index + 1, none, usesModifiers⟩ else none
    else if startsWith token "-" then
      match parseCarrierOptionToken token ENV_STANDALONE_OPTIONS ENV_OPTIONS_WITH_VALUE [] with
      | none => none
      | some option =>
        match option.find? fun o => has ENV_SPLIT_STRING_OPTIONS o.name with
        | some split =>
          match split.inlineValue with
          | some payload =>
            (resolveEnvSplitPayload payload rest).map fun argv =>
              ⟨keys, index + 1, some argv, true⟩
          | none =>
            rest.head?.bind fun payload =>
              (resolveEnvSplitPayload payload rest.tail).map fun argv =>
                ⟨keys, index + 2, some argv, true⟩
        | none =>
          if knownCarrierOptionConsumesNextValue option ENV_OPTIONS_WITH_VALUE [] = some true then
            match rest with
            | [] => none
            | _ :: rest => parseEnvLoop resolveEnvSplitPayload (index + 2) keys true rest
          else parseEnvLoop resolveEnvSplitPayload (index + 1) keys true rest
    else some ⟨keys, index, none, usesModifiers⟩

def MAX_ENV_SPLIT_PAYLOAD_DEPTH : ℕ := 32

/-- The argv that a prelude carries. -/
def ParsedEnvInvocationPrelude.carried (parsed : ParsedEnvInvocationPrelude) (argv : List Utf16) :
    List Utf16 :=
  parsed.splitArgv.getD (argv.drop parsed.commandIndex)

/-- With `levels` of depth left. -/
def parseEnvAt : ℕ → List Utf16 → Option ParsedEnvInvocationPrelude
  | 0, _ => none
  | levels + 1, argv =>
    if executableOf rt argv ≠ ofString "env" then none
    else
      let resolveEnvSplitPayload (payload : Utf16) (trailingArgv : List Utf16) :=
        (splitShellArgs payload).bind fun innerArgv =>
          if innerArgv = [] then none
          else
            let carriedArgv := innerArgv ++ trailingArgv
            let envArgv := ofString "env" :: carriedArgv
            some (((parseEnvAt levels envArgv).map fun parsed => parsed.carried envArgv).getD
              carriedArgv)
      parseEnvLoop resolveEnvSplitPayload 1 [] false argv.tail

def parseEnvInvocationPrelude (argv : List Utf16) : Option ParsedEnvInvocationPrelude :=
  parseEnvAt rt (MAX_ENV_SPLIT_PAYLOAD_DEPTH + 1) argv

def envInvocationUsesModifiers (argv : List Utf16) : Bool :=
  match parseEnvInvocationPrelude rt argv with
  | some parsed => parsed.usesModifiers
  | none => executableOf rt argv = ofString "env"

def unwrapEnvInvocation (argv : List Utf16) : Option (List Utf16) :=
  (parseEnvInvocationPrelude rt argv).map fun parsed => parsed.carried argv

def commandBuiltinLoop : List Utf16 → Option (List Utf16)
  | [] => none
  | token :: rest =>
    if token = ofString "--" then some rest
    else if !startsWith token "-" then some (token :: rest)
    else
      let normalized := (parseInlineOptionToken token).name
      if has COMMAND_QUERY_OPTIONS normalized then none
      else if !has COMMAND_EXECUTING_OPTIONS normalized then none
      else commandBuiltinLoop rest

def resolveCommandBuiltinCarriedArgv (argv : List Utf16) : Option (List Utf16) :=
  if executableOf rt argv = ofString "command" ∨ executableOf rt argv = ofString "builtin" then
    commandBuiltinLoop argv.tail
  else none

/-- The loop over the options of carriers whose options take values. -/
def carriedLoop (standaloneOptions optionsWithValue nonExecutingOptions : List String)
    (finish : List Utf16 → Option (List Utf16)) : List Utf16 → Option (List Utf16)
  | [] => none
  | token :: rest =>
    if token = ofString "--" then finish rest
    else if !startsWith token "-" then finish (token :: rest)
    else
      match parseCarrierOptionToken token standaloneOptions optionsWithValue nonExecutingOptions with
      | none => none
      | some option =>
        match knownCarrierOptionConsumesNextValue option optionsWithValue nonExecutingOptions with
        | none => none
        | some true =>
          match rest with
          | [] => none
          | _ :: rest =>
            carriedLoop standaloneOptions optionsWithValue nonExecutingOptions finish rest
        | some false =>
          carriedLoop standaloneOptions optionsWithValue nonExecutingOptions finish rest

def stripSudoEnvAssignmentsFromCommandArgv (executable : Utf16) (argv : List Utf16) :
    Option (List Utf16) :=
  let command :=
    if executable ≠ ofString "sudo" then argv else argv.dropWhile isEnvAssignmentToken
  if command ≠ [] then some command else none

def resolveSudoLikeCarriedArgv (argv : List Utf16) : Option (List Utf16) :=
  let executable := executableOf rt argv
  if executable = ofString "sudo" then
    carriedLoop SUDO_STANDALONE_OPTIONS SUDO_OPTIONS_WITH_VALUE SUDO_NON_EXEC_OPTIONS
      (stripSudoEnvAssignmentsFromCommandArgv executable) argv.tail
  else if executable = ofString "doas" then
    carriedLoop DOAS_STANDALONE_OPTIONS DOAS_OPTIONS_WITH_VALUE []
      (stripSudoEnvAssignmentsFromCommandArgv executable) argv.tail
  else none

def resolveExecCarriedArgv (argv : List Utf16) : Option (List Utf16) :=
  if executableOf rt argv ≠ ofString "exec" then none
  else carriedLoop EXEC_STANDALONE_OPTIONS EXEC_OPTIONS_WITH_VALUE [] some argv.tail

def resolveCarrierCommandArgv (argv : List Utf16) (includeExec : Bool) : Option (List Utf16) :=
  let executable := executableOf rt argv
  if executable = ofString "env" then unwrapEnvInvocation rt argv
  else if executable = ofString "command" ∨ executable = ofString "builtin" then
    resolveCommandBuiltinCarriedArgv rt argv
  else if executable = ofString "sudo" ∨ executable = ofString "doas" then
    resolveSudoLikeCarriedArgv rt argv
  else if executable = ofString "exec" then
    if includeExec then resolveExecCarriedArgv rt argv else none
  else none

end Carriers

end Flashclaw.Exec
