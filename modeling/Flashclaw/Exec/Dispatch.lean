import Flashclaw.Exec.Carriers

/-!
# Exec wrappers: commands that dispatch to commands

`infra/dispatch-wrapper-resolution.ts`
-/

namespace Flashclaw.Exec

open Utf16

def NICE_OPTIONS_WITH_VALUE : List String := ["-n", "--adjustment", "--priority"]
def CAFFEINATE_OPTIONS_WITH_VALUE : List String := ["-t", "-w"]
def STDBUF_OPTIONS_WITH_VALUE : List String := ["-i", "--input", "-o", "--output", "-e", "--error"]
def FLOCK_SHORT_FLAG_OPTIONS : List String := ["-e", "-F", "-n", "-o", "-s", "-x"]
def FLOCK_LONG_FLAG_OPTIONS : List String :=
  ["--close", "--exclusive", "--nb", "--no-fork", "--nonblock", "--shared", "--verbose"]
def FLOCK_SHORT_OPTIONS_WITH_VALUE : List String := ["-E", "-w"]
def FLOCK_LONG_OPTIONS_WITH_VALUE : List String := ["--conflict-exit-code", "--timeout", "--wait"]
def TIME_FLAG_OPTIONS : List String :=
  ["-a", "--append", "-h", "--help", "-l", "-p", "-q", "--quiet", "-v", "--verbose", "-V",
    "--version"]
def TIME_OPTIONS_WITH_VALUE : List String := ["-f", "--format", "-o", "--output"]
def BSD_SCRIPT_FLAG_OPTIONS : List String := ["-a", "-d", "-k", "-p", "-q", "-r"]
def BSD_SCRIPT_OPTIONS_WITH_VALUE : List String := ["-F", "-t"]
def SANDBOX_EXEC_OPTIONS_WITH_VALUE : List String := ["-f", "-p", "-d"]
def TIMEOUT_FLAG_OPTIONS : List String := ["--foreground", "--preserve-status", "-v", "--verbose"]
def TIMEOUT_OPTIONS_WITH_VALUE : List String := ["-k", "--kill-after", "-s", "--signal"]
def XCRUN_FLAG_OPTIONS : List String :=
  ["-k", "--kill-cache", "-l", "--log", "-n", "--no-cache", "-r", "--run", "-v", "--verbose"]

def isArchSelectorToken (token : Utf16) : Bool :=
  token.head? = some (unit '-') && token.tail ≠ [] &&
    token.tail.all fun c => isAsciiLetter c || isAsciiDigit c || c = unit '_'

def isKnownArchSelectorToken (token : Utf16) : Bool :=
  has ["-arm64", "-arm64e", "-i386", "-x86_64", "-x86_64h"] token

def isKnownArchNameToken (token : Utf16) : Bool := isKnownArchSelectorToken (unit '-' :: token)

inductive WrapperScanDirective where
  | next
  | consumeNext
  | stop
  | invalid
deriving DecidableEq

section Scan

variable (rt : Runtime)

/-- The loop from an index on: where it stops, and whether an option still expects its value. -/
def scanLoop {σ : Type} (separators : List String)
    (onToken : σ → Utf16 → Utf16 → WrapperScanDirective × σ) :
    σ → Bool → ℕ → List Utf16 → Option (ℕ × Bool)
  | _, expectsOptionValue, index, [] => some (index, expectsOptionValue)
  | state, expectsOptionValue, index, arg :: rest =>
    let token := trim arg
    if token = [] then scanLoop separators onToken state expectsOptionValue (index + 1) rest
    else if expectsOptionValue then scanLoop separators onToken state false (index + 1) rest
    else if has separators token then some (index + 1, false)
    else
      match onToken state token (lowercaseOrEmpty rt token) with
      | (.stop, _) => some (index, false)
      | (.invalid, _) => none
      | (.consumeNext, state) => scanLoop separators onToken state true (index + 1) rest
      | (.next, state) => scanLoop separators onToken state false (index + 1) rest

def scanWrapperInvocation {σ : Type} (argv : List Utf16) (separators : List String) (start : σ)
    (onToken : σ → Utf16 → Utf16 → WrapperScanDirective × σ)
    (adjustCommandIndex : ℕ → List Utf16 → Option ℕ) : Option (List Utf16) :=
  (scanLoop rt separators onToken start false 1 argv.tail).bind fun (index, expectsOptionValue) =>
    if expectsOptionValue then none
    else
      (adjustCommandIndex index argv).bind fun commandIndex =>
        if argv.length ≤ commandIndex then none else some (argv.drop commandIndex)

/-- A scan whose tokens leave no state. -/
def scanTokens (argv : List Utf16) (separators : List String)
    (onToken : Utf16 → Utf16 → WrapperScanDirective)
    (adjustCommandIndex : ℕ → List Utf16 → Option ℕ) : Option (List Utf16) :=
  scanWrapperInvocation rt argv separators () (fun _ token lower => (onToken token lower, ()))
    adjustCommandIndex

def sameIndex (index : ℕ) (_ : List Utf16) : Option ℕ := some index

/-- The token is no option. -/
def isOperand (token : Utf16) : Bool := !startsWith token "-" || token = ofString "-"

def unwrapDashOptionInvocation (argv : List Utf16)
    (onFlag : Utf16 → Utf16 → WrapperScanDirective)
    (adjustCommandIndex : ℕ → List Utf16 → Option ℕ) : Option (List Utf16) :=
  scanTokens rt argv ["--"] (fun token lower =>
    if isOperand token then .stop else onFlag (parseInlineOptionToken lower).name lower)
    adjustCommandIndex

def unwrapNiceInvocation (argv : List Utf16) : Option (List Utf16) :=
  unwrapDashOptionInvocation rt argv (fun flag lower =>
    if lower.head? = some (unit '-') && lower.tail ≠ [] && lower.tail.all isAsciiDigit then .next
    else if has NICE_OPTIONS_WITH_VALUE flag then
      if unit '=' ∈ lower ∨ lower ≠ flag then .next else .consumeNext
    else if startsWith lower "-n" && 2 < lower.length then .next
    else .invalid) sameIndex

def unwrapCaffeinateInvocation (argv : List Utf16) : Option (List Utf16) :=
  unwrapDashOptionInvocation rt argv (fun flag lower =>
    if has ["-d", "-i", "-m", "-s", "-u"] flag then .next
    else if has CAFFEINATE_OPTIONS_WITH_VALUE flag then
      if lower ≠ flag ∨ unit '=' ∈ lower then .next else .consumeNext
    else .invalid) sameIndex

def unwrapNohupInvocation (argv : List Utf16) : Option (List Utf16) :=
  scanTokens rt argv ["--"] (fun token lower =>
    if isOperand token then .stop
    else if has ["--help", "--version"] lower then .next
    else .invalid) sameIndex

def unwrapSandboxExecInvocation (argv : List Utf16) : Option (List Utf16) :=
  unwrapDashOptionInvocation rt argv (fun flag lower =>
    if has SANDBOX_EXEC_OPTIONS_WITH_VALUE flag then
      if lower ≠ flag ∨ unit '=' ∈ lower then .next else .consumeNext
    else .invalid) sameIndex

def unwrapStdbufInvocation (argv : List Utf16) : Option (List Utf16) :=
  unwrapDashOptionInvocation rt argv (fun flag lower =>
    if !has STDBUF_OPTIONS_WITH_VALUE flag then .invalid
    else if unit '=' ∈ lower then .next
    else .consumeNext) sameIndex

def unwrapTimeInvocation (argv : List Utf16) : Option (List Utf16) :=
  unwrapDashOptionInvocation rt argv (fun flag lower =>
    if has TIME_FLAG_OPTIONS flag then .next
    else if has TIME_OPTIONS_WITH_VALUE flag then
      if unit '=' ∈ lower then .next else .consumeNext
    else .invalid) sameIndex

def isFlockShortFlagCluster (token : Utf16) : Bool :=
  token.head? = some (unit '-') && token.tail ≠ [] && token.tail.all (· ∈ ofString "eFnsxo")

/-- After the lock comes the command; texts for a shell and descriptors stay blocked. -/
def flockCommandIndex (commandIndex : ℕ) (argv : List Utf16) : Option ℕ :=
  let wrappedCommand := trim (argv[commandIndex + 1]?.getD [])
  if wrappedCommand ≠ [] && isOperand wrappedCommand then some (commandIndex + 1) else none

def unwrapFlockInvocation (argv : List Utf16) : Option (List Utf16) :=
  scanTokens rt argv ["--"] (fun token lower =>
    if isOperand token then .stop
    else
      let parsedToken := parseInlineOptionToken token
      let lowerFlag := (parseInlineOptionToken lower).name
      if has FLOCK_LONG_FLAG_OPTIONS lowerFlag then .next
      else if has FLOCK_LONG_OPTIONS_WITH_VALUE lowerFlag then
        if parsedToken.inlineValue.isSome then .next else .consumeNext
      else if isFlockShortFlagCluster token then .next
      else if has FLOCK_SHORT_FLAG_OPTIONS parsedToken.name then .next
      else if has FLOCK_SHORT_OPTIONS_WITH_VALUE parsedToken.name then
        if parsedToken.inlineValue.isSome ∨ token ≠ parsedToken.name then .next else .consumeNext
      else .invalid) flockCommandIndex

/-- The loop of `timeInvocationWritesOutputFile`. -/
def timeOutputLoop : Bool → List Utf16 → Bool
  | _, [] => false
  | expectsOptionValue, arg :: rest =>
    let token := trim arg
    if token = [] then timeOutputLoop expectsOptionValue rest
    else if expectsOptionValue then timeOutputLoop false rest
    else if token = ofString "--" then false
    else if isOperand token then false
    else
      let lower := lowercaseOrEmpty rt token
      let flag := (parseInlineOptionToken lower).name
      if has ["-o", "--output"] flag then true
      else timeOutputLoop (has TIME_OPTIONS_WITH_VALUE flag && unit '=' ∉ lower) rest

def timeInvocationWritesOutputFile (argv : List Utf16) : Bool := timeOutputLoop rt false argv.tail

def supportsScriptPositionalCommand (platform : Utf16) : Bool :=
  platform = ofString "darwin" || platform = ofString "freebsd"

/-- After the transcript comes the command. -/
def scriptCommandIndex (commandIndex : ℕ) (argv : List Utf16) : Option ℕ :=
  let operands := (List.range argv.length).filter fun i =>
    commandIndex ≤ i && trim (argv[i]?.getD []) ≠ []
  operands[1]?

def unwrapScriptInvocation (argv : List Utf16) (platform : Utf16) : Option (List Utf16) :=
  if !supportsScriptPositionalCommand platform then none
  else
    scanTokens rt argv ["--"] (fun token lower =>
      if isOperand lower then .stop
      else
        let flag := (parseInlineOptionToken token).name
        if has BSD_SCRIPT_OPTIONS_WITH_VALUE flag then
          if unit '=' ∈ token then .next else .consumeNext
        else if has BSD_SCRIPT_FLAG_OPTIONS flag then .next
        else .invalid) scriptCommandIndex

/-- After the duration comes the command. -/
def timeoutCommandIndex (commandIndex : ℕ) (argv : List Utf16) : Option ℕ :=
  if commandIndex + 1 < argv.length then some (commandIndex + 1) else none

def unwrapTimeoutInvocation (argv : List Utf16) : Option (List Utf16) :=
  unwrapDashOptionInvocation rt argv (fun flag lower =>
    if has TIMEOUT_FLAG_OPTIONS flag then .next
    else if has TIMEOUT_OPTIONS_WITH_VALUE flag then
      if unit '=' ∈ lower then .next else .consumeNext
    else .invalid) timeoutCommandIndex

/-- The state is whether a `-arch` expects its name. -/
def unwrapArchInvocation (argv : List Utf16) : Option (List Utf16) :=
  scanWrapperInvocation rt argv [] false (fun expectsArchName token lower =>
    if expectsArchName then (if isKnownArchNameToken lower then .next else .invalid, false)
    else if isOperand token then (.stop, false)
    else if has ["-32", "-64"] lower then (.next, false)
    else if lower = ofString "-arch" then (.next, true)
    -- these change the environment of the command
    else if has ["-c", "-d", "-e", "-h"] lower then (.invalid, false)
    else (if isArchSelectorToken token && isKnownArchSelectorToken lower then .next else .invalid,
      false)) sameIndex

def supportsArchDispatchWrapper (platform : Utf16) : Bool := platform = ofString "darwin"

def supportsXcrunDispatchWrapper (platform : Utf16) : Bool := platform = ofString "darwin"

def unwrapXcrunInvocation (argv : List Utf16) : Option (List Utf16) :=
  scanTokens rt argv [] (fun token lower =>
    if isOperand token then .stop
    else if has XCRUN_FLAG_OPTIONS lower then .next
    else .invalid) sameIndex

structure DispatchWrapperSpec where
  name : String
  unwrap : Option (List Utf16 → Utf16 → Option (List Utf16))
  transparentUsage : List Utf16 → Utf16 → Bool

/-- A wrapper that is always blocked. -/
def opaqueSpec (name : String) : DispatchWrapperSpec := ⟨name, none, fun _ _ => false⟩

def DISPATCH_WRAPPER_SPECS : List DispatchWrapperSpec :=
  [⟨"arch", some fun argv platform =>
      if supportsArchDispatchWrapper platform then unwrapArchInvocation rt argv else none,
      fun _ platform => supportsArchDispatchWrapper platform⟩,
    ⟨"caffeinate", some fun argv _ => unwrapCaffeinateInvocation rt argv, fun _ _ => true⟩,
    opaqueSpec "chrt",
    opaqueSpec "doas",
    ⟨"env", some fun argv _ => unwrapEnvInvocation rt argv,
      fun argv _ => !envInvocationUsesModifiers rt argv⟩,
    ⟨"flock", some fun argv _ => unwrapFlockInvocation rt argv, fun _ _ => true⟩,
    opaqueSpec "ionice",
    ⟨"nice", some fun argv _ => unwrapNiceInvocation rt argv, fun _ _ => true⟩,
    ⟨"nohup", some fun argv _ => unwrapNohupInvocation rt argv, fun _ _ => true⟩,
    ⟨"sandbox-exec", some fun argv _ => unwrapSandboxExecInvocation rt argv, fun _ _ => true⟩,
    ⟨"script", some (unwrapScriptInvocation rt), fun _ _ => false⟩,
    opaqueSpec "setsid",
    ⟨"stdbuf", some fun argv _ => unwrapStdbufInvocation rt argv, fun _ _ => true⟩,
    opaqueSpec "sudo",
    opaqueSpec "taskset",
    ⟨"time", some fun argv _ => unwrapTimeInvocation rt argv,
      fun argv _ => !timeInvocationWritesOutputFile rt argv⟩,
    ⟨"timeout", some fun argv _ => unwrapTimeoutInvocation rt argv, fun _ _ => true⟩,
    ⟨"xcrun", some fun argv platform =>
      if supportsXcrunDispatchWrapper platform then unwrapXcrunInvocation rt argv else none,
      fun _ platform => supportsXcrunDispatchWrapper platform⟩]

def dispatchWrapperSpec (wrapper : Utf16) : Option DispatchWrapperSpec :=
  (DISPATCH_WRAPPER_SPECS rt).find? fun spec => ofString spec.name = wrapper

inductive UnwrapResult where
  | notWrapper
  | blocked (wrapper : Utf16)
  | unwrapped (wrapper : Utf16) (argv : List Utf16)
deriving DecidableEq

def unwrapDispatchWrapper (wrapper : Utf16) : Option (List Utf16) → UnwrapResult
  | some argv => .unwrapped wrapper argv
  | none => .blocked wrapper

/-- `argv[0]?.trim()` -/
def token0 (argv : List Utf16) : Utf16 := trim (argv.head?.getD [])

def unwrapKnownDispatchWrapperInvocation (argv : List Utf16) (platform : Utf16) : UnwrapResult :=
  if token0 argv = [] then .notWrapper
  else
    let wrapper := normalizeExecutableToken rt (token0 argv)
    match dispatchWrapperSpec rt wrapper with
    | none => .notWrapper
    | some spec =>
      match spec.unwrap with
      | none => .blocked wrapper
      | some unwrap => unwrapDispatchWrapper wrapper (unwrap argv platform)

def isSemanticDispatchWrapperUsage (wrapper : Utf16) (argv : List Utf16) (platform : Utf16) : Bool :=
  match dispatchWrapperSpec rt wrapper with
  | none => true
  | some spec => spec.unwrap.isNone || !spec.transparentUsage argv platform

structure DispatchWrapperTrustPlan where
  argv : List Utf16
  wrappers : List Utf16
  policyBlocked : Bool
  blockedWrapper : Option Utf16

def blockedDispatchWrapperPlan (argv wrappers : List Utf16) (blockedWrapper : Utf16) :
    DispatchWrapperTrustPlan :=
  ⟨argv, wrappers, true, some blockedWrapper⟩

/-- The loop with `depths` left: a blocked plan, or what it comes to. -/
def dispatchLoop (platform : Utf16) :
    ℕ → List Utf16 → List Utf16 → Except DispatchWrapperTrustPlan (List Utf16 × List Utf16)
  | 0, current, wrappers => .ok (current, wrappers)
  | depths + 1, current, wrappers =>
    match unwrapKnownDispatchWrapperInvocation rt current platform with
    | .blocked wrapper => .error (blockedDispatchWrapperPlan current wrappers wrapper)
    | .notWrapper => .ok (current, wrappers)
    | .unwrapped wrapper argv =>
      if argv = [] then .ok (current, wrappers)
      else if isSemanticDispatchWrapperUsage rt wrapper current platform then
        .error (blockedDispatchWrapperPlan current (wrappers ++ [wrapper]) wrapper)
      else dispatchLoop platform depths argv (wrappers ++ [wrapper])

def resolveDispatchWrapperTrustPlan (argv : List Utf16) (maxDepth : ℕ) (platform : Utf16) :
    DispatchWrapperTrustPlan :=
  match dispatchLoop rt platform maxDepth argv [] with
  | .error plan => plan
  | .ok (current, wrappers) =>
    if maxDepth ≤ wrappers.length then
      match unwrapKnownDispatchWrapperInvocation rt current platform with
      | .notWrapper => ⟨current, wrappers, false, none⟩
      | .blocked wrapper => blockedDispatchWrapperPlan current wrappers wrapper
      | .unwrapped wrapper _ => blockedDispatchWrapperPlan current wrappers wrapper
    else ⟨current, wrappers, false, none⟩

end Scan

end Flashclaw.Exec
