import Flashclaw.Exec.Dispatch

/-!
# Exec wrappers: the trust plan

`infra/exec-wrapper-trust-plan.ts`, with the shells and multiplexers of
`infra/shell-wrapper-resolution.ts`.
-/

namespace Flashclaw.Exec

open Utf16

def POSIX_SHELL_WRAPPER_NAMES : List String := ["ash", "bash", "dash", "fish", "ksh", "sh", "zsh"]
def WINDOWS_CMD_WRAPPER_NAMES : List String := ["cmd"]
def POWERSHELL_WRAPPER_NAMES : List String := ["powershell", "pwsh"]
def SHELL_MULTIPLEXER_WRAPPER_NAMES : List String := ["busybox", "toybox"]

def SHELL_WRAPPER_CANONICAL : List String :=
  POSIX_SHELL_WRAPPER_NAMES ++ WINDOWS_CMD_WRAPPER_NAMES ++ POWERSHELL_WRAPPER_NAMES

def TRANSPARENT_SHELL_ARGV_CARRIERS : List String := ["builtin", "command", "exec"]

structure ExecWrapperTrustPlan where
  argv : List Utf16
  policyArgv : List Utf16
  wrapperChain : List Utf16
  policyBlocked : Bool
  blockedWrapper : Option Utf16
  shellWrapperExecutable : Bool
  shellInlineCommand : Option Utf16

section Plan

variable (rt : Runtime)

def isShellWrapperExecutable (token : Utf16) : Bool :=
  has SHELL_WRAPPER_CANONICAL (normalizeExecutableToken rt token)

def unwrapKnownShellMultiplexerInvocation (argv : List Utf16) : UnwrapResult :=
  if token0 argv = [] then .notWrapper
  else
    let wrapper := normalizeExecutableToken rt (token0 argv)
    if !has SHELL_MULTIPLEXER_WRAPPER_NAMES wrapper then .notWrapper
    else
      let appletIndex := if argv[1]?.map trim = some (ofString "--") then 2 else 1
      let applet := trim (argv[appletIndex]?.getD [])
      if applet = [] || !isShellWrapperExecutable rt applet then .blocked wrapper
      else if argv.drop appletIndex = [] then .blocked wrapper
      else .unwrapped wrapper (argv.drop appletIndex)

/-- `/^-[^-]*p/u` -/
def hasPathSearchFlag (token : Utf16) : Bool :=
  unit 'p' ∈ token.tail.takeWhile (· ≠ unit '-')

def defaultPathSearchLoop : List Utf16 → Bool
  | [] => false
  | arg :: rest =>
    let token := trim arg
    if token = ofString "--" || !startsWith token "-" then false
    else if hasPathSearchFlag token then true
    else defaultPathSearchLoop rest

def commandCarrierUsesDefaultPathSearch (argv : List Utf16) : Bool :=
  token0 argv = ofString "command" && defaultPathSearchLoop argv.tail

def unwrapTransparentShellArgvCarrierInvocation (argv : List Utf16) (platform : Utf16) :
    UnwrapResult :=
  if platform = ofString "win32" then .notWrapper
  else if token0 argv = [] then .notWrapper
  else if !has TRANSPARENT_SHELL_ARGV_CARRIERS (token0 argv) then .notWrapper
  else if commandCarrierUsesDefaultPathSearch argv then .blocked (token0 argv)
  else
    match resolveCarrierCommandArgv rt argv true with
    | some (arg :: args) => .unwrapped (token0 argv) (arg :: args)
    | _ => .blocked (token0 argv)

def blockedExecWrapperTrustPlan (argv policyArgv wrapperChain : List Utf16)
    (blockedWrapper : Utf16) : ExecWrapperTrustPlan :=
  ⟨argv, policyArgv, wrapperChain, true, some blockedWrapper, false, none⟩

def finalizeExecWrapperTrustPlan (argv policyArgv wrapperChain : List Utf16)
    (policyBlocked : Bool) : ExecWrapperTrustPlan :=
  let shellWrapperExecutable :=
    !policyBlocked && token0 argv ≠ [] && isShellWrapperExecutable rt (token0 argv)
  ⟨argv, policyArgv, wrapperChain, policyBlocked, none, shellWrapperExecutable,
    if shellWrapperExecutable then rt.extractBindableShellWrapperInlineCommand argv else none⟩

/-- The variables of the loop. -/
structure PlanState where
  current : List Utf16
  policyArgv : List Utf16
  sawShellMultiplexer : Bool
  wrapperChain : List Utf16

/-- After the unwrapping of a wrapper that policy looks through. -/
def PlanState.peel (s : PlanState) (wrappers argv : List Utf16) : PlanState where
  current := argv
  policyArgv := if s.sawShellMultiplexer then s.policyArgv else argv
  sawShellMultiplexer := s.sawShellMultiplexer
  wrapperChain := s.wrapperChain ++ wrappers

/-- After the unwrapping of a multiplexer, the first of which policy looks at. -/
def PlanState.peelMultiplexer (s : PlanState) (wrapper : Utf16) (argv : List Utf16) :
    PlanState where
  current := argv
  policyArgv := if s.sawShellMultiplexer then s.policyArgv else s.current
  sawShellMultiplexer := true
  wrapperChain := s.wrapperChain ++ [wrapper]

def PlanState.blocked (s : PlanState) (wrapper : Utf16) : ExecWrapperTrustPlan :=
  blockedExecWrapperTrustPlan s.current s.policyArgv s.wrapperChain wrapper

/-- One pass of the loop: a blocked plan, a state to go on from, or nothing left to unwrap. -/
def planPass (maxDepth : ℕ) (platform : Utf16) (s : PlanState) :
    Except ExecWrapperTrustPlan (Option PlanState) :=
  let dispatchPlan :=
    resolveDispatchWrapperTrustPlan rt s.current (maxDepth - s.wrapperChain.length) platform
  if dispatchPlan.policyBlocked then
    .error (blockedExecWrapperTrustPlan dispatchPlan.argv dispatchPlan.argv s.wrapperChain
      (dispatchPlan.blockedWrapper.getD (s.current.head?.getD (ofString "unknown"))))
  else if dispatchPlan.wrappers ≠ [] then
    .ok (some (s.peel dispatchPlan.wrappers dispatchPlan.argv))
  else
    match unwrapTransparentShellArgvCarrierInvocation rt s.current platform with
    | .blocked wrapper => .error (s.blocked wrapper)
    | .unwrapped wrapper argv => .ok (some (s.peel [wrapper] argv))
    | .notWrapper =>
      match unwrapKnownShellMultiplexerInvocation rt s.current with
      | .blocked wrapper => .error (s.blocked wrapper)
      | .unwrapped wrapper argv => .ok (some (s.peelMultiplexer wrapper argv))
      | .notWrapper => .ok none

/-- The loop with `depths` left. -/
def planLoop (maxDepth : ℕ) (platform : Utf16) :
    ℕ → PlanState → Except ExecWrapperTrustPlan PlanState
  | 0, s => .ok s
  | depths + 1, s =>
    match planPass rt maxDepth platform s with
    | .error plan => .error plan
    | .ok none => .ok s
    | .ok (some s') =>
      if maxDepth ≤ s'.wrapperChain.length then .ok s' else planLoop maxDepth platform depths s'

/-- The wrapper that is still there. -/
def overflowWrapper (platform : Utf16) (argv : List Utf16) : Option Utf16 :=
  match unwrapKnownDispatchWrapperInvocation rt argv platform with
  | .blocked wrapper => some wrapper
  | .unwrapped wrapper _ => some wrapper
  | .notWrapper =>
    match unwrapTransparentShellArgvCarrierInvocation rt argv platform with
    | .blocked wrapper => some wrapper
    | .unwrapped wrapper _ => some wrapper
    | .notWrapper =>
      match unwrapKnownShellMultiplexerInvocation rt argv with
      | .blocked wrapper => some wrapper
      | .unwrapped wrapper _ => some wrapper
      | .notWrapper => none

def resolveExecWrapperTrustPlan (argv : List Utf16) (maxDepth : ℕ) (platform : Utf16) :
    ExecWrapperTrustPlan :=
  match planLoop rt maxDepth platform maxDepth ⟨argv, argv, false, []⟩ with
  | .error plan => plan
  | .ok s =>
    let finished := finalizeExecWrapperTrustPlan rt s.current s.policyArgv s.wrapperChain false
    if maxDepth ≤ s.wrapperChain.length then
      match overflowWrapper rt platform s.current with
      | some wrapper => s.blocked wrapper
      | none => finished
    else finished

end Plan

end Flashclaw.Exec
