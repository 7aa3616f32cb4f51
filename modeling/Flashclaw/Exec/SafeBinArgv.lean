import Flashclaw.Exec.SafeBinProfile
import Flashclaw.Exec.WindowsShell

/-!
# Safe bins: arguments

`src/infra/exec-safe-bin-policy-validator.ts`, with `parseExecArgvToken` of
`src/infra/exec-command-resolution.ts` and the rules of `src/infra/exec-safe-bin-semantics.ts`.
-/

namespace Flashclaw.Exec.SafeBin

open Utf16

inductive ExecArgvToken where
  | empty
  | terminator
  | stdin
  | positional (raw : Utf16)
  | long (flag : Utf16) (inlineValue : Option Utf16)
  | shortCluster (cluster : Utf16) (flags : List Utf16)
deriving DecidableEq

def parseExecArgvToken (raw : Utf16) : ExecArgvToken :=
  if raw = [] then .empty
  else if raw = [DASH, DASH] then .terminator
  else if raw = [DASH] then .stdin
  else if ¬[DASH] <+: raw then .positional raw
  else if isLong raw then
    if unit '=' ∈ raw then
      .long (raw.takeWhile fun c => c ≠ unit '=') (some (raw.dropWhile fun c => c ≠ unit '=').tail)
    else .long raw none
  else .shortCluster raw.tail (raw.tail.map fun c => [DASH, c])

/-- `/^[A-Za-z]:[\\/]/` -/
def hasDrive : Utf16 → Bool
  | drive :: colon :: separator :: _ =>
    Windows.isLetter drive && colon = unit ':' && (separator = unit '\\' || separator = unit '/')
  | _ => false

def isPathLikeToken (value : Utf16) : Bool :=
  let trimmed := trim value
  if trimmed = [] then false
  else if trimmed = [DASH] then false
  else (ofString "./").isPrefixOf trimmed || (ofString "../").isPrefixOf trimmed ||
    (ofString "~").isPrefixOf trimmed || (ofString "/").isPrefixOf trimmed || hasDrive trimmed

/-- `/[*?[\]]/` -/
def hasGlobToken (value : Utf16) : Bool := value.any fun c => c ∈ ofString "*?[]"

/-- `/[A-Za-z0-9_@*?!$#-]|\{|\(|\[/`, behind a `$`. -/
def isExpanded (next : CodeUnit) : Bool :=
  Backtracking.isWord next || next ∈ ofString "@*?!$#-\x7b(["

def hasShellExpansionToken : Utf16 → Bool
  | [] => false
  | c :: rest => (c = unit '$' && rest.head?.any isExpanded) || hasShellExpansionToken rest

def isSafeLiteralToken (value : Utf16) : Bool :=
  if value = [] ∨ value = [DASH] then true
  else !hasGlobToken value && !hasShellExpansionToken value && !isPathLikeToken value

def isInvalidValueToken : Option Utf16 → Bool
  | none => true
  | some value => value = [] || !isSafeLiteralToken value

/-- What of a profile the options are read by. -/
structure Flags where
  allowedValueFlags : List Utf16
  allowedBooleanFlags : List Utf16
  deniedFlags : List Utf16
  knownLongFlagsSet : List Utf16
  longFlagPrefixMap : LongFlagPrefixMap

def SafeBinProfile.flags (profile : SafeBinProfile) : Flags :=
  let allowedValueFlags := profile.allowedValueFlags.getD []
  let allowedBooleanFlags := profile.allowedBooleanFlags.getD []
  let deniedFlags := profile.deniedFlags.getD []
  let knownLongFlags := profile.knownLongFlags.getD
    (collectKnownLongFlags allowedValueFlags deniedFlags allowedBooleanFlags)
  { allowedValueFlags, allowedBooleanFlags, deniedFlags
    knownLongFlagsSet := profile.knownLongFlagsSet.getD knownLongFlags.eraseDups
    longFlagPrefixMap := profile.longFlagPrefixMap.getD (buildLongFlagPrefixMap knownLongFlags) }

/-- How far an option goes. -/
inductive Consumed where
  | token
  | tokenAndValue
deriving DecidableEq

section Options

variable (flags : Flags)

def resolveCanonicalLongFlag (flag : Utf16) : Option Utf16 :=
  if !isLong flag || flag.length ≤ 2 then none
  else if flag ∈ flags.knownLongFlagsSet then some flag
  else (flags.longFlagPrefixMap.get? flag).join

/-- What a long option consumes, with the argument that comes next. -/
def consumeLongOptionToken (next : Option Utf16) (flag : Utf16) (inlineValue : Option Utf16) :
    Option Consumed :=
  match resolveCanonicalLongFlag flags flag with
  | none => none
  | some canonicalFlag =>
    if canonicalFlag ∈ flags.deniedFlags then none
    else
      let expectsValue := canonicalFlag ∈ flags.allowedValueFlags
      match inlineValue with
      | some value =>
        if ¬expectsValue then none
        else if isSafeLiteralToken value then some .token else none
      | none =>
        if ¬expectsValue then some .token
        else if isInvalidValueToken next then none else some .tokenAndValue

/-- The flags of a cluster, each with what follows it in the cluster. -/
def consumeShortFlags (next : Option Utf16) (cluster : Utf16) : ℕ → List Utf16 → Option Consumed
  | _, [] => some .token
  | j, flag :: rest =>
    if flag ∈ flags.deniedFlags then none
    else if flag ∈ flags.allowedValueFlags then
      let inlineValue := cluster.drop (j + 1)
      if inlineValue ≠ [] then if isSafeLiteralToken inlineValue then some .token else none
      else if isInvalidValueToken next then none else some .tokenAndValue
    else if flag ∈ flags.allowedBooleanFlags then consumeShortFlags next cluster (j + 1) rest
    else none

def consumeShortOptionClusterToken (next : Option Utf16) (cluster : Utf16)
    (clusterFlags : List Utf16) : Option Consumed :=
  consumeShortFlags flags next cluster 0 clusterFlags

/-- The tokens behind `--`. -/
def collectRest : List Utf16 → Option (List Utf16)
  | [] => some []
  | rest :: args =>
    if rest = [] ∨ rest = [DASH] then collectRest args
    else if isSafeLiteralToken rest then (collectRest args).map (rest :: ·)
    else none

/-- The positional tokens, nothing where an argument is refused. -/
def collectFrom : List Utf16 → Option (List Utf16)
  | [] => some []
  | rawToken :: args =>
    match parseExecArgvToken rawToken with
    | .empty => collectFrom args
    | .stdin => collectFrom args
    | .terminator => collectRest args
    | .positional raw =>
      if isSafeLiteralToken raw then (collectFrom args).map (raw :: ·) else none
    | .long flag inlineValue =>
      match consumeLongOptionToken flags args.head? flag inlineValue, args with
      | none, _ => none
      | some .token, args => collectFrom args
      | some .tokenAndValue, [] => some []
      | some .tokenAndValue, _ :: args => collectFrom args
    | .shortCluster cluster clusterFlags =>
      match consumeShortOptionClusterToken flags args.head? cluster clusterFlags, args with
      | none, _ => none
      | some .token, args => collectFrom args
      | some .tokenAndValue, [] => some []
      | some .tokenAndValue, _ :: args => collectFrom args

end Options

def collectPositionalTokens (args : List Utf16) (profile : SafeBinProfile) : Option (List Utf16) :=
  collectFrom profile.flags args

def validatePositionalCount (positional : List Utf16) (profile : SafeBinProfile) : Bool :=
  if positional.length < profile.minPositional.getD 0 then false
  else profile.maxPositional.all fun max => positional.length ≤ max

section Semantics

-- the case tables of the language
variable (toLowerCase : Utf16 → Utf16)

/-- `replace(/\.(?:exe|cmd|bat|com)$/i, "")` -/
def stripExtension (name : Utf16) : Utf16 :=
  let ending := name.drop (name.length - 4)
  if [".exe", ".cmd", ".bat", ".com"].any fun extension =>
    ending.length = 4 && (List.zipWith Windows.sameLetter (ofString extension) ending).all id
  then name.take (name.length - 4) else name

def normalizeSafeBinName (raw : Utf16) : Utf16 :=
  let trimmed := if trim raw = [] then [] else toLowerCase (trim raw)
  if trimmed = [] then []
  else
    stripExtension (((replaceUnit (unit '\\') (unit '/') trimmed).splitOn (unit '/')).getLast?.getD
      trimmed)

/-- The executables whose rule refuses every call. -/
def ALWAYS_DENY_SAFE_BIN_SEMANTICS : List Utf16 :=
  ["jq", "awk", "gawk", "mawk", "nawk", "sed", "gsed"].map ofString

def validateSafeBinSemantics (binName : Option Utf16) : Bool :=
  !binName.any fun name => normalizeSafeBinName toLowerCase name ∈ ALWAYS_DENY_SAFE_BIN_SEMANTICS

def validateSafeBinArgv (args : List Utf16) (profile : SafeBinProfile) (binName : Option Utf16) :
    Bool :=
  match collectPositionalTokens args profile with
  | none => false
  | some positional =>
    if !validatePositionalCount positional profile then false
    else validateSafeBinSemantics toLowerCase binName

end Semantics

end Flashclaw.Exec.SafeBin
