import Flashclaw.Lib.Decimal

/-!
# Segments of `oc://` paths

The bracket- and quote-aware scanner of `oc-path.ts` and the readings of a
sub-segment: quoted, positional, an index of an array.
-/

open Utf16

/-- Parsed `oc://` path; a component implies those before it. -/
structure OcPath where
  file : Utf16
  sectionSlot : Option Utf16 := none
  item : Option Utf16 := none
  field : Option Utf16 := none
  session : Option Utf16 := none
deriving DecidableEq

namespace OcPath

inductive OcPathErrorCode where
  | absoluteFile
  | parentTraversal
  | controlChar
  | reservedChar
  | fileRequired
  | nesting
  | emptySubSegment
  | tooLong
  | unbalanced
  | unquotable
  | wildcardInResolve
  | depthExceeded
deriving DecidableEq, Repr

/-- What the functions of this family throw. -/
structure OcPathError where
  message : Utf16
  input : Utf16
  code : OcPathErrorCode
deriving DecidableEq

def REDACTED_SENTINEL : Utf16 := ofString "__OPENCLAW_REDACTED__"

/-- Thrown where the sentinel would be written. -/
structure OcEmitSentinelError where
  path : Utf16

def OcEmitSentinelError.message (e : OcEmitSentinelError) : Utf16 :=
  ofString "emit refused to write \"" ++ REDACTED_SENTINEL ++ ofString "\" sentinel literal at " ++
    e.path

/-- What the functions that write may throw. -/
inductive Thrown where
  | path (e : OcPathError)
  | sentinel (e : OcEmitSentinelError)

/-- The variables of `scanBracketAware`. -/
structure Scan where
  depthBracket : ℕ
  depthBrace : ℕ
  inQuote : Bool
deriving DecidableEq

namespace Scan

def start : Scan := ⟨0, 0, false⟩

/-- Outside of brackets, braces and quotes. -/
def atTop (s : Scan) : Bool := s.depthBracket = 0 && s.depthBrace = 0

/-- The state behind a unit and whether the unit is a top-level one; `none` is `onUnbalanced`. -/
def next (s : Scan) (c : CodeUnit) : Option (Scan × Bool) :=
  if s.inQuote then some ({ s with inQuote := c ≠ unit '"' }, false)
  else if c = unit '"' then some ({ s with inQuote := true }, false)
  else if c = unit '[' then some ({ s with depthBracket := s.depthBracket + 1 }, false)
  else if c = unit ']' then
    if s.depthBracket = 0 then none
    else
      let s := { s with depthBracket := s.depthBracket - 1 }
      some (s, s.atTop)
  else if c = unit '\x7b' then some ({ s with depthBrace := s.depthBrace + 1 }, false)
  else if c = unit '\x7d' then
    if s.depthBrace = 0 then none
    else
      let s := { s with depthBrace := s.depthBrace - 1 }
      some (s, s.atTop)
  else some (s, s.atTop)

/-- Where a text may end. -/
def balanced (s : Scan) : Bool := s.atTop && !s.inQuote

end Scan

/-- The loop of `splitRespectingBrackets`; `none` where it is unbalanced. -/
def splitFrom (delim : CodeUnit) (s : Scan) (buf : Utf16) : Utf16 → Option (List Utf16)
  | [] => if s.balanced then some [buf] else none
  | c :: rest =>
    match s.next c with
    | none => none
    | some (s, atTop) =>
      if atTop ∧ c = delim then (splitFrom delim s [] rest).map (buf :: ·)
      else splitFrom delim s (buf ++ [c]) rest

def splitRespectingBrackets (s : Utf16) (delim : CodeUnit) (originalInput : Option Utf16 := none) :
    Except OcPathError (List Utf16) :=
  match splitFrom delim .start [] s with
  | some out => .ok out
  | none =>
    let ctx := originalInput.getD s
    .error ⟨ofString "Unbalanced bracket/brace in oc:// path: " ++ ctx, ctx, .unbalanced⟩

/-- True iff `seg` is `"..."`. -/
def isQuotedSeg (seg : Utf16) : Bool :=
  2 ≤ seg.length && seg.head? = some (unit '"') && seg.getLast? = some (unit '"')

/-- Strip surrounding quotes. -/
def unquoteSeg (seg : Utf16) : Utf16 :=
  if isQuotedSeg seg then seg.tail.dropLast else seg

def POS_FIRST : Utf16 := ofString "$first"

def POS_LAST : Utf16 := ofString "$last"

def isPositionalSeg (seg : Utf16) : Bool := seg = POS_FIRST || seg = POS_LAST

/-- `String` of a whole number. -/
def natText (n : ℕ) : Utf16 :=
  if n = 0 then [unit '0'] else Digits.toText (Digits.ofNat n)

/-- The number that `\d+` spells; as long as it is below `2^53` it is `Number` of the text. -/
def decimal? (s : Utf16) : Option ℕ :=
  match Digits.span s with
  | (d :: ds, []) => some (Digits.value (d :: ds))
  | _ => none

/-- One more than `Number.MAX_SAFE_INTEGER`. -/
def UNSAFE : ℕ := 2 ^ 53

/-- `0` or digits that do not start with it, of a safe index below the length. -/
def parseArrayIndexSegment (seg : Utf16) (length : ℕ) : Option ℕ :=
  match Digits.span seg with
  | (d :: ds, []) =>
    let index := Digits.value (d :: ds)
    if (ds = [] ∨ d ≠ 0) ∧ index < UNSAFE ∧ index < length then some index else none
  | _ => none

structure PositionalContainer where
  indexable : Bool
  size : ℕ
  keys : List Utf16 := []

/-- `null` where the container is empty. -/
def resolvePositionalSeg (seg : Utf16) (container : PositionalContainer) : Option Utf16 :=
  if container.size = 0 then none
  else if seg = POS_FIRST then
    if container.indexable then some (natText 0) else container.keys.head?
  else if seg = POS_LAST then
    if container.indexable then some (natText (container.size - 1)) else container.keys.getLast?
  else none

end OcPath
