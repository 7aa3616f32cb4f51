import Flashclaw.Lib.Decimal
import Flashclaw.Reef.Encoding

/-!
# Reef: names

`parseHandleEpoch` of `protocol/identity.ts`, and the identifiers that
`protocol/envelope.ts` accepts.
-/

namespace Flashclaw.Reef

open Utf16

/-- `c` is one of the code units from `first` to `last`. -/
def inRange (first last : Char) (c : CodeUnit) : Bool := unit first ≤ c && c ≤ unit last

def isDigit : CodeUnit → Bool := inRange '0' '9'

/-- `[0-9A-HJKMNP-TV-Z]`. -/
def isCrockford (c : CodeUnit) : Bool :=
  isDigit c || inRange 'A' 'H' c || c = unit 'J' || c = unit 'K' || c = unit 'M' || c = unit 'N' ||
    inRange 'P' 'T' c || inRange 'V' 'Z' c

/-- `ULID_PATTERN`. -/
def isUlid (id : Utf16) : Bool :=
  id.length = 26 && (id.take 1).all (inRange '0' '7') && id.all isCrockford

/-- `[a-z0-9]` with the flag `i`. -/
def isHandleStart (c : CodeUnit) : Bool := inRange 'a' 'z' c || inRange 'A' 'Z' c || isDigit c

/-- `[a-z0-9_-]` with the flag `i`. -/
def isHandlePart (c : CodeUnit) : Bool := isHandleStart c || c = unit '_' || c = unit '-'

/-- `[a-z0-9](?:[a-z0-9_-]{0,62})`. -/
def isHandle (handle : Utf16) : Bool :=
  handle ≠ [] && (handle.take 1).all isHandleStart && (handle.drop 1).all isHandlePart &&
    handle.length ≤ 63

/-- `[1-9][0-9]*`. -/
def isEpoch (epoch : Utf16) : Bool :=
  epoch ≠ [] && (epoch.take 1).all (inRange '1' '9') && epoch.all isDigit

/-- `Number.isSafeInteger`. -/
def isSafeInteger : Number → Bool
  | .negZero => true
  | .finite d => d.value.isInt && |d.value| < 2 ^ 53
  | _ => false

/-- `Number` of a text of digits. -/
def digitsNumber (digits : Utf16) : Number :=
  .ofRat (Digits.value (digits.map fun c => c.val - 0x30))

structure HandleEpoch where
  handle : Utf16
  keyEpoch : Number

def parseHandleEpoch (value : Utf16) : Except JsError HandleEpoch :=
  -- no handle has a `#`
  let handle := value.takeWhile (· ≠ unit '#')
  let epoch := (value.dropWhile (· ≠ unit '#')).tail
  if ¬ (isHandle handle ∧ unit '#' ∈ value ∧ isEpoch epoch) then
    .error ⟨"Error", "invalid handle#key_epoch"⟩
  else
    if ¬ isSafeInteger (digitsNumber epoch) then .error ⟨"Error", "invalid key epoch"⟩
    else .ok ⟨handle, digitsNumber epoch⟩

end Flashclaw.Reef
