import Flashclaw.Lib.Results
import Flashclaw.Reef.Canonical

/-!
# Reef: audit chains

`protocol/audit.ts`.  SHA-256 and AES-GCM are parameters.  A payload is the
value a clone of it has: `output[field] = …` with the field `__proto__` sets a
prototype, which is no property of the value and which no clone keeps.
-/

namespace Flashclaw.Reef

open Utf16 Json Results

/-- The primitives of the audit log. -/
structure AuditCrypto where
  sha256 : Bytes → Bytes
  /-- `gcm(key, nonce).encrypt(plaintext)`. -/
  encrypt : Bytes → Bytes → Bytes → Bytes
  /-- `gcm(key, nonce).decrypt(ciphertext)`, which throws on a wrong tag. -/
  decrypt : Bytes → Bytes → Bytes → Except JsError Bytes

structure AuditEvent where
  seq : ℕ
  ts : Number
  type : Utf16
  payload : JsValue

structure AuditEntry where
  event : AuditEvent
  prevHash : Utf16
  entryHash : Utf16

structure AuditHead where
  hash : Utf16
  seq : ℕ

def AuditEvent.value (event : AuditEvent) : JsValue :=
  .object [(ofString "seq", .number (.ofRat event.seq)), (ofString "ts", .number event.ts),
    (ofString "type", .string event.type), (ofString "payload", event.payload)]

theorem uniqueKeys_value {event : AuditEvent} (h : UniqueKeys event.payload) :
    UniqueKeys event.value := by
  have hnames : [ofString "seq", ofString "ts", ofString "type", ofString "payload"].Nodup := by
    decide
  exact ⟨hnames, trivial, trivial, trivial, h, trivial⟩

variable (crypto : AuditCrypto)

/-- The value of a lower-case hexadecimal digit. -/
def hexDigitValue (c : CodeUnit) : Option ℕ :=
  if 0x30 ≤ c.val ∧ c.val < 0x3A then some (c.val - 0x30)
  else if 0x61 ≤ c.val ∧ c.val < 0x67 then some (c.val - 0x61 + 10)
  else none

/-- `value.match(/../g)` and `Number.parseInt` of each. -/
def hexBytes : Utf16 → Bytes
  | a :: b :: value =>
    Utf8.byte ((hexDigitValue a).getD 0 * 0x10 + (hexDigitValue b).getD 0) :: hexBytes value
  | _ => []

def fromHex (value : Utf16) : Except JsError Bytes :=
  if value.length = 64 ∧ value.all (fun c => (hexDigitValue c).isSome) then .ok (hexBytes value)
  else .error ⟨"Error", "invalid audit hash"⟩

def previousBytes (previous : Utf16) : Except JsError Bytes :=
  if previous = [] then .ok [] else fromHex previous

/-- The bytes that `hashEntry` hashes. -/
def hashInput (previous : Utf16) (event : AuditEvent) : Except JsError Bytes := do
  let before ← previousBytes previous
  let eventBytes ← canonicalBytes event.value
  return before ++ eventBytes

def hashEntry (previous : Utf16) (event : AuditEvent) : Except JsError Utf16 :=
  (hashInput previous event).map fun bytes => hex (crypto.sha256 bytes)

/-- The loop of `verifyChainSegment`, from the entry after `previous` on. -/
def verifyChainSegment (previous : Utf16) (previousSeq : ℕ) (head : Option Utf16) :
    List AuditEntry → Except JsError Bool
  | [] => .ok (head = none ∨ head = some previous)
  | entry :: entries =>
    if entry.event.seq ≠ previousSeq + 1 ∨ entry.prevHash ≠ previous then .ok false
    else do
      let hash ← hashEntry crypto previous entry.event
      if entry.entryHash ≠ hash then .ok false
      else verifyChainSegment entry.entryHash (previousSeq + 1) head entries

def verifyChain (entries : List AuditEntry) (head : Option Utf16) (length : Option ℕ) :
    Except JsError Bool :=
  if length ≠ none ∧ length ≠ some entries.length then .ok false
  else verifyChainSegment crypto [] 0 head entries

def validateAuditKey (key : Bytes) : Except JsError Unit :=
  if key.length = 32 then .ok () else .error ⟨"Error", "audit key must be 32 bytes"⟩

/-- The fields whose text is encrypted. -/
def isSensitive (name : Utf16) : Bool := name = ofString "text" || name = ofString "reason"

/-- `output[field] = value` on a new object whose fields are all distinct. -/
def assignField (name : Utf16) (value : JsValue) (output : List (Utf16 × JsValue)) :
    List (Utf16 × JsValue) :=
  if name = ofString "__proto__" then output else (name, value) :: output

/-- `{ enc: base64(concatBytes(nonce, ciphertext)) }` with the next nonce that is drawn. -/
def encryptText (key : Bytes) (rng : ℕ → Bytes) (draws : ℕ) (text : Utf16) :
    Except JsError (JsValue × ℕ) :=
  let nonce := rng draws
  if nonce.length ≠ 12 then .error ⟨"Error", "invalid audit nonce"⟩
  else .ok (.object [(ofString "enc",
    .string (base64 (nonce ++ crypto.encrypt key nonce (utf8 text))))], draws + 1)

mutual

/-- The value encrypted and the number of nonces drawn until then. -/
def encryptSensitive (key : Bytes) (rng : ℕ → Bytes) (draws : ℕ) :
    JsValue → Except JsError (JsValue × ℕ)
  | .array elements => do
    let (output, draws) ← encryptElements key rng draws elements
    return (.array output, draws)
  | .object fields => do
    let (output, draws) ← encryptFields key rng draws fields
    return (.object output, draws)
  | value => .ok (value, draws)

def encryptElements (key : Bytes) (rng : ℕ → Bytes) (draws : ℕ) :
    List JsValue → Except JsError (List JsValue × ℕ)
  | [] => .ok ([], draws)
  | child :: elements => do
    let (first, draws) ← encryptSensitive key rng draws child
    let (output, draws) ← encryptElements key rng draws elements
    return (first :: output, draws)

def encryptFields (key : Bytes) (rng : ℕ → Bytes) (draws : ℕ) :
    List (Utf16 × JsValue) → Except JsError (List (Utf16 × JsValue) × ℕ)
  | [] => .ok ([], draws)
  | (name, .string text) :: fields => do
    let (first, draws) ←
      if isSensitive name then encryptText crypto key rng draws text
      else .ok (.string text, draws)
    let (output, draws) ← encryptFields key rng draws fields
    return (assignField name first output, draws)
  | (name, child) :: fields => do
    let (first, draws) ← encryptSensitive key rng draws child
    let (output, draws) ← encryptFields key rng draws fields
    return (assignField name first output, draws)

end

/-- The text of a record `{ enc }`, if it is one. -/
def encText : List (Utf16 × JsValue) → Option Utf16
  | [(name, .string text)] => if name = ofString "enc" then some text else none
  | _ => none

def decryptText (key : Bytes) (text : Utf16) : Except JsError JsValue := do
  let combined ← fromBase64 text
  if combined.length < 28 then .error ⟨"Error", "invalid encrypted audit field"⟩
  else do
    let plaintext ← crypto.decrypt key (combined.take 12) (combined.drop 12)
    let text ← decodeUtf8 plaintext
    return .string text

mutual

/-- The value decrypted; `sensitive` if it is that of a sensitive field. -/
def decryptSensitive (key : Bytes) (sensitive : Bool) : JsValue → Except JsError JsValue
  | .array elements => (decryptElements key elements).map .array
  | .object fields =>
    match if sensitive then encText fields else none with
    | some text => decryptText crypto key text
    | none => (decryptFields key fields).map .object
  | value => .ok value

def decryptElements (key : Bytes) : List JsValue → Except JsError (List JsValue)
  | [] => .ok []
  | child :: elements => do
    let first ← decryptSensitive key false child
    let output ← decryptElements key elements
    return first :: output

def decryptFields (key : Bytes) :
    List (Utf16 × JsValue) → Except JsError (List (Utf16 × JsValue))
  | [] => .ok []
  | (name, child) :: fields => do
    let first ← decryptSensitive key (isSensitive name) child
    let output ← decryptFields key fields
    return (name, first) :: output

end

/-- `Number.isSafeInteger(ts) && ts >= 0`. -/
def isTimestamp : Number → Bool
  | .negZero => true
  | .finite d => d.value.isInt && decide (0 ≤ d.value) && decide (d.value < 2 ^ 53)
  | _ => false

def createAuditEntry (type : Utf16) (payload : JsValue) (ts : Number) (auditKey : Bytes)
    (head : AuditHead) (rng : ℕ → Bytes) : Except JsError AuditEntry :=
  if type = [] ∨ ¬ isTimestamp ts then .error ⟨"Error", "invalid audit event"⟩
  else do
    let _ ← validateAuditKey auditKey
    let (payload, _) ← encryptSensitive crypto auditKey rng 0 payload
    let event : AuditEvent := ⟨head.seq + 1, ts, type, payload⟩
    let entryHash ← hashEntry crypto head.hash event
    return ⟨event, head.hash, entryHash⟩

def decryptAuditText (entry : AuditEntry) (auditKey : Bytes) : Except JsError AuditEntry := do
  let _ ← validateAuditKey auditKey
  let payload ← decryptSensitive crypto auditKey false entry.event.payload
  return { entry with event := { entry.event with payload } }

end Flashclaw.Reef
