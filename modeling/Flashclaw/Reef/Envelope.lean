import Flashclaw.Reef.Audit
import Flashclaw.Reef.Identity

/-!
# Reef: envelopes

`protocol/envelope.ts`.  The primitives of the cipher suite are parameters, and
so is the replay store, by what its operations do with a state.
-/

namespace Flashclaw.Reef

open Utf16 Json

inductive ProtocolErrorCode where
  | badSignature
  | notPinned
  | wrongRecipient
  | expired
  | replayed
  | tooLarge
  | malformed
deriving DecidableEq

def ProtocolErrorCode.text : ProtocolErrorCode → String
  | badSignature => "bad_signature"
  | notPinned => "not_pinned"
  | wrongRecipient => "wrong_recipient"
  | expired => "expired"
  | replayed => "replayed"
  | tooLarge => "too_large"
  | malformed => "malformed"

inductive Decision where
  | allow
  | deny
  | review
deriving DecidableEq

structure Verdict where
  decision : Decision
  category : Utf16
  reason : Utf16
  model : Utf16
  policyVersion : Utf16

inductive ReceiptStatus where
  | accepted
  | rejected
deriving DecidableEq

structure SignedReceipt where
  id : Utf16
  bodyHash : Utf16
  auditHead : Utf16
  status : ReceiptStatus
  category : Option Utf16
  signature : Utf16

inductive Stage where
  | deterministic
  | guard
  | review
deriving DecidableEq

inductive ReviewOutcome where
  | pending
  | denied
deriving DecidableEq

/-- What the functions of the protocol throw. -/
inductive Thrown where
  | error (e : JsError)
  | protocol (code : ProtocolErrorCode) (message : String)
  | pipeline (stage : Stage) (message : String) (verdict : Option Verdict)
    (receipt : Option SignedReceipt) (reviewOutcome : Option ReviewOutcome)
    (approvalDigest : Option Utf16)

/-- A protocol error whose message is its code. -/
def Thrown.ofCode (code : ProtocolErrorCode) : Thrown := .protocol code code.text

def Thrown.malformed (message : String) : Thrown := .protocol .malformed message

/-- An error of a function outside the protocol. -/
def lift {α : Type} (result : Except JsError α) : Except Thrown α := result.mapError .error

structure EnvelopeCrypto extends AuditCrypto where
  /-- `x25519.keygen(seed)`: the secret and the public key. -/
  keygen : Bytes → Except JsError (Bytes × Bytes)
  getSharedSecret : Bytes → Bytes → Except JsError Bytes
  /-- `hkdf(sha256, shared, undefined, info, length)`. -/
  hkdf : Bytes → Bytes → ℕ → Bytes
  /-- `ed25519.keygen(seed)`: the secret and the public key. -/
  signingKeygen : Bytes → Except JsError (Bytes × Bytes)
  /-- `ed25519.sign(message, secretKey)`. -/
  sign : Bytes → Bytes → Except JsError Bytes
  /-- `ed25519.verify(signature, message, publicKey)`. -/
  verify : Bytes → Bytes → Bytes → Except JsError Bool

def decodeKey (value : Utf16) : Except Thrown Bytes := do
  let key ← lift (fromBase64url value)
  if key.length ≠ 32 then .error (.malformed "invalid key length") else .ok key

def maxPlaintextBytes : ℕ := 32 * 1024

def maxCiphertextBase64 : ℕ := 44752

def maxEnvelopeBytes : ℕ := 48 * 1024

def hkdfInfo : Bytes := utf8 (ofString "reef-v1")

def validateEnvelopeMetadata (id source destination : Utf16) (ts : Number) : Except Thrown Unit :=
  if ¬ (isUlid id ∧ isTimestamp ts) then .error (.malformed "invalid envelope metadata")
  else
    match parseHandleEpoch source, parseHandleEpoch destination with
    | .ok _, .ok _ => .ok ()
    | _, _ => .error (.malformed "invalid envelope peer")

/-- `isExactObject`, for the fields of an object. -/
def isExactObject (fields : List (Utf16 × JsValue)) (keys : List Utf16) : Bool :=
  (fields.map Prod.fst).all (· ∈ keys) &&
    keys.all fun key => key ∈ fields.map Prod.fst || key ∈ [ofString "replyTo", ofString "thread"]

/-- A field that is a string or undefined. -/
def asOptionalString : JsValue → Option (Option Utf16)
  | .undefined => some none
  | .string s => some (some s)
  | _ => none

def asString : JsValue → Option Utf16
  | .string s => some s
  | _ => none

def asNumber : JsValue → Option Number
  | .number n => some n
  | _ => none

structure MessageBody where
  text : Utf16
  replyTo : Option Utf16
  thread : Option Utf16

def bodyKeys : List Utf16 := [ofString "text", ofString "replyTo", ofString "thread"]

/-- The fields of a body, where they have their types. -/
def readBody (fields : List (Utf16 × JsValue)) : Option MessageBody := do
  let text ← asString (field fields (ofString "text"))
  let replyTo ← asOptionalString (field fields (ofString "replyTo"))
  let thread ← asOptionalString (field fields (ofString "thread"))
  return ⟨text, replyTo, thread⟩

/-- `decodeUtf8(utf8(field)) === field`, as an error where the bytes do not decode. -/
def checkUtf8 (text : Utf16) : Except Thrown Unit := do
  let decoded ← lift (decodeUtf8 (utf8 text))
  if decoded ≠ text then .error (.malformed "invalid UTF-8 body") else .ok ()

/-- The body that a value is. -/
def validateMessageBody (value : JsValue) : Except Thrown MessageBody :=
  match value with
  | .object fields =>
    if ¬ isExactObject fields bodyKeys then .error (.malformed "invalid body")
    else
      match readBody fields with
      | none => .error (.malformed "invalid body")
      | some body =>
        if ¬ (body.replyTo.all isUlid ∧ body.thread.all isUlid) then
          .error (.malformed "invalid body identifier")
        else do
          let _ ← checkUtf8 body.text
          let _ ← (body.replyTo.elim (.ok ()) checkUtf8 : Except Thrown Unit)
          let _ ← (body.thread.elim (.ok ()) checkUtf8 : Except Thrown Unit)
          return body
  | _ => .error (.malformed "invalid body")

structure UnsignedEnvelope where
  v : Number
  id : Utf16
  source : Utf16
  destination : Utf16
  ts : Number
  epk : Utf16
  n : Utf16
  ct : Utf16

structure Envelope extends UnsignedEnvelope where
  sig : Utf16

def UnsignedEnvelope.fields (e : UnsignedEnvelope) : List (Utf16 × JsValue) :=
  [(ofString "v", .number e.v), (ofString "id", .string e.id), (ofString "from", .string e.source),
    (ofString "to", .string e.destination), (ofString "ts", .number e.ts), (ofString "epk", .string e.epk),
    (ofString "n", .string e.n), (ofString "ct", .string e.ct)]

def UnsignedEnvelope.value (e : UnsignedEnvelope) : JsValue := .object e.fields

def Envelope.value (e : Envelope) : JsValue :=
  .object (e.fields ++ [(ofString "sig", .string e.sig)])

def envelopeKeys : List Utf16 :=
  [ofString "v", ofString "id", ofString "from", ofString "to", ofString "ts", ofString "epk",
    ofString "n", ofString "ct", ofString "sig"]

/-- The fields of an envelope, where they have their types. -/
def readEnvelope (fields : List (Utf16 × JsValue)) : Option Envelope := do
  let v ← asNumber (field fields (ofString "v"))
  let id ← asString (field fields (ofString "id"))
  let source ← asString (field fields (ofString "from"))
  let destination ← asString (field fields (ofString "to"))
  let ts ← asNumber (field fields (ofString "ts"))
  let epk ← asString (field fields (ofString "epk"))
  let n ← asString (field fields (ofString "n"))
  let ct ← asString (field fields (ofString "ct"))
  let sig ← asString (field fields (ofString "sig"))
  return { v, id, source, destination, ts, epk, n, ct, sig }

/-- The texts of an envelope decode to bytes of their lengths. -/
def decodesTexts (e : Envelope) : Bool :=
  ((fromBase64 e.epk).toOption.any (·.length = 32)) &&
    ((fromBase64 e.n).toOption.any (·.length = 12)) &&
    ((fromBase64 e.sig).toOption.any (·.length = 64)) && (fromBase64 e.ct).toOption.isSome

/-- The checks on an envelope whose fields have their types. -/
def validateSizes (e : Envelope) : Except Thrown Envelope :=
  if ¬ isSafeInteger e.ts then .error (.ofCode .malformed)
  else if e.id.length ≠ 26 then .error (.malformed "invalid envelope id length")
  else if 80 < e.source.length ∨ 80 < e.destination.length ∨ 46 < e.epk.length ∨ 18 < e.n.length ∨
      90 < e.sig.length ∨ maxCiphertextBase64 < e.ct.length then .error (.ofCode .tooLarge)
  else if ¬ decodesTexts e then .error (.ofCode .malformed)
  else do
    let bytes ← lift (canonicalBytes e.value)
    if maxEnvelopeBytes < bytes.length then .error (.ofCode .tooLarge) else .ok e

def validateEnvelope (value : JsValue) : Except Thrown Envelope :=
  match value with
  | .object fields =>
    if ¬ isExactObject fields envelopeKeys then .error (.ofCode .malformed)
    else
      match readEnvelope fields with
      | none => .error (.ofCode .malformed)
      | some e => validateSizes e
  | _ => .error (.ofCode .malformed)

structure SealOptions where
  id : Utf16
  source : Utf16
  destination : Utf16
  body : JsValue
  senderSigningSecretKey : Utf16
  recipientEncryptionPublicKey : Utf16
  ts : Number
  /-- What draw after draw returns for a length. -/
  rng : ℕ → ℕ → Bytes

variable (crypto : EnvelopeCrypto)

/-- `seal`. -/
def sealEnvelope (options : SealOptions) : Except Thrown Envelope := do
  let _ ← validateEnvelopeMetadata options.id options.source options.destination options.ts
  let _ ← validateMessageBody options.body
  let plaintext ← lift (canonicalBytes options.body)
  if maxPlaintextBytes < plaintext.length then .error (.ofCode .tooLarge)
  else do
    let (secretKey, publicKey) ← lift (crypto.keygen (options.rng 0 32))
    let recipient ← decodeKey options.recipientEncryptionPublicKey
    let shared ← lift (crypto.getSharedSecret secretKey recipient)
    let key := crypto.hkdf shared hkdfInfo 32
    let nonce := options.rng 1 12
    if nonce.length ≠ 12 then .error (.malformed "rng returned invalid nonce")
    else do
      let unsigned : UnsignedEnvelope :=
        { v := .ofRat 1, id := options.id, source := options.source,
          destination := options.destination, ts := options.ts, epk := base64 publicKey,
          n := base64 nonce, ct := base64 (crypto.encrypt key nonce plaintext) }
      let message ← lift (canonicalBytes unsigned.value)
      let signing ← decodeKey options.senderSigningSecretKey
      let signature ← lift (crypto.sign message signing)
      return { unsigned with sig := base64 signature }

inductive ReplayClaim where
  | new
  | duplicate
  | mismatch
  | inFlight
deriving DecidableEq

structure CompletedReplay where
  receipt : SignedReceipt
  body : Option JsValue

/-- A computation over the state of the stores it calls. -/
abbrev Run (σ α : Type) := ExceptT Thrown (StateM σ) α

structure ReplayStore (σ : Type) where
  claim : Utf16 → Utf16 → Utf16 → Run σ ReplayClaim
  refresh : Utf16 → Utf16 → Run σ Unit
  complete : Utf16 → Utf16 → SignedReceipt → Option JsValue → Run σ Unit
  consume : Utf16 → Utf16 → Run σ Unit
  release : Utf16 → Utf16 → Run σ Unit
  completed : Utf16 → Utf16 → Run σ (Option CompletedReplay)

structure OpenOptions where
  envelope : JsValue
  self : Utf16
  recipientEncryptionSecretKey : Utf16
  senderSigningPublicKey : Option Utf16
  /-- Whole seconds, as `maxAgeSeconds` and `maxFutureSkewSeconds` are. -/
  now : ℤ
  maxAgeSeconds : ℤ
  maxFutureSkewSeconds : ℤ

inductive ClaimedOpenResult where
  | new (body : JsValue) (envelopeHash : Utf16)
  | duplicate (receipt : Option SignedReceipt) (body : Option JsValue)

/-- The seconds that a timestamp stands for. -/
def seconds : Number → ℚ
  | .finite d => d.value
  | _ => 0

def isExpired (options : OpenOptions) (ts : Number) : Bool :=
  decide ((options.now + options.maxFutureSkewSeconds : ℤ) < seconds ts) ||
    decide (seconds ts < (options.now - options.maxAgeSeconds : ℤ))

/-- The signature is that of the sender; an error of a primitive counts as a wrong signature. -/
def validSignature (envelope : Envelope) (senderSigningPublicKey : Utf16) : Bool :=
  let result : Except Thrown Bool := do
    let sig ← lift (fromBase64 envelope.sig)
    let message ← lift (canonicalBytes envelope.toUnsignedEnvelope.value)
    let key ← decodeKey senderSigningPublicKey
    lift (crypto.verify sig message key)
  result.toOption.getD false

def envelopeHash (envelope : Envelope) : Except Thrown Utf16 := do
  let bytes ← lift (canonicalBytes envelope.value)
  return hex (crypto.sha256 bytes)

/-- What `openClaimed` does with the envelope of a new claim. -/
def openNew (options : OpenOptions) (envelope : Envelope) : Except Thrown JsValue :=
  if isExpired options envelope.ts then .error (.ofCode .expired)
  else do
    let secretKey ← decodeKey options.recipientEncryptionSecretKey
    let epk ← lift (fromBase64 envelope.epk)
    let shared ← lift (crypto.getSharedSecret secretKey epk)
    let key := crypto.hkdf shared hkdfInfo 32
    let nonce ← lift (fromBase64 envelope.n)
    let ciphertext ← lift (fromBase64 envelope.ct)
    let plaintext ← lift (crypto.decrypt key nonce ciphertext)
    if maxPlaintextBytes < plaintext.length then .error (.ofCode .tooLarge)
    else do
      let text ← lift (decodeUtf8 plaintext)
      let body ← (Json.parse text).elim (.error (.error ⟨"SyntaxError", "Invalid JSON"⟩)) .ok
      let _ ← validateMessageBody body
      return body

/-- The envelope that `openClaimed` claims, the peer it is from and its hash. -/
def checkEnvelope (options : OpenOptions) : Except Thrown (Envelope × Utf16 × Utf16) := do
  let envelope ← validateEnvelope options.envelope
  let publicKey ← options.senderSigningPublicKey.elim (.error (.ofCode .notPinned)) .ok
  if publicKey = [] then .error (.ofCode .notPinned)
  else if ¬ validSignature crypto envelope publicKey then .error (.ofCode .badSignature)
  else if envelope.v ≠ .ofRat 1 then .error (.ofCode .malformed)
  else do
    let _ ← validateEnvelopeMetadata envelope.id envelope.source envelope.destination envelope.ts
    if envelope.destination ≠ options.self then .error (.ofCode .wrongRecipient)
    else do
      let peer ← lift (parseHandleEpoch envelope.source)
      let hash ← envelopeHash crypto envelope
      return (envelope, peer.handle, hash)

/-- The error that leaves `openClaimed` for one inside. -/
def openError : Thrown → Thrown
  | .protocol code message => .protocol code message
  | _ => .ofCode .malformed

def openClaimed {σ : Type} (replayStore : ReplayStore σ) (options : OpenOptions) :
    Run σ ClaimedOpenResult := do
  let (envelope, peer, hash) ← liftExcept (checkEnvelope crypto options)
  let claim ← replayStore.claim peer envelope.id hash
  match claim with
  | .mismatch => throw (.protocol .replayed "replay id binding mismatch")
  | .inFlight => throw (.protocol .replayed "in flight")
  | .duplicate =>
    let completed ← replayStore.completed peer envelope.id
    return .duplicate (completed.map (·.receipt)) (completed.bind (·.body))
  | .new =>
    match openNew crypto options envelope with
    | .ok body => return .new body hash
    | .error e =>
      replayStore.release peer envelope.id
      throw (openError e)

end Flashclaw.Reef
