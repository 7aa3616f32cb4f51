import Flashclaw.Lib.Trace
import Flashclaw.Reef.Guard
import Flashclaw.Reef.Receipts

/-!
# Reef: the pipeline

`protocol/pipeline.ts`.  The guard, the review gate, the audit store and the
replay store are operations on a state of their own, which others may change
between two calls as well: whatever they do is an operation of the state.  A
run logs each call with its result.  The heartbeat that refreshes a claim calls
nothing else and ignores errors.
-/

namespace Flashclaw.Reef

open Utf16 Json

structure ReviewRequest where
  id : Utf16
  source : Utf16
  destination : Utf16
  direction : GuardDirection
  bodyHash : Utf16
  approvalDigest : Utf16
  verdict : Verdict

structure ReviewApproval where
  approved : Bool
  approvalDigest : Utf16

/-- The calls of a run, with their results. -/
inductive Call where
  | classify (request : GuardRequest) (result : Except Thrown JsValue)
  | review (request : ReviewRequest) (result : Except Thrown (Option ReviewApproval))
  | append (type : Utf16) (payload : JsValue) (result : Except Thrown AuditEntry)
  | claim (peer id envelopeHash : Utf16) (result : Except Thrown ReplayClaim)
  | refresh (peer id : Utf16) (result : Except Thrown Unit)
  | complete (peer id : Utf16) (receipt : SignedReceipt) (body : Option JsValue)
    (result : Except Thrown Unit)
  | consume (peer id : Utf16) (result : Except Thrown Unit)
  | release (peer id : Utf16) (result : Except Thrown Unit)
  | completed (peer id : Utf16) (result : Except Thrown (Option CompletedReplay))

/-- A step of the pipeline. -/
abbrev Step (σ α : Type) := Traced Thrown σ Call α

structure PipelineOptions (σ : Type) where
  classify : GuardRequest → Run σ JsValue
  pinnedModel : Utf16
  reviewGate : Option (ReviewRequest → Run σ (Option ReviewApproval))
  appendEvent : Utf16 → JsValue → Run σ AuditEntry
  policyVersion : Utf16

variable {σ : Type}

def PipelineOptions.appendAudit (options : PipelineOptions σ) (type : String) (payload : JsValue) :
    Step σ AuditEntry :=
  Traced.call (.append (ofString type) payload) (options.appendEvent (ofString type) payload)

/-- `options.reviewGate?.(request)`. -/
def PipelineOptions.askReview (options : PipelineOptions σ) (request : ReviewRequest) :
    Step σ (Option ReviewApproval) :=
  options.reviewGate.elim (pure none) fun gate => Traced.call (.review request) (gate request)

/-- The replay store with its calls logged. -/
def ReplayStore.logged (store : ReplayStore σ) : ReplayStore (World σ Call) where
  claim peer id hash := Traced.call (.claim peer id hash) (store.claim peer id hash)
  refresh peer id := Traced.call (.refresh peer id) (store.refresh peer id)
  complete peer id receipt body :=
    Traced.call (.complete peer id receipt body) (store.complete peer id receipt body)
  consume peer id := Traced.call (.consume peer id) (store.consume peer id)
  release peer id := Traced.call (.release peer id) (store.release peer id)
  completed peer id := Traced.call (.completed peer id) (store.completed peer id)

def record (fields : List (String × JsValue)) : JsValue :=
  .object (fields.map fun f => (ofString f.1, f.2))

def text (s : String) : JsValue := .string (ofString s)

variable (crypto : EnvelopeCrypto)

/-- `hex(sha256(canonicalBytes(value)))`. -/
def hashValue (value : JsValue) : Except Thrown Utf16 := do
  let bytes ← lift (canonicalBytes value)
  return hex (crypto.sha256 bytes)

def bodyHash (body : JsValue) : Except Thrown Utf16 := hashValue crypto body

def computeApprovalDigest (id source destination : Utf16) (direction : GuardDirection)
    (proposalHash policyVersion : Utf16) : Except Thrown Utf16 :=
  hashValue crypto (record [("id", .string id), ("from", .string source),
    ("to", .string destination), ("direction", text direction.text),
    ("bodyHash", .string proposalHash), ("policyVersion", .string policyVersion)])

/-- What is classified: the message, its hash and the digest that approvals carry. -/
structure Proposal where
  direction : GuardDirection
  id : Utf16
  proposalHash : Utf16
  approvalDigest : Utf16
  source : Utf16
  destination : Utf16
  text : Utf16

def Proposal.fields (p : Proposal) : List (String × JsValue) :=
  [("id", .string p.id), ("from", .string p.source), ("to", .string p.destination),
    ("direction", Reef.text p.direction.text), ("bodyHash", .string p.proposalHash),
    ("approvalDigest", .string p.approvalDigest)]

def Verdict.fields (v : Verdict) : List (String × JsValue) :=
  [("decision", text v.decision.text), ("category", .string v.category),
    ("reason", .string v.reason), ("model", .string v.model),
    ("policyVersion", .string v.policyVersion)]

def Proposal.verdictRecord (p : Proposal) (verdict : Verdict) : JsValue :=
  record (p.fields ++ verdict.fields)

def Proposal.afterApprovalRecord (p : Proposal) (verdict : Verdict) : JsValue :=
  record (p.fields ++ ("afterApproval", .boolean true) :: verdict.fields)

def Proposal.approvalRecord (p : Proposal) : JsValue :=
  record (p.fields ++ [("approved", .boolean true)])

def Proposal.request (p : Proposal) (policyVersion : Utf16) : GuardRequest where
  direction := p.direction
  source := p.source
  destination := p.destination
  text := p.text
  policyVersion := policyVersion

def Proposal.reviewRequest (p : Proposal) (verdict : Verdict) : ReviewRequest where
  id := p.id
  source := p.source
  destination := p.destination
  direction := p.direction
  bodyHash := p.proposalHash
  approvalDigest := p.approvalDigest
  verdict := verdict

def findingsValue (findings : List Utf16) : JsValue :=
  .array (findings.map fun code => record [("code", .string code), ("decision", text "deny")])

def denialRecord (id approvalDigest : Utf16) (findings : List Utf16) : JsValue :=
  record [("id", .string id), ("approvalDigest", .string approvalDigest),
    ("decision", text "deny"), ("findings", findingsValue findings)]

def receiptRecord (id approvalDigest : Utf16) (receipt : SignedReceipt) : JsValue :=
  record [("id", .string id), ("approvalDigest", .string approvalDigest),
    ("receipt", receipt.value)]

def guardDenied (direction : GuardDirection) : String :=
  match direction with
  | .outbound => "Reef outbound guard denied the message. Do not retry or rephrase it " ++
    "automatically; ask the owner before sending related content."
  | .inbound => "guard denied message"

/-- A classification and the verdict that is admitted for it. -/
def classifyAdmitted (options : PipelineOptions σ) (p : Proposal) : Step σ Verdict := do
  let request := p.request options.policyVersion
  let raw ← Traced.call (.classify request) (options.classify request)
  return admitVerdict raw options.pinnedModel options.policyVersion

/-- The rest of `classifyWithReview` for a verdict that asks for a review. -/
def reviewVerdict (options : PipelineOptions σ) (p : Proposal) (verdict : Verdict) :
    Step σ Verdict := do
  let approval ← options.askReview (p.reviewRequest verdict)
  match approval with
  | none =>
    throw (.pipeline .review "review approval pending" (some verdict) none (some .pending)
      (some p.approvalDigest))
  | some approval =>
    if approval.approvalDigest ≠ p.approvalDigest then
      throw (.pipeline .review "approval digest mismatch" (some verdict) none (some .pending)
        (some p.approvalDigest))
    else if ¬ approval.approved then
      throw (.pipeline .review "review explicitly denied" (some verdict) none (some .denied)
        (some p.approvalDigest))
    else
      let _ ← options.appendAudit "review_approval" p.approvalRecord
      let verdict ← classifyAdmitted options p
      let _ ← options.appendAudit "guard_verdict" (p.afterApprovalRecord verdict)
      if verdict.decision = .deny then
        throw (.pipeline .guard "guard denied approved message" (some verdict) none none none)
      else return verdict

def classifyWithReview (options : PipelineOptions σ) (p : Proposal) : Step σ Verdict := do
  let verdict ← classifyAdmitted options p
  let _ ← options.appendAudit "guard_verdict" (p.verdictRecord verdict)
  match verdict.decision with
  | .deny => throw (.pipeline .guard (guardDenied p.direction) (some verdict) none none none)
  | .review => reviewVerdict options p verdict
  | .allow => return verdict

structure OutboundResult where
  envelope : Envelope
  verdict : Verdict

def checkKeys (options : SealOptions) : Except Thrown Unit := do
  let signing ← lift (fromBase64url options.senderSigningSecretKey)
  if signing.length ≠ 32 then .error (.error ⟨"Error", "invalid outbound key material"⟩)
  else do
    let encryption ← lift (fromBase64url options.recipientEncryptionPublicKey)
    if encryption.length ≠ 32 then .error (.error ⟨"Error", "invalid outbound key material"⟩)
    else .ok ()

def isUnfit (code : Utf16) : Bool := code = ofString "invalid_utf8" || code = ofString "too_large"

/-- The checks before the audit log hears of a message, and what is proposed. -/
def proposeOutbound (secretFindings : SecretFindings) (policyVersion : Utf16)
    (options : SealOptions) : Except Thrown Proposal := do
  let _ ← validateEnvelopeMetadata options.id options.source options.destination options.ts
  let body ← validateMessageBody options.body
  let _ ← checkKeys options
  if (deterministicChecks secretFindings body.text).findings.any isUnfit then
    .error (.pipeline .deterministic "invalid outbound message" none none none none)
  else do
    let proposalHash ← bodyHash crypto options.body
    let approvalDigest ← computeApprovalDigest crypto options.id options.source
      options.destination .outbound proposalHash policyVersion
    return ⟨.outbound, options.id, proposalHash, approvalDigest, options.source,
      options.destination, body.text⟩

def proposalRecord (p : Proposal) (body : JsValue) : JsValue :=
  record [("id", .string p.id), ("from", .string p.source), ("to", .string p.destination),
    ("bodyHash", .string p.proposalHash), ("approvalDigest", .string p.approvalDigest),
    ("body", body)]

def composeOutbound (secretFindings : SecretFindings) (options : PipelineOptions σ)
    (sealing : SealOptions) : Step σ OutboundResult := do
  let p ← liftExcept (proposeOutbound crypto secretFindings options.policyVersion sealing)
  let checks := deterministicChecks secretFindings p.text
  let _ ← options.appendAudit "proposal" (proposalRecord p sealing.body)
  if ¬ checks.allowed then
    let _ ← options.appendAudit "deterministic_verdict"
      (denialRecord p.id p.approvalDigest checks.findings)
    throw (.pipeline .deterministic "deterministic checks denied message" none none none none)
  else
    let verdict ← classifyWithReview options p
    let envelope ← liftExcept (sealEnvelope crypto sealing)
    let _ ← options.appendAudit "envelope" (record [("id", .string p.id),
      ("approvalDigest", .string p.approvalDigest), ("envelope", envelope.value)])
    return ⟨envelope, verdict⟩

structure InboundOptions where
  opening : OpenOptions
  recipientSigningSecretKey : Utf16

inductive InboundResult where
  | accepted (body : JsValue) (verdict : Verdict) (receipt : SignedReceipt)
  | duplicate (body : Option JsValue) (receipt : SignedReceipt)

/-- A field of an object that is checked to be a string. -/
def stringField (value : JsValue) (key : String) : Utf16 :=
  match value with
  | .object fields => (asString (field fields (ofString key))).getD []
  | _ => []

variable (replayStore : ReplayStore (World σ Call)) (options : PipelineOptions σ)
  (inbound : InboundOptions)

def completeRejection (peer : Utf16) (p : Proposal) (category : String) : Step σ SignedReceipt := do
  let rejectionEntry ← options.appendAudit "inbox_rejected" (record [("id", .string p.id),
    ("bodyHash", .string p.proposalHash), ("approvalDigest", .string p.approvalDigest),
    ("decision", text "deny"), ("category", text category)])
  let receipt ← liftExcept (lift (signReceipt crypto
    ⟨p.id, p.proposalHash, rejectionEntry.entryHash, .rejected, some (ofString category)⟩
    inbound.recipientSigningSecretKey))
  let _ ← options.appendAudit "receipt" (receiptRecord p.id p.approvalDigest receipt)
  let _ ← replayStore.complete peer p.id receipt none
  return receipt

/-- What an error of the classification makes of the claim: the error of a rejection that is
completed, or the error as it was thrown. -/
def rejectClassified (peer : Utf16) (p : Proposal) : Thrown → Step σ Thrown
  | .pipeline .guard message (some verdict) receipt reviewOutcome approvalDigest => do
    if verdict.decision = .deny then
      let _ ← replayStore.refresh peer p.id
      let receipt ← completeRejection crypto replayStore options inbound peer p "guard_deny"
      return .pipeline .guard message (some verdict) (some receipt) none none
    else
      throw (.pipeline .guard message (some verdict) receipt reviewOutcome approvalDigest)
  | .pipeline .review message verdict _ (some .denied) _ => do
    let _ ← replayStore.refresh peer p.id
    let receipt ← completeRejection crypto replayStore options inbound peer p "review_denied"
    return .pipeline .review message verdict (some receipt) (some .denied) (some p.approvalDigest)
  | e => throw e

/-- The message of a new claim, and what is proposed. -/
def proposeInbound (body : JsValue) : Except Thrown Proposal := do
  let proposalHash ← bodyHash crypto body
  let id := stringField inbound.opening.envelope "id"
  let source := stringField inbound.opening.envelope "from"
  let approvalDigest ← computeApprovalDigest crypto id source inbound.opening.self .inbound
    proposalHash options.policyVersion
  return ⟨.inbound, id, proposalHash, approvalDigest, source, inbound.opening.self,
    stringField body "text"⟩

def acceptInbound (peer : Utf16) (p : Proposal) (body : JsValue) (verdict : Verdict) :
    Step σ SignedReceipt := do
  let _ ← replayStore.refresh peer p.id
  let inboxEntry ← options.appendAudit "inbox" (record [("id", .string p.id),
    ("bodyHash", .string p.proposalHash), ("approvalDigest", .string p.approvalDigest),
    ("text", .string p.text), ("verdict", record verdict.fields)])
  let receipt ← liftExcept (lift (signReceipt crypto
    ⟨p.id, p.proposalHash, inboxEntry.entryHash, .accepted, none⟩
    inbound.recipientSigningSecretKey))
  let _ ← options.appendAudit "receipt" (receiptRecord p.id p.approvalDigest receipt)
  let _ ← replayStore.complete peer p.id receipt (some body)
  return receipt

/-- The body of the `try` of `composeInbound`: the result, or the error that is thrown after the
claim is finalized. -/
def composeNew (secretFindings : SecretFindings) (peer : Utf16) (body : JsValue) :
    Step σ (Except Thrown InboundResult) := do
  let p ← liftExcept (proposeInbound crypto options inbound body)
  let checks := deterministicChecks secretFindings p.text
  if ¬ checks.allowed then
    let _ ← replayStore.refresh peer p.id
    let _ ← options.appendAudit "deterministic_verdict"
      (denialRecord p.id p.approvalDigest checks.findings)
    let receipt ← completeRejection crypto replayStore options inbound peer p "deterministic_deny"
    return .error (.pipeline .deterministic "deterministic checks denied message" none
      (some receipt) none none)
  else
    let classified ← Traced.attempt (classifyWithReview options p)
    match classified with
    | .ok verdict =>
      let receipt ← acceptInbound crypto replayStore options inbound peer p body verdict
      return .ok (.accepted body verdict receipt)
    | .error e =>
      let e ← rejectClassified crypto replayStore options inbound peer p e
      return .error e

def composeInbound (secretFindings : SecretFindings) : Step σ InboundResult := do
  let opened ← openClaimed crypto replayStore inbound.opening
  match opened with
  | .duplicate receipt body =>
    match receipt with
    | none => throw (.protocol .replayed "duplicate envelope")
    | some receipt => return .duplicate body receipt
  | .new body _ =>
    let id := stringField inbound.opening.envelope "id"
    let source ← liftExcept
      (lift (parseHandleEpoch (stringField inbound.opening.envelope "from")))
    let result ←
      Traced.attempt (composeNew crypto replayStore options inbound secretFindings source.handle
        body)
    match result with
    | .ok finalized => liftExcept finalized
    | .error e =>
      let _ ← replayStore.release source.handle id
      throw e

end Flashclaw.Reef
