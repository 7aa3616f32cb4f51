import Flashclaw.Reef.LogStore
import Flashclaw.Reef.Receipts
import Flashclaw.Reef.Sealed
import Flashclaw.Reef.SqliteReplay

/-!
# Reef: the replay store in a file

`FileReplayStore` of `protocol/node.ts`.  An operation is what it appends and the
bindings after it; where it appends nothing the bindings stay.
-/

namespace Flashclaw.Reef

open Utf16 Json Results

inductive ReplayLogRecord where
  | claim (peer id envelopeHash : Utf16)
  /-- `body` is the text of `{ enc }`. -/
  | complete (peer id : Utf16) (receipt : SignedReceipt) (body : Option Utf16)
  | consume (peer id : Utf16)
  | release (peer id : Utf16)

namespace ReplayLogRecord

def opFields (op : String) (peer id : Utf16) : List (Utf16 × JsValue) :=
  [(ofString "op", .string (ofString op)), (ofString "peer", .string peer),
    (ofString "id", .string id)]

def fields : ReplayLogRecord → List (Utf16 × JsValue)
  | claim peer id envelopeHash =>
    opFields "claim" peer id ++ [(ofString "envelopeHash", .string envelopeHash)]
  | complete peer id receipt body =>
    opFields "complete" peer id ++ (ofString "receipt", receipt.value) ::
      (body.map fun enc =>
        (ofString "body", JsValue.object [(ofString "enc", .string enc)])).toList
  | consume peer id => opFields "consume" peer id
  | release peer id => opFields "release" peer id

end ReplayLogRecord

def asReceiptStatus (text : Utf16) : Option ReceiptStatus :=
  if text = ofString ReceiptStatus.accepted.text then some .accepted
  else if text = ofString ReceiptStatus.rejected.text then some .rejected
  else none

/-- The receipt that a value is. -/
def asReceipt : JsValue → Option SignedReceipt
  | .object fields => do
    let id ← asString (field fields (ofString "id"))
    let bodyHash ← asString (field fields (ofString "bodyHash"))
    let auditHead ← asString (field fields (ofString "auditHead"))
    let status ← asString (field fields (ofString "status")) >>= asReceiptStatus
    let category ← asOptionalString (field fields (ofString "category"))
    let signature ← asString (field fields (ofString "signature"))
    return ⟨id, bodyHash, auditHead, status, category, signature⟩
  | _ => none

/-- The text of an encrypted body, if there is a body. -/
def asEncryptedBody : JsValue → Option (Option Utf16)
  | .undefined => some none
  | .object fields => (asString (field fields (ofString "enc"))).map some
  | _ => none

/-- The record that a line is, where its fields have their types. -/
def readReplayRecord : JsValue → Option ReplayLogRecord
  | .object fields => do
    let op ← asString (field fields (ofString "op"))
    let peer ← asString (field fields (ofString "peer"))
    let id ← asString (field fields (ofString "id"))
    if op = ofString "claim" then
      return .claim peer id (← asString (field fields (ofString "envelopeHash")))
    else if op = ofString "complete" then
      return .complete peer id (← asReceipt (field fields (ofString "receipt")))
        (← asEncryptedBody (field fields (ofString "body")))
    else if op = ofString "consume" then return .consume peer id
    else return .release peer id
  | _ => none

theorem uniqueKeys_receipt (receipt : SignedReceipt) : UniqueKeys receipt.value := by
  obtain ⟨id, bodyHash, auditHead, status, category, signature⟩ := receipt
  cases category with
  | none =>
    have hnames : [ofString "id", ofString "bodyHash", ofString "auditHead", ofString "status",
      ofString "signature"].Nodup := by decide
    exact ⟨hnames, trivial, trivial, trivial, trivial, trivial, trivial⟩
  | some category =>
    have hnames : [ofString "id", ofString "bodyHash", ofString "auditHead", ofString "status",
      ofString "category", ofString "signature"].Nodup := by decide
    exact ⟨hnames, trivial, trivial, trivial, trivial, trivial, trivial, trivial⟩

theorem clean_receipt (receipt : SignedReceipt) : clean receipt.value = receipt.value := by
  obtain ⟨id, bodyHash, auditHead, status, category, signature⟩ := receipt
  cases category <;> rfl

theorem asReceiptStatus_text (status : ReceiptStatus) :
    asReceiptStatus (ofString status.text) = some status := by
  cases status <;> decide

theorem asReceipt_value (receipt : SignedReceipt) : asReceipt receipt.value = some receipt := by
  obtain ⟨id, bodyHash, auditHead, status, category, signature⟩ := receipt
  have hstatus := asReceiptStatus_text status
  cases category with
  | none =>
    show (asReceiptStatus (ofString status.text)).bind
      (fun status => some (SignedReceipt.mk id bodyHash auditHead status none signature)) = _
    rw [hstatus]
    rfl
  | some category =>
    show (asReceiptStatus (ofString status.text)).bind
      (fun status => some (SignedReceipt.mk id bodyHash auditHead status (some category) signature)) = _
    rw [hstatus]
    rfl

namespace ReplayLogRecord

/-- The line of a record. -/
def toLog (record : ReplayLogRecord) : LogRecord where
  fields := record.fields
  uniqueKeys := by
    cases record with
    | claim peer id envelopeHash =>
      have hnames : [ofString "op", ofString "peer", ofString "id", ofString "envelopeHash"].Nodup := by
        decide
      exact ⟨hnames, trivial, trivial, trivial, trivial, trivial⟩
    | complete peer id receipt body =>
      cases body with
      | none =>
        have hnames : [ofString "op", ofString "peer", ofString "id", ofString "receipt"].Nodup := by
          decide
        exact ⟨hnames, trivial, trivial, trivial, uniqueKeys_receipt receipt, trivial⟩
      | some enc =>
        have hnames : [ofString "op", ofString "peer", ofString "id", ofString "receipt",
          ofString "body"].Nodup := by decide
        exact ⟨hnames, trivial, trivial, trivial, uniqueKeys_receipt receipt,
          ⟨List.nodup_singleton _, trivial, trivial⟩, trivial⟩
    | consume peer id =>
      have hnames : [ofString "op", ofString "peer", ofString "id"].Nodup := by decide
      exact ⟨hnames, trivial, trivial, trivial, trivial⟩
    | release peer id =>
      have hnames : [ofString "op", ofString "peer", ofString "id"].Nodup := by decide
      exact ⟨hnames, trivial, trivial, trivial, trivial⟩

/-- A record is read as it was written. -/
theorem readReplayRecord_toLog (record : ReplayLogRecord) :
    readReplayRecord record.toLog.read = some record := by
  cases record with
  | claim peer id envelopeHash => rfl
  | complete peer id receipt body =>
    cases body with
    | none =>
      show (asReceipt (clean receipt.value)).bind
        (fun receipt => some (complete peer id receipt none)) = _
      rw [clean_receipt, asReceipt_value]
      rfl
    | some enc =>
      show (asReceipt (clean receipt.value)).bind
        (fun receipt => some (complete peer id receipt (some enc))) = _
      rw [clean_receipt, asReceipt_value]
      rfl
  | consume peer id => rfl
  | release peer id => rfl

end ReplayLogRecord

namespace FileReplay

variable (crypto : AuditCrypto) (bodyKey : Bytes) (bindings : Bindings) (peer id : Utf16)

def claim (envelopeHash : Utf16) : ReplayClaim × Option (ReplayLogRecord × Bindings) :=
  let key := replayKey peer id
  match bindings.get? key with
  | none =>
    (.new, some (.claim peer id envelopeHash,
      bindings.set key ⟨envelopeHash, .inFlight, none, none⟩))
  | some existing =>
    if existing.envelopeHash ≠ envelopeHash then (.mismatch, none)
    else if existing.state = .completed ∨ existing.state = .consumed then (.duplicate, none)
    else if existing.state = .inFlight then (.inFlight, none)
    else
      (.new, some (.claim peer id envelopeHash,
        bindings.set key { existing with state := .inFlight }))

/-- `nonce` is what `rng` returns for an encrypted body. -/
def complete (receipt : SignedReceipt) (body : Option JsValue) (nonce : Bytes) :
    Except Thrown (ReplayLogRecord × Bindings) := do
  let existing ← MemoryReplay.inFlight bindings peer id
  if receipt.id ≠ id then
    .error (.error ⟨"Error", "receipt id does not match replay claim"⟩)
  else do
    let _ ← validateCompletion receipt body
    let enc ← body.mapM (encryptReplayBody crypto bodyKey nonce)
    return (.complete peer id receipt enc, bindings.set (replayKey peer id)
      { existing with state := .completed, receipt := some receipt, body := body <|> existing.body })

def consume : Except Thrown (ReplayLogRecord × Bindings) := do
  let existing ← MemoryReplay.inFlight bindings peer id
  return (.consume peer id, bindings.set (replayKey peer id)
    { existing with state := .consumed, receipt := none, body := none })

def release : Option (ReplayLogRecord × Bindings) :=
  (bindings.get? (replayKey peer id)).bind fun existing =>
    if existing.state = .inFlight then
      some (.release peer id,
        bindings.set (replayKey peer id) { existing with state := .available })
    else none

def decryptReplayBody (enc : Utf16) : Except Thrown JsValue := do
  let packed ← lift (fromBase64 enc)
  if packed.length < 28 then .error (.error ⟨"Error", "invalid encrypted replay body"⟩)
  else do
    let plaintext ← lift (crypto.decrypt bodyKey (packed.take 12) (packed.drop 12))
    let text ← lift (decodeUtf8 plaintext)
    let value ← (Json.parse text).elim (.error (.error syntaxError)) .ok
    let _ ← validateMessageBody value
    return value

/-- The binding that a record after its claim finds. -/
def claimed (message : String) : Except Thrown ReplayRecord :=
  (bindings.get? (replayKey peer id)).elim (.error (.error ⟨"Error", message⟩)) .ok

/-- One record in the loop of `#load`. -/
def applyRecord : ReplayLogRecord → Except Thrown Bindings
  | .claim peer id envelopeHash =>
    let key := replayKey peer id
    if (bindings.get? key).any fun existing => existing.envelopeHash ≠ envelopeHash then
      .error (.error ⟨"Error", "corrupt replay binding store"⟩)
    else .ok (bindings.set key ⟨envelopeHash, .available, none, none⟩)
  | .complete peer id receipt enc => do
    let existing ← claimed bindings peer id "completed replay lacks claim"
    let body ← enc.mapM (decryptReplayBody crypto bodyKey)
    let _ ← validateCompletion receipt body
    return bindings.set (replayKey peer id)
      { existing with state := .completed, receipt := some receipt, body := body <|> existing.body }
  | .consume peer id => do
    let existing ← claimed bindings peer id "consumed replay lacks claim"
    return bindings.set (replayKey peer id)
      { existing with state := .consumed, receipt := none, body := none }
  | .release peer id => do
    let existing ← claimed bindings peer id "released replay lacks claim"
    return bindings.set (replayKey peer id) { existing with state := .available }

/-- The bindings that `#load` builds from the lines. -/
def rebuild (records : List JsValue) : Except Thrown Bindings :=
  records.foldlM (fun bindings record =>
    (readReplayRecord record).elim (.error (.error ⟨"TypeError", "not a replay record"⟩))
      (applyRecord crypto bodyKey bindings)) .empty

end FileReplay

/-- The operations that append, with what they are called with. -/
inductive ReplayOp where
  | claim (peer id envelopeHash : Utf16)
  | complete (peer id : Utf16) (receipt : SignedReceipt) (body : Option {v : JsValue // UniqueKeys v})
    (nonce : Bytes)
  | consume (peer id : Utf16)
  | release (peer id : Utf16)

/-- The record an operation of `FileReplayStore` appends and the bindings after it. -/
def FileReplay.perform (crypto : AuditCrypto) (bodyKey : Bytes) (bindings : Bindings) :
    ReplayOp → Option (ReplayLogRecord × Bindings)
  | .claim peer id envelopeHash => (claim bindings peer id envelopeHash).2
  | .complete peer id receipt body nonce =>
    (complete crypto bodyKey bindings peer id receipt (body.map (·.val)) nonce).toOption
  | .consume peer id => (consume bindings peer id).toOption
  | .release peer id => release bindings peer id

/-- `FileReplayStore`. -/
def fileReplayStore (crypto : AuditCrypto) (bodyKey : Bytes) : LogStore Bindings ReplayOp where
  start := .empty
  rebuild records := (FileReplay.rebuild crypto bodyKey records).toOption
  perform bindings op :=
    (FileReplay.perform crypto bodyKey bindings op).map fun r => (r.1.toLog, r.2)

/-- A record after a crash: the claims in flight are available again. -/
def ReplayRecord.recovered (record : ReplayRecord) : ReplayRecord :=
  { record with state := if record.state = .inFlight then .available else record.state }

/-- Records with one state and one receipt, and with bodies equal up to key order. -/
structure SameRecord (r r' : ReplayRecord) : Prop where
  envelopeHash : r'.envelopeHash = r.envelopeHash
  state : r'.state = r.state
  receipt : r'.receipt = r.receipt
  body : Option.Rel Same r.body r'.body

/-- The bindings after a crash are the bindings before it, but for the claims in flight. -/
def RecoveredBindings (m m' : Bindings) : Prop :=
  ∀ key, Option.Rel SameRecord ((m.get? key).map ReplayRecord.recovered) (m'.get? key)

/-- Only completed bindings have receipts and bodies. -/
def Tidy (m : Bindings) : Prop :=
  ∀ key r, m.get? key = some r → r.state = .available ∨ r.state = .inFlight →
    r.receipt = none ∧ r.body = none

/-- A completed or consumed binding stays as it is. -/
def KeepsFinal (m m' : Bindings) : Prop :=
  ∀ key r, m.get? key = some r → r.state = .completed ∨ r.state = .consumed →
    ∃ r', m'.get? key = some r' ∧ SameRecord r r'

section Relations

theorem rel_same_refl (body : Option JsValue) : Option.Rel Same body body := by
  cases body with
  | none => exact .none
  | some v => exact .some rfl

theorem rel_same_trans {a b c : Option JsValue} (hab : Option.Rel Same a b)
    (hbc : Option.Rel Same b c) : Option.Rel Same a c := by
  cases hab with
  | none => exact hbc
  | some h =>
    cases hbc with
    | some h' => exact .some (h.trans h')

theorem isSome_of_rel {a b : Option JsValue} (h : Option.Rel Same a b) : a.isSome = b.isSome := by
  cases h with
  | none => rfl
  | some => rfl

theorem SameRecord.refl (r : ReplayRecord) : SameRecord r r := ⟨rfl, rfl, rfl, rel_same_refl _⟩

theorem SameRecord.trans {a b c : ReplayRecord} (hab : SameRecord a b) (hbc : SameRecord b c) :
    SameRecord a c :=
  ⟨hbc.envelopeHash.trans hab.envelopeHash, hbc.state.trans hab.state,
    hbc.receipt.trans hab.receipt, rel_same_trans hab.body hbc.body⟩

theorem recovered_of_ne {r : ReplayRecord} (h : r.state ≠ .inFlight) : r.recovered = r := by
  unfold ReplayRecord.recovered
  rw [if_neg h]

theorem recovered_state_ne (r : ReplayRecord) : r.recovered.state ≠ .inFlight := by
  unfold ReplayRecord.recovered
  simp only
  split_ifs with h
  · decide
  · exact h

variable {m m' : Bindings}

theorem RecoveredBindings.of_none (h : RecoveredBindings m m') {key : Utf16}
    (hkey : m.get? key = none) : m'.get? key = none := by
  have hrel := h key
  rw [hkey] at hrel
  cases hm' : m'.get? key with
  | none => rfl
  | some r' =>
    rw [hm'] at hrel
    cases hrel

theorem RecoveredBindings.of_some (h : RecoveredBindings m m') {key : Utf16} {r : ReplayRecord}
    (hkey : m.get? key = some r) : ∃ r', m'.get? key = some r' ∧ SameRecord r.recovered r' := by
  have hrel := h key
  rw [hkey] at hrel
  cases hm' : m'.get? key with
  | none =>
    rw [hm'] at hrel
    cases hrel
  | some r' =>
    rw [hm'] at hrel
    cases hrel with
    | some hsame => exact ⟨r', rfl, hsame⟩

theorem RecoveredBindings.set (h : RecoveredBindings m m') (key : Utf16) {r r' : ReplayRecord}
    (hsame : SameRecord r.recovered r') : RecoveredBindings (m.set key r) (m'.set key r') := by
  intro key'
  by_cases hkey : key = key'
  · subst hkey
    rw [JsMap.get?_set_self, JsMap.get?_set_self]
    exact .some hsame
  · rw [JsMap.get?_set_ne _ _ hkey, JsMap.get?_set_ne _ _ hkey]
    exact h key'

/-- A recovered memory recovers as itself. -/
theorem RecoveredBindings.self (h : RecoveredBindings m m') : RecoveredBindings m' m' := by
  intro key
  have hrel := h key
  cases hm' : m'.get? key with
  | none => exact .none
  | some r' =>
    rw [hm'] at hrel
    cases hm : m.get? key with
    | none =>
      rw [hm] at hrel
      cases hrel
    | some r =>
      rw [hm] at hrel
      cases hrel with
      | some hsame =>
        have hne : r'.state ≠ .inFlight := by
          rw [hsame.state]
          exact recovered_state_ne r
        rw [Option.map_some, recovered_of_ne hne]
        exact .some (.refl r')

theorem RecoveredBindings.tidy (h : RecoveredBindings m m') (htidy : Tidy m) : Tidy m' := by
  intro key r' hr' hstate
  cases hm : m.get? key with
  | none =>
    rw [h.of_none hm] at hr'
    cases hr'
  | some r =>
    obtain ⟨r'', hr'', hsame⟩ := h.of_some hm
    obtain rfl := Option.some.inj (hr'.symm.trans hr'')
    have hr : r.state = .available ∨ r.state = .inFlight := by
      have hs := hsame.state
      unfold ReplayRecord.recovered at hs
      simp only at hs
      split_ifs at hs with hflight
      · exact .inr hflight
      · rw [hs] at hstate
        exact hstate
    obtain ⟨hreceipt, hbody⟩ := htidy key r hm hr
    refine ⟨hsame.receipt.trans hreceipt, ?_⟩
    have hrel : Option.Rel Same r.body r'.body := hsame.body
    rw [hbody] at hrel
    cases hb : r'.body with
    | none => rfl
    | some v =>
      rw [hb] at hrel
      cases hrel

theorem Tidy.set (h : Tidy m) (key : Utf16) {r : ReplayRecord}
    (hr : r.state = .available ∨ r.state = .inFlight → r.receipt = none ∧ r.body = none) :
    Tidy (m.set key r) := by
  intro key' r' hr' hstate
  by_cases hkey : key = key'
  · subst hkey
    rw [JsMap.get?_set_self] at hr'
    obtain rfl := Option.some.inj hr'
    exact hr hstate
  · rw [JsMap.get?_set_ne _ _ hkey] at hr'
    exact h key' r' hr' hstate

theorem KeepsFinal.refl (m : Bindings) : KeepsFinal m m :=
  fun _ r hr _ => ⟨r, hr, .refl r⟩

theorem KeepsFinal.trans {m'' : Bindings} (h : KeepsFinal m m') (h' : KeepsFinal m' m'') :
    KeepsFinal m m'' := by
  intro key r hr hstate
  obtain ⟨r', hr', hsame⟩ := h key r hr hstate
  obtain ⟨r'', hr'', hsame'⟩ := h' key r' hr' (hsame.state ▸ hstate)
  exact ⟨r'', hr'', hsame.trans hsame'⟩

theorem RecoveredBindings.keepsFinal (h : RecoveredBindings m m') : KeepsFinal m m' := by
  intro key r hr hstate
  obtain ⟨r', hr', hsame⟩ := h.of_some hr
  have hne : r.state ≠ .inFlight := by rcases hstate with hs | hs <;> simp [hs]
  rw [recovered_of_ne hne] at hsame
  exact ⟨r', hr', hsame⟩

/-- A binding that is not final may change. -/
theorem keepsFinal_set {key : Utf16}
    (h : ∀ r, m.get? key = some r → r.state ≠ .completed ∧ r.state ≠ .consumed)
    (r' : ReplayRecord) : KeepsFinal m (m.set key r') := by
  intro key' r hr hstate
  by_cases hkey : key = key'
  · subst hkey
    obtain ⟨hcompleted, hconsumed⟩ := h r hr
    exact absurd hstate (by simp [hcompleted, hconsumed])
  · exact ⟨r, by rw [JsMap.get?_set_ne _ _ hkey, hr], .refl r⟩

end Relations

section Operations

variable {crypto : AuditCrypto} {bodyKey : Bytes} {m : Bindings} {peer id : Utf16}

/-- An encrypted body comes back in its normal form. -/
theorem decryptReplayBody_encrypt (hgcm : GcmCorrect crypto) {nonce : Bytes} {body : JsValue}
    (hkeys : UniqueKeys body) {enc : Utf16}
    (h : encryptReplayBody crypto bodyKey nonce body = .ok enc) :
    FileReplay.decryptReplayBody crypto bodyKey enc = .ok (normalForm body) := by
  unfold encryptReplayBody at h
  obtain ⟨message, hmessage, h⟩ := bind_eq_ok.mp h
  split_ifs at h with hnonce
  obtain ⟨plaintext, hplaintext, h⟩ := bind_eq_ok.mp h
  obtain rfl := Except.ok.inj h
  have hbytes : canonicalBytes body = .ok plaintext := by
    cases hc : canonicalBytes body with
    | error e =>
      rw [hc] at hplaintext
      cases hplaintext
    | ok bytes =>
      rw [hc] at hplaintext
      rw [Except.ok.inj hplaintext]
  obtain ⟨text, htext, hparse⟩ := parse_canonicalBytes hkeys hmessage hbytes
  have hbody := (validateMessageBody_normalForm hkeys hmessage).2
  have hlength : nonce.length = 12 := not_not.mp hnonce
  have hpacked : ¬ (nonce ++ crypto.encrypt bodyKey nonce plaintext).length < 28 := by
    rw [List.length_append, hgcm.length, hlength]
    omega
  unfold FileReplay.decryptReplayBody
  rw [fromBase64_base64]
  refine bind_eq_ok.mpr ⟨_, rfl, ?_⟩
  rw [if_neg hpacked, ← hlength, List.take_left, List.drop_left, hgcm.decrypt]
  refine bind_eq_ok.mpr ⟨plaintext, rfl, bind_eq_ok.mpr ⟨text, by rw [htext]; rfl, ?_⟩⟩
  rw [hparse]
  exact bind_eq_ok.mpr ⟨_, rfl, bind_eq_ok.mpr ⟨message, hbody, rfl⟩⟩

theorem inFlight_eq_ok {existing : ReplayRecord}
    (h : MemoryReplay.inFlight m peer id = .ok existing) :
    m.get? (replayKey peer id) = some existing ∧ existing.state = .inFlight := by
  unfold MemoryReplay.inFlight at h
  cases hget : m.get? (replayKey peer id) with
  | none =>
    rw [hget] at h
    cases h
  | some r =>
    rw [hget] at h
    simp only at h
    split_ifs at h with hstate
    obtain rfl := Except.ok.inj h
    exact ⟨rfl, hstate⟩

/-- The appends of the store: what is appended for which binding, and the binding after it. -/
inductive Performs (crypto : AuditCrypto) (bodyKey : Bytes) (m : Bindings) :
    ReplayLogRecord → Bindings → Prop
  | first (peer id envelopeHash : Utf16) (hnone : m.get? (replayKey peer id) = none) :
      Performs crypto bodyKey m (.claim peer id envelopeHash)
        (m.set (replayKey peer id) ⟨envelopeHash, .inFlight, none, none⟩)
  | again (peer id : Utf16) (r : ReplayRecord) (hsome : m.get? (replayKey peer id) = some r)
      (hstate : r.state = .available) :
      Performs crypto bodyKey m (.claim peer id r.envelopeHash)
        (m.set (replayKey peer id) { r with state := .inFlight })
  | complete (peer id : Utf16) (r : ReplayRecord) (receipt : SignedReceipt)
      (body : Option {v : JsValue // UniqueKeys v}) (nonce : Bytes) (enc : Option Utf16)
      (hsome : m.get? (replayKey peer id) = some r) (hstate : r.state = .inFlight)
      (hvalid : validateCompletion receipt (body.map (·.val)) = .ok ())
      (henc : (body.map (·.val)).mapM (encryptReplayBody crypto bodyKey nonce) = .ok enc) :
      Performs crypto bodyKey m (.complete peer id receipt enc) (m.set (replayKey peer id)
        { r with
          state := .completed, receipt := some receipt, body := body.map (·.val) <|> r.body })
  | consume (peer id : Utf16) (r : ReplayRecord) (hsome : m.get? (replayKey peer id) = some r)
      (hstate : r.state = .inFlight) :
      Performs crypto bodyKey m (.consume peer id) (m.set (replayKey peer id)
        { r with state := .consumed, receipt := none, body := none })
  | release (peer id : Utf16) (r : ReplayRecord) (hsome : m.get? (replayKey peer id) = some r)
      (hstate : r.state = .inFlight) :
      Performs crypto bodyKey m (.release peer id)
        (m.set (replayKey peer id) { r with state := .available })

theorem performs {op : ReplayOp} {record : ReplayLogRecord} {m' : Bindings}
    (h : FileReplay.perform crypto bodyKey m op = some (record, m')) :
    Performs crypto bodyKey m record m' := by
  have htoOption : ∀ {x : Except Thrown (ReplayLogRecord × Bindings)} {r},
      x.toOption = some r → x = .ok r := by
    intro x r hx
    cases x with
    | error e => cases hx
    | ok a => rw [Option.some.inj hx]
  cases op with
  | claim peer id envelopeHash =>
    unfold FileReplay.perform FileReplay.claim at h
    simp only at h
    cases hget : m.get? (replayKey peer id) with
    | none =>
      rw [hget] at h
      obtain ⟨rfl, rfl⟩ := Prod.mk.inj (Option.some.inj h)
      exact .first peer id envelopeHash hget
    | some r =>
      rw [hget] at h
      simp only at h
      split_ifs at h with hhash hfinal hflight
      obtain ⟨rfl, rfl⟩ := Prod.mk.inj (Option.some.inj h)
      rw [← not_not.mp hhash]
      -- the row is neither in flight nor final, so it was released
      refine .again peer id r hget ?_
      cases hstate : r.state with
      | available => rfl
      | inFlight => exact absurd hstate hflight
      | completed => exact absurd (.inl hstate) hfinal
      | consumed => exact absurd (.inr hstate) hfinal
  | complete peer id receipt body nonce =>
    have hok := htoOption h
    unfold FileReplay.complete at hok
    obtain ⟨r, hflight, hok⟩ := bind_eq_ok.mp hok
    split_ifs at hok
    obtain ⟨_, hvalid, hok⟩ := bind_eq_ok.mp hok
    obtain ⟨enc, henc, hok⟩ := bind_eq_ok.mp hok
    obtain ⟨rfl, rfl⟩ := Prod.mk.inj (Except.ok.inj hok)
    obtain ⟨hget, hstate⟩ := inFlight_eq_ok hflight
    exact .complete peer id r receipt body nonce enc hget hstate hvalid henc
  | consume peer id =>
    have hok := htoOption h
    unfold FileReplay.consume at hok
    obtain ⟨r, hflight, hok⟩ := bind_eq_ok.mp hok
    obtain ⟨rfl, rfl⟩ := Prod.mk.inj (Except.ok.inj hok)
    obtain ⟨hget, hstate⟩ := inFlight_eq_ok hflight
    exact .consume peer id r hget hstate
  | release peer id =>
    unfold FileReplay.perform FileReplay.release at h
    obtain ⟨r, hget, h⟩ := Option.bind_eq_some_iff.mp h
    split_ifs at h with hstate
    obtain ⟨rfl, rfl⟩ := Prod.mk.inj (Option.some.inj h)
    exact .release peer id r hget hstate

theorem Performs.keepsFinal {record : ReplayLogRecord} {m' : Bindings}
    (h : Performs crypto bodyKey m record m') : KeepsFinal m m' := by
  have hfinal : ∀ {key : Utf16} {r r' : ReplayRecord}, m.get? key = some r →
      r.state ≠ .completed ∧ r.state ≠ .consumed → KeepsFinal m (m.set key r') := by
    intro key r r' hget hstate
    apply keepsFinal_set
    intro r'' hr''
    obtain rfl := Option.some.inj (hget.symm.trans hr'')
    exact hstate
  cases h with
  | first peer id envelopeHash hnone =>
    apply keepsFinal_set
    intro r hr
    rw [hnone] at hr
    cases hr
  | again peer id r hsome hstate => exact hfinal hsome (by simp [hstate])
  | complete peer id r receipt body nonce enc hsome hstate => exact hfinal hsome (by simp [hstate])
  | consume peer id r hsome hstate => exact hfinal hsome (by simp [hstate])
  | release peer id r hsome hstate => exact hfinal hsome (by simp [hstate])

theorem Performs.tidy {record : ReplayLogRecord} {m' : Bindings}
    (h : Performs crypto bodyKey m record m') (htidy : Tidy m) : Tidy m' := by
  cases h with
  | first peer id envelopeHash hnone => exact htidy.set _ fun _ => ⟨rfl, rfl⟩
  | again peer id r hsome hstate => exact htidy.set _ fun _ => htidy _ r hsome (.inl hstate)
  | complete peer id r receipt body nonce enc hsome hstate =>
    apply htidy.set
    intro hfinal
    rcases hfinal with hfinal | hfinal <;> cases hfinal
  | consume peer id r hsome hstate => exact htidy.set _ fun _ => ⟨rfl, rfl⟩
  | release peer id r hsome hstate => exact htidy.set _ fun _ => htidy _ r hsome (.inr hstate)

/-- A record makes of the recovered bindings what the operation makes of the live ones. -/
theorem Performs.applyRecord (hgcm : GcmCorrect crypto) {record : ReplayLogRecord}
    {m' recovered : Bindings} (h : Performs crypto bodyKey m record m') (htidy : Tidy m)
    (hrecovered : RecoveredBindings m recovered) :
    ∃ recovered', FileReplay.applyRecord crypto bodyKey recovered record = .ok recovered' ∧
      RecoveredBindings m' recovered' := by
  -- the claim that a record after it finds
  have hclaimed : ∀ {peer id : Utf16} {r' : ReplayRecord} (message : String),
      recovered.get? (replayKey peer id) = some r' →
        FileReplay.claimed recovered peer id message = .ok r' := by
    intro peer id r' message hget
    unfold FileReplay.claimed
    rw [hget]
    rfl
  cases h with
  | first peer id envelopeHash hnone =>
    refine ⟨recovered.set (replayKey peer id) ⟨envelopeHash, .available, none, none⟩, ?_,
      hrecovered.set _ ⟨rfl, rfl, rfl, .none⟩⟩
    unfold FileReplay.applyRecord
    simp only [hrecovered.of_none hnone, Option.any_none, Bool.false_eq_true, if_false]
  | again peer id r hsome hstate =>
    obtain ⟨r', hr', hsame⟩ := hrecovered.of_some hsome
    obtain ⟨hreceipt, hbody⟩ := htidy _ r hsome (.inl hstate)
    refine ⟨recovered.set (replayKey peer id) ⟨r.envelopeHash, .available, none, none⟩, ?_,
      hrecovered.set _ ⟨rfl, rfl, hreceipt.symm, ?_⟩⟩
    · have hhash : r'.envelopeHash = r.envelopeHash := hsame.envelopeHash
      unfold FileReplay.applyRecord
      simp only [hr', Option.any_some, hhash, ne_eq, not_true, decide_false, Bool.false_eq_true,
        if_false]
    · show Option.Rel Same r.body none
      rw [hbody]
      exact .none
  | complete peer id r receipt body nonce enc hsome hstate hvalid henc =>
    obtain ⟨r', hr', hsame⟩ := hrecovered.of_some hsome
    have hbodyNone : r'.body = none := by
      have hrel : Option.Rel Same r.body r'.body := hsame.body
      rw [(htidy _ r hsome (.inr hstate)).2] at hrel
      cases hb : r'.body with
      | none => rfl
      | some v =>
        rw [hb] at hrel
        cases hrel
    have hdecrypted : ∃ body', enc.mapM (FileReplay.decryptReplayBody crypto bodyKey) = .ok body' ∧
        Option.Rel Same (body.map (·.val)) body' := by
      cases body with
      | none =>
        obtain rfl := Except.ok.inj henc
        exact ⟨none, rfl, .none⟩
      | some v =>
        obtain ⟨text, htext, henc⟩ := bind_eq_ok.mp henc
        obtain rfl := Except.ok.inj henc
        exact ⟨some (normalForm v.val),
          bind_eq_ok.mpr ⟨_, decryptReplayBody_encrypt hgcm v.property htext, rfl⟩,
          .some (normalForm_idem v.val).symm⟩
    obtain ⟨body', hbody', hrel⟩ := hdecrypted
    have hvalid' : validateCompletion receipt body' = .ok () := by
      have hsome' := isSome_of_rel hrel
      unfold validateCompletion at hvalid ⊢
      rw [← hsome']
      exact hvalid
    refine ⟨_, bind_eq_ok.mpr ⟨r', hclaimed _ hr', bind_eq_ok.mpr ⟨body', hbody',
      bind_eq_ok.mpr ⟨(), hvalid', rfl⟩⟩⟩, hrecovered.set _ ⟨?_, rfl, rfl, ?_⟩⟩
    · exact hsame.envelopeHash
    · show Option.Rel Same (body.map (·.val) <|> r.body) (body' <|> r'.body)
      rw [hbodyNone, (htidy _ r hsome (.inr hstate)).2]
      simpa using hrel
  | consume peer id r hsome hstate =>
    obtain ⟨r', hr', hsame⟩ := hrecovered.of_some hsome
    exact ⟨_, bind_eq_ok.mpr ⟨r', hclaimed _ hr', rfl⟩,
      hrecovered.set _ ⟨hsame.envelopeHash, rfl, rfl, .none⟩⟩
  | release peer id r hsome hstate =>
    obtain ⟨r', hr', hsame⟩ := hrecovered.of_some hsome
    exact ⟨_, bind_eq_ok.mpr ⟨r', hclaimed _ hr', rfl⟩,
      hrecovered.set _ ⟨hsame.envelopeHash, rfl, hsame.receipt, hsame.body⟩⟩

end Operations

/-- The lines rebuild the bindings as they are after a crash. -/
def FileReplay.Agrees (crypto : AuditCrypto) (bodyKey : Bytes) (records : List JsValue)
    (m : Bindings) : Prop :=
  Tidy m ∧ ∃ m', FileReplay.rebuild crypto bodyKey records = .ok m' ∧ RecoveredBindings m m'

theorem fileReplayStore_lawful {crypto : AuditCrypto} (hgcm : GcmCorrect crypto) (bodyKey : Bytes) :
    (fileReplayStore crypto bodyKey).Lawful (FileReplay.Agrees crypto bodyKey) RecoveredBindings
      fun _ _ => True where
  start := by
    refine ⟨fun key r hr => ?_, .empty, rfl, fun key => .none⟩
    cases hr
  rebuild := by
    rintro records m ⟨htidy, m', hm', hrecovered⟩
    refine ⟨m', ?_, hrecovered, hrecovered.tidy htidy, m', hm', hrecovered.self⟩
    show (FileReplay.rebuild crypto bodyKey records).toOption = some m'
    rw [hm']
    rfl
  perform := by
    rintro records m op record m' ⟨htidy, recovered, hrebuild, hrecovered⟩ - hop
    obtain ⟨⟨replayRecord, m''⟩, hperform, heq⟩ := Option.map_eq_some_iff.mp hop
    obtain ⟨rfl, rfl⟩ := Prod.mk.inj heq
    have hperforms := performs hperform
    obtain ⟨recovered', happly, hrecovered'⟩ := hperforms.applyRecord hgcm htidy hrecovered
    refine ⟨hperforms.tidy htidy, recovered', ?_, hrecovered'⟩
    unfold FileReplay.rebuild at hrebuild ⊢
    rw [List.foldlM_append]
    refine bind_eq_ok.mpr ⟨recovered, hrebuild, bind_eq_ok.mpr ⟨recovered', ?_, rfl⟩⟩
    show (readReplayRecord replayRecord.toLog.read).elim _ _ = _
    rw [ReplayLogRecord.readReplayRecord_toLog]
    exact happly

theorem fileReplayStore_keepsFinal {crypto : AuditCrypto} {bodyKey : Bytes} {m m' : Bindings}
    {op : ReplayOp} {record : LogRecord}
    (h : (fileReplayStore crypto bodyKey).perform m op = some (record, m')) : KeepsFinal m m' := by
  obtain ⟨⟨replayRecord, m''⟩, hperform, heq⟩ := Option.map_eq_some_iff.mp h
  obtain ⟨-, rfl⟩ := Prod.mk.inj heq
  exact (performs hperform).keepsFinal

end Flashclaw.Reef
