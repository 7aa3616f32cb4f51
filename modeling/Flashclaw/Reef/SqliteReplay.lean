import Mathlib.Logic.Function.Basic
import Flashclaw.Reef.Replay

/-!
# Reef: the replay store over SQLite

`ReefSqliteReplayStore` of `src/state.ts`.  The rows are shared by all stores
over one database and the update of a row is atomic; a store keeps the owners
of its claims in memory.  `storage` is what the database answers to an update:
one that throws, as for a row beyond the limit, changes nothing.
-/

namespace Flashclaw.Reef

open Utf16 Json Results

structure ReplayRow where
  peer : Utf16
  id : Utf16
  envelopeHash : Utf16
  state : ReplayState
  claimOwner : Option Utf16
  claimExpiresAt : Option ℕ
  receipt : Option SignedReceipt
  body : Option Utf16

/-- A time that `Date.now()` returns after 1970. -/
abbrev Millis := { t : ℕ // t ≤ 8640000000000000 }

def replayClaimLeaseMs : ℕ := 5 * 60000

/-- The rows of the database and the owners of the claims of one store. -/
structure StoreState where
  rows : Utf16 → Option ReplayRow
  owners : Utf16 → Option Utf16

def replayStoreKey (crypto : AuditCrypto) (peer id : Utf16) : Utf16 :=
  ofString "binding:" ++ hex (crypto.sha256 (utf8 (render (.array [.string peer, .string id]))))

def isReplayRow (row : ReplayRow) : Bool :=
  row.state ≠ .inFlight ||
    (row.claimOwner.any (· ≠ []) && row.claimExpiresAt.any fun t => 0 < t && t < 2 ^ 53)

def parseReplayRecord (row : ReplayRow) : Except Thrown ReplayRow :=
  if isReplayRow row then .ok row else .error (.error ⟨"Error", "invalid Reef replay state"⟩)

def encryptReplayBody (crypto : AuditCrypto) (key nonce : Bytes) (body : JsValue) :
    Except Thrown Utf16 := do
  let _ ← validateMessageBody body
  if nonce.length ≠ 12 then
    .error (.error ⟨"Error", "replay body rng returned invalid nonce"⟩)
  else do
    let plaintext ← lift (canonicalBytes body)
    return base64 (nonce ++ crypto.encrypt key nonce plaintext)

namespace SqliteReplay

/-- `#update`: a new row is stored, none leaves the row as it is. -/
def updateRow {α : Type} (rows : Utf16 → Option ReplayRow) (storage : Except Thrown Unit)
    (key : Utf16) (updateValue : Option ReplayRow → Except Thrown (α × Option ReplayRow)) :
    Except Thrown (α × (Utf16 → Option ReplayRow)) := do
  let _ ← storage
  let current ← (rows key).mapM parseReplayRecord
  let (result, next) ← updateValue current
  return (result, next.elim rows fun row => Function.update rows key (some row))

def claimRow (peer id envelopeHash owner : Utf16) (claimExpiresAt now : ℕ) :
    Option ReplayRow → ReplayClaim × ReplayRow
  | none =>
    (.new, ⟨peer, id, envelopeHash, .inFlight, some owner, some claimExpiresAt, none, none⟩)
  | some existing =>
    if existing.peer ≠ peer ∨ existing.id ≠ id ∨ existing.envelopeHash ≠ envelopeHash then
      (.mismatch, existing)
    else if existing.state = .completed ∨ existing.state = .consumed then (.duplicate, existing)
    else if existing.state = .inFlight ∧ now < existing.claimExpiresAt.getD 0 then
      (.inFlight, existing)
    else
      (.new, { existing with
        state := .inFlight, claimOwner := some owner, claimExpiresAt := some claimExpiresAt })

variable (crypto : AuditCrypto) (peer id : Utf16) (storage : Except Thrown Unit)

/-- `owner` is what `randomUUID` draws, and the clock is read before the update and in it. -/
def claim (envelopeHash owner : Utf16) (start now : Millis) (s : StoreState) :
    Except Thrown ReplayClaim × StoreState :=
  let key := replayStoreKey crypto peer id
  let updated := updateRow s.rows storage key fun existing =>
    let (result, row) := claimRow peer id envelopeHash owner (start + replayClaimLeaseMs) now existing
    .ok (result, some row)
  match updated with
  | .error e => (.error e, s)
  | .ok (result, rows) =>
    (.ok result, ⟨rows,
      if result = .new then Function.update s.owners key (some owner) else s.owners⟩)

/-- The row is in flight under the owner. -/
def isHeld (owner : Option Utf16) (row : ReplayRow) : Bool :=
  row.state = .inFlight && row.claimOwner = owner

/-- An update that changes the row where the owner holds it, and whether it did. -/
def updateHeld (s : StoreState) (key : Utf16) (change : ReplayRow → Except Thrown ReplayRow) :
    Except Thrown (Bool × (Utf16 → Option ReplayRow)) :=
  updateRow s.rows storage key fun existing =>
    match existing.filter (isHeld (s.owners key)) with
    | some row => do
      let row' ← change row
      return (true, some row')
    | none => .ok (false, existing)

def notInFlight : Thrown := .error ⟨"Error", "replay claim is not in flight"⟩

def forget (owners : Utf16 → Option Utf16) (key : Utf16) : Utf16 → Option Utf16 :=
  Function.update owners key none

def refreshRow (now : Millis) (row : ReplayRow) : Except Thrown ReplayRow :=
  .ok { row with claimExpiresAt := some (now + replayClaimLeaseMs) }

def refresh (now : Millis) (s : StoreState) : Except Thrown Unit × StoreState :=
  let key := replayStoreKey crypto peer id
  let updated :=
    if (s.owners key).any (· ≠ []) then updateHeld storage s key (refreshRow now)
    else .ok (false, s.rows)
  match updated with
  | .error e => (.error e, s)
  | .ok (true, rows) => (.ok (), ⟨rows, s.owners⟩)
  | .ok (false, rows) => (.error notInFlight, ⟨rows, forget s.owners key⟩)

def completeRow (bodyKey nonce : Bytes) (receipt : SignedReceipt) (body : Option JsValue)
    (row : ReplayRow) : Except Thrown ReplayRow := do
  let enc ← body.mapM (encryptReplayBody crypto bodyKey nonce)
  return { row with
    state := .completed, claimOwner := none, claimExpiresAt := none, receipt := some receipt,
    body := enc <|> row.body }

/-- The end of `complete` and `consume`. -/
def finish (key : Utf16) (s : StoreState) :
    Except Thrown (Bool × (Utf16 → Option ReplayRow)) → Except Thrown Unit × StoreState
  | .error e => (.error e, s)
  | .ok (true, rows) => (.ok (), ⟨rows, forget s.owners key⟩)
  | .ok (false, rows) => (.error notInFlight, ⟨rows, s.owners⟩)

def complete (bodyKey nonce : Bytes) (receipt : SignedReceipt) (body : Option JsValue)
    (s : StoreState) : Except Thrown Unit × StoreState :=
  if receipt.id ≠ id then
    (.error (.error ⟨"Error", "receipt id does not match replay claim"⟩), s)
  else
    match validateCompletion receipt body with
    | .error e => (.error e, s)
    | .ok () =>
      let key := replayStoreKey crypto peer id
      finish key s
        (updateHeld storage s key (completeRow crypto bodyKey nonce receipt body))

def consumeRow (row : ReplayRow) : Except Thrown ReplayRow :=
  .ok { row with
    state := .consumed, claimOwner := none, claimExpiresAt := none, receipt := none, body := none }

def consume (s : StoreState) : Except Thrown Unit × StoreState :=
  let key := replayStoreKey crypto peer id
  finish key s (updateHeld storage s key consumeRow)

def releaseRow (row : ReplayRow) : Except Thrown ReplayRow :=
  .ok ⟨row.peer, row.id, row.envelopeHash, .available, none, none, none, none⟩

def release (s : StoreState) : Except Thrown Unit × StoreState :=
  let key := replayStoreKey crypto peer id
  match updateHeld storage s key releaseRow with
  | .error e => (.error e, s)
  | .ok (_, rows) => (.ok (), ⟨rows, forget s.owners key⟩)

end SqliteReplay

end Flashclaw.Reef
