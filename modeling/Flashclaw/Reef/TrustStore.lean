import Flashclaw.Lib.JsMap
import Flashclaw.Lib.Utf16Text
import Flashclaw.OcPath.Segments
import Flashclaw.Reef.Audit
import Flashclaw.Reef.Identity

/-!
# Reef: peer trust

`trust-store.ts`: the row of one peer and the operations on it, each an atomic
update of the keyed store.  Request ids are the UUIDs of the store; what the
deliveries of a peer do to other rows is left out.
-/

namespace Flashclaw.Reef

open Utf16

inductive ReefAutonomy where
  | notifyOnly
  | bounded
  | extended
deriving DecidableEq

structure ReefPeerTrust where
  autonomy : ReefAutonomy
  ed25519PublicKey : Utf16
  x25519PublicKey : Utf16
  keyEpoch : ℕ
  safetyNumberChanged : Bool
  approvedAt : ℕ
deriving DecidableEq

structure ReefRejectionNoticeState where
  lastRejectionAt : ℕ
  lastResendAt : Option ℕ
deriving DecidableEq

/-- `ReefPeerStateSnapshot`; an object of requests is a map from their ids. -/
structure ReefPeerState (ι : Type) where
  revision : ℕ
  trust : Option ReefPeerTrust := none
  outboundRequests : Option (JsMap ι ℕ) := none
  rejectionNotice : Option ReefRejectionNoticeState := none

structure RelayFriend where
  peer : Utf16
  ed25519_pub : Utf16
  x25519_pub : Utf16
  key_epoch : ℕ

def MAX_SAFE_INTEGER : ℕ := 2 ^ 53 - 1

/-- `PublicKeySchema`. -/
def isPublicKey (key : Utf16) : Bool :=
  key.length = 43 && key.all fun c => isHandlePart c

/-- `ReefPeerTrustSchema`. -/
def ReefPeerTrust.isValid (trust : ReefPeerTrust) : Bool :=
  isPublicKey trust.ed25519PublicKey && isPublicKey trust.x25519PublicKey &&
    (0 < trust.keyEpoch && trust.keyEpoch ≤ MAX_SAFE_INTEGER) &&
    trust.approvedAt ≤ MAX_SAFE_INTEGER

/-- `ReefRejectionNoticeStateSchema`. -/
def ReefRejectionNoticeState.isValid (state : ReefRejectionNoticeState) : Bool :=
  state.lastRejectionAt ≤ MAX_SAFE_INTEGER && state.lastResendAt.all (· ≤ MAX_SAFE_INTEGER)

namespace ReefPeerState

variable {ι : Type} [DecidableEq ι]

/-- `ReefPeerStateSchema`. -/
def isValid (state : ReefPeerState ι) : Bool :=
  state.revision ≤ MAX_SAFE_INTEGER && state.trust.all ReefPeerTrust.isValid &&
    state.outboundRequests.all (fun requests => requests.values.all (· ≤ MAX_SAFE_INTEGER)) &&
    state.rejectionNotice.all ReefRejectionNoticeState.isValid

/-- `current.outboundRequests?.[requestId] !== undefined` -/
def hasRequest (state : ReefPeerState ι) (requestId : ι) : Bool :=
  (state.outboundRequests.bind fun requests => requests.get? requestId).isSome

def hasOutboundRequests (state : ReefPeerState ι) : Bool :=
  0 < (state.outboundRequests.map (·.size)).getD 0

end ReefPeerState

namespace ReefTrustStore

inductive Thrown where
  | invalidRow
  | invalidInput
  | notTrusted
  | notPersisted
  | store
deriving DecidableEq

/-- What a call returns or throws; one that returns nothing returns `true` here. -/
abbrev Outcome := Except Thrown Bool

section Operations

variable {ι : Type} [DecidableEq ι]

/-- The row of a peer, as one store has it. -/
abbrev Row (ι : Type) := Option (ReefPeerState ι)

/-- `#parseState`; `none` where the schema refuses the row. -/
def parseState (row : Row ι) : Option (ReefPeerState ι) :=
  match row with
  | none => some { revision := 0 }
  | some state => if state.isValid then some state else none

/-- The store's `update`, which may also refuse to write. -/
def update (accepts : Bool) (row : Row ι)
    (f : ReefPeerState ι → Option (ReefPeerState ι)) : Row ι × Outcome :=
  match parseState row with
  | none => (row, .error .invalidRow)
  | some current =>
    match f current with
    | none => (row, .ok false)
    | some next => if accepts then (some next, .ok true) else (row, .error .store)

def set (accepts : Bool) (row : Row ι) (trust : ReefPeerTrust) : Row ι × Outcome :=
  if trust.isValid then
    update accepts row fun current =>
      some { current with revision := current.revision + 1, trust := some trust }
  else (row, .error .invalidInput)

/-- Keeps a revision tombstone. -/
def remove (accepts : Bool) (row : Row ι) : Row ι × Outcome :=
  update accepts row fun current => some { revision := current.revision + 1 }

def setAutonomy (accepts : Bool) (row : Row ι) (autonomy : ReefAutonomy) : Row ι × Outcome :=
  let result := update accepts row fun current =>
    match current.trust with
    | none => none
    | some trust => some { current with trust := some { trust with autonomy := autonomy } }
  if result.2 = .ok false then (result.1, .error .notTrusted) else result

def markSafetyNumberChanged (accepts : Bool) (row : Row ι) (expectedRevision : ℕ) :
    Row ι × Outcome :=
  update accepts row fun current =>
    match current.trust with
    | none => none
    | some trust =>
      if current.revision ≠ expectedRevision then none
      else some { current with
        revision := current.revision + 1
        trust := some { trust with safetyNumberChanged := true } }

structure CommitOptions (ι : Type) where
  expectedRevision : ℕ
  expectedOutboundRequestId : Option ι := none

def commitPeerTrust (accepts : Bool) (row : Row ι) (friend : RelayFriend)
    (options : CommitOptions ι) (approvedAt : ℕ) : Row ι × Outcome :=
  update accepts row fun current =>
    if current.revision ≠ options.expectedRevision ∨
        options.expectedOutboundRequestId.any (fun id => !current.hasRequest id) then none
    else some {
      revision := current.revision + 1
      trust := some {
        autonomy := (current.trust.map (·.autonomy)).getD .bounded
        ed25519PublicKey := friend.ed25519_pub
        x25519PublicKey := friend.x25519_pub
        keyEpoch := friend.key_epoch
        safetyNumberChanged := false
        approvedAt := approvedAt }
      rejectionNotice := current.rejectionNotice }

def recordOutboundRequest (accepts : Bool) (row : Row ι) (requestId : ι) (requestedAt : ℕ) :
    Row ι × Outcome :=
  let result := update accepts row fun current =>
    some { current with
      outboundRequests := some ((current.outboundRequests.getD .empty).set requestId requestedAt) }
  if result.2 = .ok false then (result.1, .error .notPersisted) else result

def removeOutboundRequest (accepts : Bool) (row : Row ι) (requestId : Option ι) :
    Row ι × Outcome :=
  update accepts row fun current =>
    if !current.hasOutboundRequests then none
    else
      match requestId with
      | none => some { current with outboundRequests := none }
      | some id =>
        if !current.hasRequest id then none
        else
          let remaining := (current.outboundRequests.getD .empty).delete id
          if remaining.size = 0 then some { current with outboundRequests := none }
          else some { current with outboundRequests := some remaining }

/-- The update of the peer's row. -/
def completeOutboundRejection (accepts : Bool) (row : Row ι) (noticeState : ReefRejectionNoticeState) :
    Row ι × Outcome :=
  if noticeState.isValid then
    update accepts row fun current =>
      let previous := current.rejectionNotice
      let hasResendAt :=
        (previous.bind (·.lastResendAt)).isSome || noticeState.lastResendAt.isSome
      some { current with
        rejectionNotice := some {
          lastRejectionAt :=
            max ((previous.map (·.lastRejectionAt)).getD 0) noticeState.lastRejectionAt
          lastResendAt :=
            if hasResendAt then
              some (max ((previous.bind (·.lastResendAt)).getD 0)
                (noticeState.lastResendAt.getD 0))
            else none } }
  else (row, .error .invalidInput)

/-- A call, on any instance of the store. -/
inductive TrustCall (ι : Type) where
  | set (trust : ReefPeerTrust)
  | remove
  | setAutonomy (autonomy : ReefAutonomy)
  | markSafetyNumberChanged (expectedRevision : ℕ)
  | commitPeerTrust (friend : RelayFriend) (options : CommitOptions ι) (approvedAt : ℕ)
  | recordOutboundRequest (requestId : ι) (requestedAt : ℕ)
  | removeOutboundRequest (requestId : Option ι)
  | completeOutboundRejection (state : ReefRejectionNoticeState)

def TrustCall.apply (call : TrustCall ι) (accepts : Bool) (row : Row ι) : Row ι × Outcome :=
  match call with
  | .set trust => ReefTrustStore.set accepts row trust
  | .remove => ReefTrustStore.remove accepts row
  | .setAutonomy autonomy => ReefTrustStore.setAutonomy accepts row autonomy
  | .markSafetyNumberChanged expectedRevision =>
    ReefTrustStore.markSafetyNumberChanged accepts row expectedRevision
  | .commitPeerTrust friend options approvedAt =>
    ReefTrustStore.commitPeerTrust accepts row friend options approvedAt
  | .recordOutboundRequest requestId requestedAt =>
    ReefTrustStore.recordOutboundRequest accepts row requestId requestedAt
  | .removeOutboundRequest requestId => ReefTrustStore.removeOutboundRequest accepts row requestId
  | .completeOutboundRejection state => ReefTrustStore.completeOutboundRejection accepts row state

end Operations

/-- What an approval rests on: SHA-256 and the Unicode tables of `toLowerCase`. -/
structure ApprovalHost where
  sha256 : Bytes → Bytes
  toLowerCase : Utf16 → Utf16

section Approvals

variable (host : ApprovalHost)

def REEF_PAIRING_APPROVAL_PREFIX : Utf16 := ofString "reef-approval-v1:"

/-- `/^(reef:|@)/i` -/
def stripScheme (target : Utf16) : Utf16 :=
  let lower (c : CodeUnit) : CodeUnit := if inRange 'A' 'Z' c then c + 0x20 else c
  if (target.take 5).map lower = ofString "reef:" then target.drop 5
  else if target.head? = some (unit '@') then target.tail
  else target

/-- `HandleSchema`. -/
def isTargetHandle (handle : Utf16) : Bool :=
  isHandle handle && handle.all fun c => !inRange 'A' 'Z' c

def normalizeReefTarget (raw : Utf16) : Option Utf16 :=
  let target := host.toLowerCase (stripScheme (trim raw))
  if isTargetHandle target then some target else none

def resolvePairingKeyDigest (friend : RelayFriend) (trustRevision : ℕ) : Utf16 :=
  hex (host.sha256 (utf8 (friend.peer ++ unit '\n' :: (OcPath.natText friend.key_epoch ++ unit '\n' ::
    (OcPath.natText trustRevision ++ unit '\n' :: (friend.ed25519_pub ++ unit '\n' ::
      friend.x25519_pub))))))

/-- `none` where the peer is no handle, for which it throws. -/
def createPairingApproval (identityScope : Utf16) (friend : RelayFriend) (trustRevision : ℕ) :
    Option Utf16 :=
  (normalizeReefTarget host friend.peer).map fun peer =>
    REEF_PAIRING_APPROVAL_PREFIX ++ (identityScope ++ unit ':' :: (peer ++ unit ':' ::
      (OcPath.natText friend.key_epoch ++ unit ':' :: (OcPath.natText trustRevision ++ unit ':' ::
        resolvePairingKeyDigest host friend trustRevision))))

/-- At the revision that the row has. -/
def matchesPairingApproval {ι : Type} (identityScope : Utf16) (row : Row ι) (raw : Utf16)
    (friend : RelayFriend) : Option Bool :=
  (parseState row).bind fun state =>
    (createPairingApproval host identityScope friend state.revision).map fun token =>
      trim raw = token

end Approvals

end ReefTrustStore

end Flashclaw.Reef
