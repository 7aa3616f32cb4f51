import Flashclaw.Reef.Chain
import Flashclaw.Reef.TrustStore

/-!
# Reef: revocations

What holds of one peer's row over every run of calls: revisions fence what was read
before a change, and requests are used up, withdrawn and revoked for good.
-/

namespace Flashclaw.Reef.ReefTrustStore

open Utf16

variable {ι : Type} [DecidableEq ι]

def revision (row : Row ι) : ℕ := (row.map (·.revision)).getD 0

/-- The pinned keys, the key epoch, the flag, and whether there is trust at all. -/
def pins (row : Row ι) : Option (Utf16 × Utf16 × ℕ × Bool) :=
  (row.bind (·.trust)).map fun trust =>
    (trust.ed25519PublicKey, trust.x25519PublicKey, trust.keyEpoch, trust.safetyNumberChanged)

def requested (row : Row ι) (id : ι) : Bool := row.any (·.hasRequest id)

/-- The state that a call makes of another. -/
def Writes (current next : ReefPeerState ι) : TrustCall ι → Prop
  | .set trust =>
    next = { current with revision := current.revision + 1, trust := some trust }
  | .remove => next = { revision := current.revision + 1 }
  | .setAutonomy autonomy => ∃ trust, current.trust = some trust ∧
    next = { current with trust := some { trust with autonomy := autonomy } }
  | .markSafetyNumberChanged expectedRevision => current.revision = expectedRevision ∧
    ∃ trust, next = { current with revision := current.revision + 1, trust := some trust }
  | .commitPeerTrust _ options _ => current.revision = options.expectedRevision ∧
    (∀ id, options.expectedOutboundRequestId = some id → current.hasRequest id = true) ∧
    ∃ trust, next =
      { revision := current.revision + 1
        trust := some trust
        rejectionNotice := current.rejectionNotice }
  | .recordOutboundRequest requestId requestedAt => next = { current with
      outboundRequests :=
        some ((current.outboundRequests.getD .empty).set requestId requestedAt) }
  | .removeOutboundRequest requestId => ∃ requests, next = { current with
      outboundRequests := requests } ∧
    ∀ id, next.hasRequest id = (current.hasRequest id && !(requestId.all (· = id)))
  | .completeOutboundRejection _ => ∃ notice, next = { current with rejectionNotice := notice }

/-- A call leaves the row as it is, or has written. -/
def Applied (call : TrustCall ι) (row : Row ι) (result : Row ι × Outcome) : Prop :=
  (result.1 = row ∧ result.2 ≠ .ok true) ∨
    ∃ current next, parseState row = some current ∧ Writes current next call ∧
      result = (some next, .ok true)

theorem applied_update {call : TrustCall ι} {accepts : Bool} {row : Row ι}
    {f : ReefPeerState ι → Option (ReefPeerState ι)}
    (h : ∀ current next, f current = some next → Writes current next call) :
    Applied call row (update accepts row f) := by
  unfold update
  cases hparse : parseState row with
  | none => exact .inl ⟨rfl, by rintro ⟨⟩⟩
  | some current =>
    dsimp only
    cases hnext : f current with
    | none => exact .inl ⟨rfl, by rintro ⟨⟩⟩
    | some next =>
      cases accepts with
      | false => exact .inl ⟨rfl, by rintro ⟨⟩⟩
      | true => exact .inr ⟨current, next, hparse, h current next hnext, rfl⟩

/-- Calls that throw where nothing was written. -/
theorem Applied.throwing {call : TrustCall ι} {row : Row ι} {result : Row ι × Outcome}
    (h : Applied call row result) (e : Thrown) :
    Applied call row (if result.2 = .ok false then (result.1, .error e) else result) := by
  by_cases hfalse : result.2 = .ok false
  · rw [if_pos hfalse]
    rcases h with ⟨hrow, -⟩ | ⟨current, next, -, -, heq⟩
    · exact .inl ⟨hrow, by rintro ⟨⟩⟩
    · rw [heq] at hfalse
      cases hfalse
  · rw [if_neg hfalse]
    exact h

theorem hasRequest_delete (state : ReefPeerState ι) (requestId id : ι) :
    (((state.outboundRequests.getD .empty).delete requestId).get? id).isSome =
      (state.hasRequest id && !(decide (requestId = id))) := by
  have hget : (state.outboundRequests.getD .empty).get? id =
      state.outboundRequests.bind fun requests => requests.get? id := by
    cases state.outboundRequests with
    | none => rfl
    | some requests => rfl
  rw [JsMap.get?_delete, hget]
  unfold ReefPeerState.hasRequest
  by_cases hid : id = requestId
  · simp [hid]
  · simp [hid, Ne.symm hid]

theorem get?_eq_none_of_size {κ ν : Type} [DecidableEq κ] {m : JsMap κ ν} (h : m.size = 0)
    (k : κ) : m.get? k = none := by
  have hnil : m.entries = [] := List.length_eq_zero_iff.mp h
  unfold JsMap.get?
  rw [hnil]
  rfl

theorem writes_removeOutboundRequest {current next : ReefPeerState ι} {requestId : Option ι}
    (h : (if !current.hasOutboundRequests then none
      else
        match requestId with
        | none => some { current with outboundRequests := none }
        | some id =>
          if !current.hasRequest id then none
          else
            let remaining := (current.outboundRequests.getD .empty).delete id
            if remaining.size = 0 then some { current with outboundRequests := none }
            else some { current with outboundRequests := some remaining }) = some next) :
    Writes current next (.removeOutboundRequest requestId) := by
  split at h
  · cases h
  · cases requestId with
    | none =>
      obtain rfl := Option.some.inj h
      refine ⟨none, rfl, ?_⟩
      intro id
      simp [ReefPeerState.hasRequest]
    | some requestId =>
      dsimp only at h
      split at h
      · cases h
      · split at h
        · rename_i hsize
          obtain rfl := Option.some.inj h
          refine ⟨none, rfl, ?_⟩
          intro id
          have := hasRequest_delete current requestId id
          rw [get?_eq_none_of_size hsize] at this
          simpa [ReefPeerState.hasRequest] using this
        · obtain rfl := Option.some.inj h
          refine ⟨_, rfl, ?_⟩
          intro id
          simpa [ReefPeerState.hasRequest] using hasRequest_delete current requestId id

theorem applied_apply (call : TrustCall ι) (accepts : Bool) (row : Row ι) :
    Applied call row (call.apply accepts row) := by
  cases call with
  | set trust =>
    show Applied _ row (set accepts row trust)
    unfold set
    split
    · apply applied_update
      intro current next h
      exact (Option.some.inj h).symm
    · exact .inl ⟨rfl, by rintro ⟨⟩⟩
  | remove =>
    apply applied_update
    intro current next h
    exact (Option.some.inj h).symm
  | setAutonomy autonomy =>
    apply Applied.throwing
    apply applied_update
    intro current next h
    cases htrust : current.trust with
    | none =>
      rw [htrust] at h
      cases h
    | some trust =>
      rw [htrust] at h
      exact ⟨trust, htrust, (Option.some.inj h).symm⟩
  | markSafetyNumberChanged expectedRevision =>
    apply applied_update
    intro current next h
    cases htrust : current.trust with
    | none =>
      rw [htrust] at h
      cases h
    | some trust =>
      rw [htrust] at h
      dsimp only at h
      split at h
      · cases h
      · rename_i hrevision
        exact ⟨not_not.mp hrevision, _, (Option.some.inj h).symm⟩
  | commitPeerTrust friend options approvedAt =>
    apply applied_update
    intro current next h
    split at h
    · cases h
    · -- the fence: the revision and the request are those that the call was made for
      rename_i hfence
      rw [not_or, not_not] at hfence
      obtain ⟨hrevision, hrequest⟩ := hfence
      refine ⟨hrevision, ?_, _, (Option.some.inj h).symm⟩
      intro id hid
      rw [hid] at hrequest
      simpa using hrequest
  | recordOutboundRequest requestId requestedAt =>
    apply Applied.throwing
    apply applied_update
    intro current next h
    exact (Option.some.inj h).symm
  | removeOutboundRequest requestId =>
    apply applied_update
    intro current next h
    exact writes_removeOutboundRequest h
  | completeOutboundRejection state =>
    show Applied _ row (completeOutboundRejection accepts row state)
    unfold completeOutboundRejection
    split
    · apply applied_update
      intro current next h
      exact ⟨_, (Option.some.inj h).symm⟩
    · exact .inl ⟨rfl, by rintro ⟨⟩⟩

theorem parseState_eq {row : Row ι} {current : ReefPeerState ι}
    (h : parseState row = some current) : revision row = current.revision ∧
      pins row = pins (some current) ∧ ∀ id, requested row id = current.hasRequest id := by
  cases row with
  | none =>
    obtain rfl := Option.some.inj h
    exact ⟨rfl, rfl, fun _ => rfl⟩
  | some state =>
    unfold parseState at h
    dsimp only at h
    split at h
    · obtain rfl := Option.some.inj h
      exact ⟨rfl, rfl, fun _ => rfl⟩
    · cases h

section Call

variable (call : TrustCall ι) (accepts : Bool) (row : Row ι)

/-- A change of the pins takes the next revision. -/
theorem revision_apply : revision row ≤ revision (call.apply accepts row).1 ∧
    (pins (call.apply accepts row).1 ≠ pins row →
      revision row < revision (call.apply accepts row).1) := by
  rcases applied_apply call accepts row with ⟨hrow, -⟩ | ⟨current, next, hparse, hwrites, happly⟩
  · rw [hrow]
    exact ⟨le_rfl, fun h => absurd rfl h⟩
  · obtain ⟨hrevision, hpins, -⟩ := parseState_eq hparse
    rw [happly, hrevision, hpins]
    show _ ≤ next.revision ∧ (_ → _ < next.revision)
    have hbump (h : next.revision = current.revision + 1) : current.revision ≤ next.revision ∧
        (pins (some next) ≠ pins (some current) → current.revision < next.revision) :=
      ⟨by omega, fun _ => by omega⟩
    have hkeep (h : next.revision = current.revision)
        (hsame : pins (some next) = pins (some current)) : current.revision ≤ next.revision ∧
        (pins (some next) ≠ pins (some current) → current.revision < next.revision) :=
      ⟨h.ge, fun hne => absurd hsame hne⟩
    cases call with
    | set trust =>
      obtain rfl : next = _ := hwrites
      exact hbump rfl
    | remove =>
      obtain rfl : next = _ := hwrites
      exact hbump rfl
    | setAutonomy autonomy =>
      obtain ⟨trust, htrust, rfl⟩ := hwrites
      apply hkeep rfl
      unfold pins
      rw [Option.bind_some, Option.bind_some, htrust]
      rfl
    | markSafetyNumberChanged expectedRevision =>
      obtain ⟨-, trust, rfl⟩ := hwrites
      exact hbump rfl
    | commitPeerTrust friend options approvedAt =>
      obtain ⟨-, -, trust, rfl⟩ := hwrites
      exact hbump rfl
    | recordOutboundRequest requestId requestedAt =>
      obtain rfl : next = _ := hwrites
      exact hkeep rfl rfl
    | removeOutboundRequest requestId =>
      obtain ⟨requests, rfl, -⟩ := hwrites
      exact hkeep rfl rfl
    | completeOutboundRejection state =>
      obtain ⟨notice, rfl⟩ := hwrites
      exact hkeep rfl rfl

/-- A request is there behind a call only if it was there before or is recorded by it. -/
theorem requested_apply (id : ι) (hrecord : ∀ requestedAt, call ≠ .recordOutboundRequest id requestedAt)
    (h : requested (call.apply accepts row).1 id = true) : requested row id = true := by
  rcases applied_apply call accepts row with ⟨hrow, -⟩ | ⟨current, next, hparse, hwrites, happly⟩
  · rw [hrow] at h
    exact h
  · obtain ⟨-, -, hrequested⟩ := parseState_eq hparse
    rw [happly] at h
    rw [hrequested]
    have h : next.hasRequest id = true := h
    cases call with
    | set trust =>
      obtain rfl : next = _ := hwrites
      exact h
    | remove =>
      obtain rfl : next = _ := hwrites
      cases h
    | setAutonomy autonomy =>
      obtain ⟨trust, -, rfl⟩ := hwrites
      exact h
    | markSafetyNumberChanged expectedRevision =>
      obtain ⟨-, trust, rfl⟩ := hwrites
      exact h
    | commitPeerTrust friend options approvedAt =>
      obtain ⟨-, -, trust, rfl⟩ := hwrites
      cases h
    | recordOutboundRequest requestId requestedAt =>
      obtain rfl : next = _ := hwrites
      have hne : requestId ≠ id := by
        rintro rfl
        exact hrecord requestedAt rfl
      unfold ReefPeerState.hasRequest at h
      rw [Option.bind_some, JsMap.get?_set_ne _ _ hne] at h
      unfold ReefPeerState.hasRequest
      cases hrequests : current.outboundRequests with
      | none =>
        rw [hrequests] at h
        cases h
      | some requests =>
        rw [hrequests] at h
        exact h
    | removeOutboundRequest requestId =>
      obtain ⟨requests, -, hkept⟩ := hwrites
      rw [hkept] at h
      exact (Bool.and_eq_true_iff.mp h).1
    | completeOutboundRejection state =>
      obtain ⟨notice, rfl⟩ := hwrites
      exact h

/-- Trust that was not there comes from a `set` or from a commit at the revision of the row. -/
theorem trusted_apply (h : (pins (call.apply accepts row).1).isSome = true)
    (hnone : pins row = none) : (call.apply accepts row).2 = .ok true ∧
      ((∃ trust, call = .set trust) ∨ ∃ friend options approvedAt,
        call = .commitPeerTrust friend options approvedAt ∧
          options.expectedRevision = revision row) := by
  rcases applied_apply call accepts row with ⟨hrow, -⟩ | ⟨current, next, hparse, hwrites, happly⟩
  · rw [hrow, hnone] at h
    cases h
  · obtain ⟨hrevision, hpins, -⟩ := parseState_eq hparse
    have hcurrent : current.trust = none := by
      rw [hpins] at hnone
      exact Option.map_eq_none_iff.mp hnone
    rw [happly] at h ⊢
    refine ⟨rfl, ?_⟩
    have hnext : next.trust.isSome = true := by
      rw [← Option.isSome_map]
      exact h
    cases call with
    | set trust => exact .inl ⟨trust, rfl⟩
    | remove =>
      obtain rfl : next = _ := hwrites
      cases hnext
    | setAutonomy autonomy =>
      obtain ⟨trust, htrust, -⟩ := hwrites
      rw [hcurrent] at htrust
      cases htrust
    | markSafetyNumberChanged expectedRevision =>
      -- the call refuses to flag a peer without trust
      exfalso
      have happly : markSafetyNumberChanged accepts row expectedRevision =
          (some next, .ok true) := happly
      unfold markSafetyNumberChanged update at happly
      rw [hparse] at happly
      dsimp only at happly
      rw [hcurrent] at happly
      cases (Prod.mk.inj happly).2
    | commitPeerTrust friend options approvedAt =>
      obtain ⟨hexpected, -⟩ := hwrites
      exact .inr ⟨friend, options, approvedAt, rfl, by rw [hrevision, hexpected]⟩
    | recordOutboundRequest requestId requestedAt =>
      obtain rfl : next = _ := hwrites
      rw [hcurrent] at hnext
      cases hnext
    | removeOutboundRequest requestId =>
      obtain ⟨requests, rfl, -⟩ := hwrites
      rw [hcurrent] at hnext
      cases hnext
    | completeOutboundRejection state =>
      obtain ⟨notice, rfl⟩ := hwrites
      rw [hcurrent] at hnext
      cases hnext

end Call

/-- A call that neither succeeds nor changes anything; it returns `false` unless the row itself
is refused. -/
def Refused (row : Row ι) (result : Row ι × Outcome) : Prop :=
  result.1 = row ∧ result.2 ≠ .ok true ∧ ((parseState row).isSome = true → result.2 = .ok false)

omit [DecidableEq ι] in
theorem refused_update {accepts : Bool} {row : Row ι}
    {f : ReefPeerState ι → Option (ReefPeerState ι)}
    (h : ∀ current, parseState row = some current → f current = none) :
    Refused row (update accepts row f) := by
  unfold update
  cases hparse : parseState row with
  | none => exact ⟨rfl, by rintro ⟨⟩, by rw [hparse]; rintro ⟨⟩⟩
  | some current =>
    dsimp only
    rw [h current hparse]
    exact ⟨rfl, by rintro ⟨⟩, fun _ => rfl⟩

theorem refused_mark {accepts : Bool} {row : Row ι} {expectedRevision : ℕ}
    (h : expectedRevision ≠ revision row) :
    Refused row (markSafetyNumberChanged accepts row expectedRevision) := by
  apply refused_update
  intro current hparse
  cases current.trust with
  | none => rfl
  | some trust =>
    dsimp only
    rw [if_pos]
    rw [← (parseState_eq hparse).1]
    exact Ne.symm h

theorem refused_commit {accepts : Bool} {row : Row ι} {friend : RelayFriend}
    {options : CommitOptions ι} {approvedAt : ℕ} (h : options.expectedRevision ≠ revision row ∨
      ∃ id, options.expectedOutboundRequestId = some id ∧ requested row id = false) :
    Refused row (commitPeerTrust accepts row friend options approvedAt) := by
  apply refused_update
  intro current hparse
  obtain ⟨hrevision, -, hrequested⟩ := parseState_eq hparse
  rw [if_pos]
  rcases h with h | ⟨id, hid, hnone⟩
  · left
    rw [← hrevision]
    exact Ne.symm h
  · right
    rw [hid]
    rw [hrequested] at hnone
    simp [hnone]

/-- Calls one after the other, each with whether the store accepts a write. -/
abbrev Calls (ι : Type) := List (TrustCall ι × Bool)

def run (row : Row ι) (calls : Calls ι) : Row ι :=
  calls.foldl (fun row call => (call.1.apply call.2 row).1) row

theorem run_cons (row : Row ι) (call : TrustCall ι × Bool) (calls : Calls ι) :
    run row (call :: calls) = run (call.1.apply call.2 row).1 calls := rfl

/-- Some call of a run changes the pins. -/
def Changes (row : Row ι) (calls : Calls ι) : Prop :=
  ∃ before call after, calls = before ++ call :: after ∧
    pins (TrustCall.apply call.1 call.2 (run row before)).1 ≠ pins (run row before)

theorem changes_cons {row : Row ι} {call : TrustCall ι × Bool} {calls : Calls ι}
    (h : Changes row (call :: calls)) : pins (call.1.apply call.2 row).1 ≠ pins row ∨
      Changes (call.1.apply call.2 row).1 calls := by
  obtain ⟨before, c, after, heq, hpins⟩ := h
  cases before with
  | nil =>
    obtain ⟨rfl, -⟩ := List.cons.inj heq
    exact .inl hpins
  | cons b before =>
    obtain ⟨rfl, rfl⟩ := List.cons.inj heq
    exact .inr ⟨before, c, after, rfl, hpins⟩

theorem revision_run (row : Row ι) (calls : Calls ι) : revision row ≤ revision (run row calls) ∧
    (Changes row calls → revision row < revision (run row calls)) := by
  induction calls generalizing row with
  | nil =>
    refine ⟨le_rfl, ?_⟩
    rintro ⟨before, call, after, heq, -⟩
    cases before <;> cases heq
  | cons call calls ih =>
    obtain ⟨hle, hlt⟩ := revision_apply call.1 call.2 row
    obtain ⟨hle', hlt'⟩ := ih (call.1.apply call.2 row).1
    rw [run_cons]
    refine ⟨hle.trans hle', ?_⟩
    intro hchanges
    rcases changes_cons hchanges with h | h
    · exact (hlt h).trans_le hle'
    · exact hle.trans_lt (hlt' h)

/-- No call of a run records the id, which is a fresh one each time. -/
def Unrecorded (id : ι) (calls : Calls ι) : Prop :=
  ∀ call ∈ calls, ∀ requestedAt, call.1 ≠ .recordOutboundRequest id requestedAt

theorem requested_run {row : Row ι} {id : ι} {calls : Calls ι} (hcalls : Unrecorded id calls)
    (h : requested row id = false) : requested (run row calls) id = false := by
  induction calls generalizing row with
  | nil => exact h
  | cons call calls ih =>
    apply ih fun c hc => hcalls c (List.mem_cons_of_mem call hc)
    cases hrequested : requested (call.1.apply call.2 row).1 id with
    | false => rfl
    | true =>
      rw [requested_apply call.1 call.2 row id (hcalls call List.mem_cons_self) hrequested] at h
      cases h

/-- Where trust comes from in a run that starts without any. -/
theorem trusted_run {row : Row ι} {calls : Calls ι} (hnone : pins row = none)
    (h : (pins (run row calls)).isSome = true) :
    ∃ before call after, calls = before ++ call :: after ∧
      (TrustCall.apply call.1 call.2 (run row before)).2 = .ok true ∧
      ((∃ trust, call.1 = .set trust) ∨ ∃ friend options approvedAt,
        call.1 = .commitPeerTrust friend options approvedAt ∧
          options.expectedRevision = revision (run row before)) := by
  induction calls generalizing row with
  | nil =>
    rw [show run row [] = row from rfl, hnone] at h
    cases h
  | cons call calls ih =>
    cases hpins : pins (call.1.apply call.2 row).1 with
    | none =>
      obtain ⟨before, c, after, rfl, hok, hsource⟩ := ih hpins h
      exact ⟨call :: before, c, after, rfl, hok, hsource⟩
    | some found =>
      obtain ⟨hok, hsource⟩ := trusted_apply call.1 call.2 row (by rw [hpins]; rfl) hnone
      exact ⟨[], call, calls, rfl, hok, hsource⟩

/-- No commit that is bound to the id succeeds any more. -/
def Dead (row : Row ι) (id : ι) : Prop :=
  ∀ calls, Unrecorded id calls → ∀ accepts friend options approvedAt,
    options.expectedOutboundRequestId = some id →
    Refused (run row calls) (commitPeerTrust accepts (run row calls) friend options approvedAt)

theorem dead_of_requested {row : Row ι} {id : ι} (h : requested row id = false) : Dead row id := by
  intro calls hcalls accepts friend options approvedAt hid
  exact refused_commit (.inr ⟨id, hid, requested_run hcalls h⟩)

theorem requested_commit {accepts : Bool} {row : Row ι} {friend : RelayFriend}
    {options : CommitOptions ι} {approvedAt : ℕ}
    (h : (commitPeerTrust accepts row friend options approvedAt).2 = .ok true) (id : ι) :
    requested (commitPeerTrust accepts row friend options approvedAt).1 id = false := by
  rcases applied_apply (.commitPeerTrust friend options approvedAt) accepts row with
    ⟨-, hfalse⟩ | ⟨current, next, -, hwrites, happly⟩
  · exact absurd h hfalse
  · have happly : commitPeerTrust accepts row friend options approvedAt = (some next, .ok true) :=
      happly
    obtain ⟨-, -, trust, rfl⟩ := hwrites
    rw [happly]
    rfl

theorem requested_remove {accepts : Bool} {row : Row ι} (h : (remove accepts row).2 = .ok true)
    (id : ι) : requested (remove accepts row).1 id = false := by
  rcases applied_apply .remove accepts row with ⟨-, hfalse⟩ | ⟨current, next, -, hwrites, happly⟩
  · exact absurd h hfalse
  · have happly : remove accepts row = (some next, .ok true) := happly
    obtain rfl : next = _ := hwrites
    rw [happly]
    rfl

/-- Withdrawn, whether the call has found the request or not. -/
theorem requested_removeOutboundRequest {accepts : Bool} {row : Row ι} {requestId : Option ι}
    {found : Bool} (h : (removeOutboundRequest accepts row requestId).2 = .ok found) (id : ι)
    (hid : requestId.all (· = id) = true) :
    requested (removeOutboundRequest accepts row requestId).1 id = false := by
  rcases applied_apply (.removeOutboundRequest requestId) accepts row with
    ⟨hrow, hfalse⟩ | ⟨current, next, -, hwrites, happly⟩
  · have hrow : (removeOutboundRequest accepts row requestId).1 = row := hrow
    have hfalse : (removeOutboundRequest accepts row requestId).2 ≠ .ok true := hfalse
    rw [hrow]
    cases hparse : parseState row with
    | none =>
      unfold removeOutboundRequest update at h
      rw [hparse] at h
      cases h
    | some current =>
      rw [(parseState_eq hparse).2.2]
      cases hhas : current.hasRequest id with
      | false => rfl
      | true =>
        -- what is there is found, and then the call does not return `false`
        exfalso
        have hsome : current.hasOutboundRequests = true := by
          unfold ReefPeerState.hasRequest at hhas
          unfold ReefPeerState.hasOutboundRequests
          cases hrequests : current.outboundRequests with
          | none =>
            rw [hrequests] at hhas
            cases hhas
          | some requests =>
            rw [hrequests, Option.bind_some] at hhas
            rw [Option.map_some, Option.getD_some, decide_eq_true_eq]
            by_contra hsize
            rw [get?_eq_none_of_size (by omega)] at hhas
            cases hhas
        unfold removeOutboundRequest update at h hfalse
        rw [hparse] at h hfalse
        dsimp only at h hfalse
        rw [hsome] at h hfalse
        cases requestId with
        | none =>
          cases accepts with
          | false => cases h
          | true => exact hfalse rfl
        | some requestId =>
          obtain rfl : requestId = id := by simpa using hid
          simp only [hhas, Bool.not_true, Bool.false_eq_true, if_false] at h hfalse
          cases accepts with
          | false =>
            split at h
            · rename_i hnone
              split at hnone <;> cases hnone
            · cases h
          | true =>
            split at hfalse
            · rename_i hnone
              split at hnone <;> cases hnone
            · exact hfalse rfl
  · have happly : removeOutboundRequest accepts row requestId = (some next, .ok true) := happly
    obtain ⟨requests, -, hkept⟩ := hwrites
    rw [happly]
    show next.hasRequest id = false
    rw [hkept, hid, Bool.not_true, Bool.and_false]

theorem pins_remove {accepts : Bool} {row : Row ι} (h : (remove accepts row).2 = .ok true) :
    pins (remove accepts row).1 = none ∧ revision (remove accepts row).1 = revision row + 1 := by
  rcases applied_apply .remove accepts row with ⟨-, hfalse⟩ | ⟨current, next, hparse, hwrites, happly⟩
  · exact absurd h hfalse
  · have happly : remove accepts row = (some next, .ok true) := happly
    obtain rfl : next = _ := hwrites
    rw [happly, (parseState_eq hparse).1]
    exact ⟨rfl, rfl⟩

end Flashclaw.Reef.ReefTrustStore
