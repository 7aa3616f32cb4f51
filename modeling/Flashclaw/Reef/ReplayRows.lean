import Flashclaw.Lib.Results
import Flashclaw.Reef.SqliteReplay

/-!
# Reef: what the replay store does to its rows
-/

namespace Flashclaw.Reef.SqliteReplay

open Utf16 Json Results

section Rows

variable {rows rows' : Utf16 → Option ReplayRow} {storage : Except Thrown Unit} {key : Utf16}

theorem updateRow_eq_ok {α : Type} {result : α}
    {updateValue : Option ReplayRow → Except Thrown (α × Option ReplayRow)}
    (h : updateRow rows storage key updateValue = .ok (result, rows')) :
    ∃ next, updateValue (rows key) = .ok (result, next) ∧
      rows' = next.elim rows fun row => Function.update rows key (some row) := by
  obtain ⟨_, -, h⟩ := bind_eq_ok.mp h
  obtain ⟨current, hcurrent, h⟩ := bind_eq_ok.mp h
  obtain ⟨⟨result', next⟩, hnext, h⟩ := bind_eq_ok.mp h
  obtain ⟨rfl, rfl⟩ := Prod.mk.inj (Except.ok.inj h)
  have hrows : current = rows key := by
    cases hrow : rows key with
    | none =>
      rw [hrow] at hcurrent
      exact (Except.ok.inj hcurrent).symm
    | some row =>
      rw [hrow] at hcurrent
      obtain ⟨row', hparse, hcurrent⟩ := bind_eq_ok.mp hcurrent
      obtain rfl := Except.ok.inj hcurrent
      unfold parseReplayRecord at hparse
      split_ifs at hparse
      rw [Except.ok.inj hparse]
  exact ⟨next, hrows ▸ hnext, rfl⟩

theorem updateRow_eq {α : Type} {result : α} {next : Option ReplayRow}
    {updateValue : Option ReplayRow → Except Thrown (α × Option ReplayRow)}
    (hrow : ∀ row, rows key = some row → isReplayRow row = true)
    (h : updateValue (rows key) = .ok (result, next)) :
    updateRow rows (.ok ()) key updateValue =
      .ok (result, next.elim rows fun row => Function.update rows key (some row)) := by
  have hparse : (rows key).mapM parseReplayRecord = .ok (rows key) := by
    cases hkey : rows key with
    | none => rfl
    | some row =>
      rw [Option.mapM_some, parseReplayRecord, if_pos (hrow row hkey)]
      rfl
  exact bind_eq_ok.mpr ⟨(), rfl, bind_eq_ok.mpr ⟨_, hparse, bind_eq_ok.mpr ⟨_, h, rfl⟩⟩⟩

theorem update_self {row : ReplayRow} (h : rows key = some row) :
    Function.update rows key (some row) = rows := by
  rw [← h, Function.update_eq_self]

/-- A row is changed only where its owner holds it. -/
theorem updateHeld_eq_ok {s : StoreState} {change : ReplayRow → Except Thrown ReplayRow}
    {changed : Bool} (h : updateHeld storage s key change = .ok (changed, rows')) :
    changed = false ∧ rows' = s.rows ∨
      changed = true ∧ ∃ row row', s.rows key = some row ∧ isHeld (s.owners key) row = true ∧
        change row = .ok row' ∧ rows' = Function.update s.rows key (some row') := by
  obtain ⟨next, hnext, rfl⟩ := updateRow_eq_ok h
  cases hheld : (s.rows key).filter (isHeld (s.owners key)) with
  | none =>
    rw [hheld] at hnext
    obtain ⟨rfl, rfl⟩ := Prod.mk.inj (Except.ok.inj hnext)
    refine .inl ⟨rfl, ?_⟩
    cases hrow : s.rows key with
    | none => rfl
    | some row => exact update_self hrow
  | some row =>
    rw [hheld] at hnext
    obtain ⟨row', hchange, hnext⟩ := bind_eq_ok.mp hnext
    obtain ⟨rfl, rfl⟩ := Prod.mk.inj (Except.ok.inj hnext)
    obtain ⟨hrow, hisHeld⟩ := Option.filter_eq_some_iff.mp hheld
    exact .inr ⟨rfl, row, row', hrow, hisHeld, hchange, rfl⟩

end Rows

section Claim

variable {crypto : AuditCrypto} {peer id envelopeHash owner : Utf16} {claimExpiresAt time : ℕ}
  {storage : Except Thrown Unit} {start now : Millis} {s s' : StoreState} {result : ReplayClaim}

/-- A row is bound to the envelope that was claimed first. -/
def IsBound (peer id envelopeHash : Utf16) (row : ReplayRow) : Prop :=
  row.peer = peer ∧ row.id = id ∧ row.envelopeHash = envelopeHash

/-- A row that is completed or consumed. -/
def IsFinal (row : ReplayRow) : Prop := row.state = .completed ∨ row.state = .consumed

theorem claim_eq_ok
    (h : claim crypto peer id storage envelopeHash owner start now s = (.ok result, s')) :
    result = (claimRow peer id envelopeHash owner (start + replayClaimLeaseMs) now
        (s.rows (replayStoreKey crypto peer id))).1 ∧
      s'.rows = Function.update s.rows (replayStoreKey crypto peer id)
        (some (claimRow peer id envelopeHash owner (start + replayClaimLeaseMs) now
          (s.rows (replayStoreKey crypto peer id))).2) ∧
      s'.owners = if result = .new then
        Function.update s.owners (replayStoreKey crypto peer id) (some owner) else s.owners := by
  unfold claim at h
  simp only at h
  split at h
  · cases (Prod.mk.inj h).1
  · rename_i result' rows hupdate
    obtain ⟨next, hnext, rfl⟩ := updateRow_eq_ok hupdate
    obtain ⟨rfl, rfl⟩ := Prod.mk.inj (Except.ok.inj hnext)
    obtain ⟨hresult, rfl⟩ := Prod.mk.inj h
    obtain rfl := Except.ok.inj hresult
    exact ⟨rfl, rfl, rfl⟩

theorem claim_eq_error {e : Thrown}
    (h : claim crypto peer id storage envelopeHash owner start now s = (.error e, s')) :
    s' = s := by
  unfold claim at h
  simp only at h
  split at h
  · exact (Prod.mk.inj h).2.symm
  · cases (Prod.mk.inj h).1

/-- The claims of a row that is there. -/
theorem claimRow_some (row : ReplayRow) :
    (¬ IsBound peer id envelopeHash row ∧
      claimRow peer id envelopeHash owner claimExpiresAt time (some row) = (.mismatch, row)) ∨
    (IsBound peer id envelopeHash row ∧ IsFinal row ∧
      claimRow peer id envelopeHash owner claimExpiresAt time (some row) = (.duplicate, row)) ∨
    (IsBound peer id envelopeHash row ∧ ¬ IsFinal row ∧
      claimRow peer id envelopeHash owner claimExpiresAt time (some row) = (.inFlight, row)) ∨
    (IsBound peer id envelopeHash row ∧ ¬ IsFinal row ∧
      claimRow peer id envelopeHash owner claimExpiresAt time (some row) = (.new, { row with
        state := .inFlight, claimOwner := some owner, claimExpiresAt := some claimExpiresAt })) := by
  unfold IsBound IsFinal claimRow
  simp only
  split_ifs with hbound hfinal hflight
  · exact .inl ⟨by tauto, rfl⟩
  · exact .inr (.inl ⟨by tauto, hfinal, rfl⟩)
  · exact .inr (.inr (.inl ⟨by tauto, hfinal, rfl⟩))
  · exact .inr (.inr (.inr ⟨by tauto, hfinal, rfl⟩))

theorem exists_owner {row : ReplayRow} (h : isReplayRow row = true)
    (hflight : row.state = .inFlight) : ∃ owner, row.claimOwner = some owner := by
  cases howner : row.claimOwner with
  | none => simp [isReplayRow, hflight, howner] at h
  | some owner => exact ⟨owner, rfl⟩

theorem lease_lt (start : Millis) :
    0 < start.val + replayClaimLeaseMs ∧ start.val + replayClaimLeaseMs < 2 ^ 53 := by
  have := start.property
  unfold replayClaimLeaseMs
  omega

theorem isReplayRow_inFlight {row : ReplayRow} {t : ℕ} (hne : owner ≠ [])
    (howner : row.claimOwner = some owner) (hexpires : row.claimExpiresAt = some t) (hpos : 0 < t)
    (hsafe : t < 2 ^ 53) : isReplayRow row = true := by
  simp only [isReplayRow, howner, hexpires, Option.any_some, Bool.or_eq_true, Bool.and_eq_true,
    decide_eq_true_eq]
  exact .inr ⟨hne, hpos, hsafe⟩

theorem isReplayRow_of_lease {row : ReplayRow} (hne : owner ≠ [])
    (howner : row.claimOwner = some owner)
    (hexpires : row.claimExpiresAt = some (start + replayClaimLeaseMs)) :
    isReplayRow row = true :=
  isReplayRow_inFlight hne howner hexpires (lease_lt start).1 (lease_lt start).2

theorem isReplayRow_claimRow (howner : owner ≠ []) {row : Option ReplayRow}
    (h : ∀ r, row = some r → isReplayRow r = true) :
    isReplayRow (claimRow peer id envelopeHash owner (start + replayClaimLeaseMs) time row).2 =
      true := by
  cases row with
  | none => exact isReplayRow_of_lease howner rfl rfl
  | some r =>
    obtain ⟨-, hrow⟩ | ⟨-, -, hrow⟩ | ⟨-, -, hrow⟩ | ⟨-, -, hrow⟩ := claimRow_some r
    · rw [hrow]
      exact h r rfl
    · rw [hrow]
      exact h r rfl
    · rw [hrow]
      exact h r rfl
    · rw [hrow]
      exact isReplayRow_of_lease howner rfl rfl

/-- A claim throws only where the database does. -/
theorem exists_claim_eq_ok
    (h : ∀ r, s.rows (replayStoreKey crypto peer id) = some r → isReplayRow r = true) :
    ∃ result s', claim crypto peer id (.ok ()) envelopeHash owner start now s =
      (.ok result, s') := by
  unfold claim
  simp only
  rw [updateRow_eq h rfl]
  exact ⟨_, _, rfl⟩

/-- What a claim does to the rows and to the owners of its store. -/
theorem claim_effect {result : Except Thrown ReplayClaim} (howner : owner ≠ [])
    (hrows : ∀ r, s.rows (replayStoreKey crypto peer id) = some r → isReplayRow r = true)
    (h : claim crypto peer id storage envelopeHash owner start now s = (result, s')) :
    (result ≠ .ok .new ∧ s'.rows = s.rows ∧ s'.owners = s.owners) ∨
    (result = .ok .new ∧ ∃ row', s'.rows = Function.update s.rows (replayStoreKey crypto peer id)
        (some row') ∧
      s'.owners = Function.update s.owners (replayStoreKey crypto peer id) (some owner) ∧
      isReplayRow row' = true ∧ IsBound peer id envelopeHash row' ∧ row'.claimOwner = some owner ∧
      ∀ row, s.rows (replayStoreKey crypto peer id) = some row →
        IsBound peer id envelopeHash row ∧ ¬ IsFinal row) := by
  cases result with
  | error e =>
    obtain rfl := claim_eq_error h
    exact .inl ⟨by simp, rfl, rfl⟩
  | ok result =>
    obtain ⟨hresult, hrow, howners⟩ := claim_eq_ok h
    cases hexisting : s.rows (replayStoreKey crypto peer id) with
    | none =>
      rw [hexisting] at hresult hrow
      subst hresult
      refine .inr ⟨rfl, _, hrow, howners, ?_, ⟨rfl, rfl, rfl⟩, rfl, by simp⟩
      exact isReplayRow_claimRow howner (by simp)
    | some row =>
      have hparsed : isReplayRow (claimRow peer id envelopeHash owner (start + replayClaimLeaseMs) now
          (some row)).2 = true :=
        isReplayRow_claimRow howner fun r hr => hrows r (hexisting.trans hr)
      rw [hexisting] at hresult hrow
      have hunchanged : ∀ c, claimRow peer id envelopeHash owner (start + replayClaimLeaseMs) now
          (some row) = (c, row) → c ≠ .new → Except.ok result ≠ (.ok .new : Except Thrown _) ∧
          s'.rows = s.rows ∧ s'.owners = s.owners := by
        intro c hclaim hnew
        rw [hclaim] at hresult hrow
        obtain rfl := hresult
        exact ⟨by simpa using hnew, hrow.trans (update_self hexisting), by rw [howners, if_neg hnew]⟩
      obtain ⟨-, hclaim⟩ | ⟨-, -, hclaim⟩ | ⟨-, -, hclaim⟩ | ⟨hbound, hfinal, hclaim⟩ :=
        claimRow_some row
      · exact .inl (hunchanged _ hclaim (by decide))
      · exact .inl (hunchanged _ hclaim (by decide))
      · exact .inl (hunchanged _ hclaim (by decide))
      · rw [hclaim] at hresult hrow hparsed
        subst hresult
        refine .inr ⟨rfl, _, hrow, howners, hparsed, hbound, rfl, ?_⟩
        rintro row' ⟨⟩
        exact ⟨hbound, hfinal⟩

/-- A claim that the database answers tells what the row is. -/
theorem claim_row {row : ReplayRow} {result : Except Thrown ReplayClaim}
    (hrow : s.rows (replayStoreKey crypto peer id) = some row) (hparsed : isReplayRow row = true)
    (h : claim crypto peer id (.ok ()) envelopeHash owner start now s = (result, s')) :
    result = .ok (claimRow peer id envelopeHash owner (start + replayClaimLeaseMs) now
      (some row)).1 := by
  have hrows : ∀ r, s.rows (replayStoreKey crypto peer id) = some r → isReplayRow r = true := by
    rintro r hr
    obtain rfl := Option.some.inj (hrow.symm.trans hr)
    exact hparsed
  obtain ⟨result', s'', h'⟩ := exists_claim_eq_ok hrows
  obtain ⟨rfl, rfl⟩ := Prod.mk.inj (h.symm.trans h')
  rw [(claim_eq_ok h).1, hrow]

end Claim

/-- What a run does with the row that it claimed. -/
inductive Act where
  | refresh (now : Millis)
  | complete (nonce : Bytes) (receipt : SignedReceipt) (body : Option JsValue)
  | consume
  | release

def Act.perform (crypto : AuditCrypto) (bodyKey : Bytes) (peer id : Utf16)
    (storage : Except Thrown Unit) : Act → StoreState → Except Thrown Unit × StoreState
  | refresh now => SqliteReplay.refresh crypto peer id storage now
  | complete nonce receipt body =>
    SqliteReplay.complete crypto peer id storage bodyKey nonce receipt body
  | consume => SqliteReplay.consume crypto peer id storage
  | release => SqliteReplay.release crypto peer id storage

/-- What the operation makes of a row that is held. -/
def Act.change (crypto : AuditCrypto) (bodyKey : Bytes) :
    Act → ReplayRow → Except Thrown ReplayRow
  | refresh now => refreshRow now
  | complete nonce receipt body => completeRow crypto bodyKey nonce receipt body
  | consume => consumeRow
  | release => releaseRow

def Act.isFinal : Act → Bool
  | complete _ _ _ => true
  | consume => true
  | _ => false

/-- What an operation does to the rows and to the owners of its store. -/
structure Performed (crypto : AuditCrypto) (bodyKey : Bytes) (key : Utf16) (act : Act)
    (s : StoreState) (result : Except Thrown Unit) (s' : StoreState) : Prop where
  rows : s'.rows = s.rows ∨ ∃ row row', s.rows key = some row ∧
    isHeld (s.owners key) row = true ∧ act.change crypto bodyKey row = .ok row' ∧
    s'.rows = Function.update s.rows key (some row')
  owners : s'.owners = s.owners ∨ s'.owners = forget s.owners key
  final : act.isFinal = true → result = .ok () → ∃ row row', s.rows key = some row ∧
    isHeld (s.owners key) row = true ∧ act.change crypto bodyKey row = .ok row' ∧
    s'.rows = Function.update s.rows key (some row')

section Perform

variable {crypto : AuditCrypto} {bodyKey : Bytes} {peer id key : Utf16}
  {storage : Except Thrown Unit} {s s' : StoreState} {result : Except Thrown Unit} {act : Act}

theorem Performed.unchanged (e : Thrown) :
    Performed crypto bodyKey key act s (.error e) s where
  rows := .inl rfl
  owners := .inl rfl
  final _ h := by cases h

/-- The end of an operation that tells whether the row was held. -/
theorem performed_finish {updated : Except Thrown (Bool × (Utf16 → Option ReplayRow))}
    (hupdated : updated = updateHeld storage s key (act.change crypto bodyKey)) :
    Performed crypto bodyKey key act s (finish key s updated).1 (finish key s updated).2 := by
  cases hresult : updated with
  | error e => exact .unchanged e
  | ok pair =>
    obtain ⟨changed, rows⟩ := pair
    obtain ⟨rfl, hrows⟩ | ⟨rfl, hchanged⟩ := updateHeld_eq_ok (hupdated.symm.trans hresult)
    · exact ⟨.inl hrows, .inl rfl, fun _ h => by cases h⟩
    · exact ⟨.inr hchanged, .inr rfl, fun _ _ => hchanged⟩

theorem performed_refresh {now : Millis}
    (h : refresh crypto peer id storage now s = (result, s')) :
    Performed crypto bodyKey (replayStoreKey crypto peer id) (.refresh now) s result s' := by
  have hrows : ∀ changed rows, (if (s.owners (replayStoreKey crypto peer id)).any (· ≠ []) then
      updateHeld storage s (replayStoreKey crypto peer id) (refreshRow now)
      else .ok (false, s.rows)) = .ok (changed, rows) → rows = s.rows ∨ ∃ row row',
        s.rows (replayStoreKey crypto peer id) = some row ∧
        isHeld (s.owners (replayStoreKey crypto peer id)) row = true ∧
        refreshRow now row = .ok row' ∧
        rows = Function.update s.rows (replayStoreKey crypto peer id) (some row') := by
    intro changed rows hupdated
    split_ifs at hupdated
    · exact (updateHeld_eq_ok hupdated).imp And.right And.right
    · exact .inl (Prod.mk.inj (Except.ok.inj hupdated)).2.symm
  unfold refresh at h
  simp only at h
  split at h
  · obtain ⟨rfl, rfl⟩ := Prod.mk.inj h
    exact .unchanged _
  · rename_i rows hupdated
    obtain ⟨rfl, rfl⟩ := Prod.mk.inj h
    exact ⟨hrows _ _ hupdated, .inl rfl, fun h => by cases h⟩
  · rename_i rows hupdated
    obtain ⟨rfl, rfl⟩ := Prod.mk.inj h
    exact ⟨hrows _ _ hupdated, .inr rfl, fun h => by cases h⟩

theorem performed_complete {nonce : Bytes} {receipt : SignedReceipt} {body : Option JsValue}
    (h : complete crypto peer id storage bodyKey nonce receipt body s = (result, s')) :
    Performed crypto bodyKey (replayStoreKey crypto peer id) (.complete nonce receipt body) s
      result s' := by
  unfold complete at h
  split_ifs at h
  · obtain ⟨rfl, rfl⟩ := Prod.mk.inj h
    exact .unchanged _
  · split at h
    · obtain ⟨rfl, rfl⟩ := Prod.mk.inj h
      exact .unchanged _
    · obtain ⟨rfl, rfl⟩ := Prod.mk.inj h
      exact performed_finish rfl

theorem performed_consume (h : consume crypto peer id storage s = (result, s')) :
    Performed crypto bodyKey (replayStoreKey crypto peer id) .consume s result s' := by
  obtain ⟨rfl, rfl⟩ := Prod.mk.inj h
  exact performed_finish rfl

theorem performed_release (h : release crypto peer id storage s = (result, s')) :
    Performed crypto bodyKey (replayStoreKey crypto peer id) .release s result s' := by
  unfold release at h
  simp only at h
  split at h
  · obtain ⟨rfl, rfl⟩ := Prod.mk.inj h
    exact .unchanged _
  · rename_i hupdated
    obtain ⟨rfl, rfl⟩ := Prod.mk.inj h
    exact ⟨(updateHeld_eq_ok hupdated).imp And.right And.right, .inr rfl, fun h => by cases h⟩

theorem performed_perform (h : act.perform crypto bodyKey peer id storage s = (result, s')) :
    Performed crypto bodyKey (replayStoreKey crypto peer id) act s result s' := by
  cases act with
  | refresh now => exact performed_refresh h
  | complete nonce receipt body => exact performed_complete h
  | consume => exact performed_consume h
  | release => exact performed_release h

/-- An operation keeps what a row is bound to, and a row is in flight after it only with the owner
that it had. -/
theorem Act.change_eq_ok {row row' : ReplayRow} (h : act.change crypto bodyKey row = .ok row') :
    row'.peer = row.peer ∧ row'.id = row.id ∧ row'.envelopeHash = row.envelopeHash ∧
      (row'.state = .inFlight → row'.claimOwner = row.claimOwner) ∧
      (act.isFinal = true → IsFinal row') := by
  cases act with
  | refresh now =>
    obtain rfl := Except.ok.inj h
    exact ⟨rfl, rfl, rfl, fun _ => rfl, fun h => by cases h⟩
  | complete nonce receipt body =>
    obtain ⟨enc, -, h⟩ := bind_eq_ok.mp h
    obtain rfl := Except.ok.inj h
    exact ⟨rfl, rfl, rfl, fun h => (by cases h), fun _ => .inl rfl⟩
  | consume =>
    obtain rfl := Except.ok.inj h
    exact ⟨rfl, rfl, rfl, fun h => (by cases h), fun _ => .inr rfl⟩
  | release =>
    obtain rfl := Except.ok.inj h
    exact ⟨rfl, rfl, rfl, fun h => (by cases h), fun h => (by cases h)⟩

theorem isReplayRow_change {row row' : ReplayRow} (h : act.change crypto bodyKey row = .ok row')
    (hflight : row.state = .inFlight) (hrow : isReplayRow row = true) :
    isReplayRow row' = true := by
  cases act with
  | refresh now =>
    obtain ⟨owner, howner⟩ := exists_owner hrow hflight
    have hne : owner ≠ [] := by
      simp only [isReplayRow, hflight, howner, Option.any_some, Bool.or_eq_true,
        Bool.and_eq_true, decide_eq_true_eq] at hrow
      exact (hrow.resolve_left (by simp)).1
    obtain rfl := Except.ok.inj h
    exact isReplayRow_of_lease hne howner rfl
  | complete nonce receipt body =>
    obtain ⟨enc, -, h⟩ := bind_eq_ok.mp h
    obtain rfl := Except.ok.inj h
    rfl
  | consume =>
    obtain rfl := Except.ok.inj h
    rfl
  | release =>
    obtain rfl := Except.ok.inj h
    rfl

end Perform

end Flashclaw.Reef.SqliteReplay
