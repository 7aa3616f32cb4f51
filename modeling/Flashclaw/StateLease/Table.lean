import Flashclaw.Lib.SqlTable
import Flashclaw.Lib.Utf16

/-!
# State leases: the table

The transactions of `openclaw-state-lease.ts` on the table `state_leases`, whose
primary key is the scope with the key.  Each takes the clock that it samples.
-/

namespace Flashclaw.StateLease

/-- A row of `state_leases`; its payload is null. -/
structure LeaseRow (ο : Type) where
  scope : Utf16
  leaseKey : Utf16
  owner : ο
  expiresAt : ℕ
  heartbeatAt : ℕ
  createdAt : ℕ
  updatedAt : ℕ
deriving DecidableEq

structure LeaseIdentity (ο : Type) where
  scope : Utf16
  key : Utf16
  owner : ο

variable {ο : Type}

/-- `where("scope", "=", params.scope).where("lease_key", "=", params.key)` -/
def LeaseRow.hasKey (row : LeaseRow ο) (params : LeaseIdentity ο) : Bool :=
  row.scope = params.scope && row.leaseKey = params.key

/-- The conditions of `renew` and of `assertLeaseOwnedInDatabase`. -/
def LeaseRow.isOwned [DecidableEq ο] (row : LeaseRow ο) (params : LeaseIdentity ο) (now : ℕ) : Bool :=
  row.hasKey params && row.owner = params.owner && now < row.expiresAt

/-- The primary key. -/
def LeaseRow.primaryKey (row : LeaseRow ο) : Utf16 × Utf16 := (row.scope, row.leaseKey)

abbrev Table (ο : Type) := SqlTable (LeaseRow.primaryKey (ο := ο))

def tryAcquire (params : LeaseIdentity ο) (leaseMs now : ℕ) (table : Table ο) :
    Table ο × Option ℕ :=
  let table := table.delete fun row => row.hasKey params && row.expiresAt ≤ now
  let expiresAt := now + leaseMs
  let inserted := table.insert {
    scope := params.scope
    leaseKey := params.key
    owner := params.owner
    expiresAt := expiresAt
    heartbeatAt := now
    createdAt := now
    updatedAt := now }
  (inserted.1, if inserted.2 then some expiresAt else none)

/-- `none` is a lost lease, for which the transaction throws. -/
def renew [DecidableEq ο] (params : LeaseIdentity ο) (leaseMs now : ℕ) (table : Table ο) :
    Option (Table ο × ℕ) :=
  let expiresAt := now + leaseMs
  let updated := table.update (·.isOwned params now) (fun row =>
    { row with expiresAt := expiresAt, heartbeatAt := now, updatedAt := now }) fun _ => rfl
  if updated.2 = 1 then some (updated.1, expiresAt) else none

/-- `assertLeaseOwnedInDatabase` finds a row. -/
def leaseOwned [DecidableEq ο] (params : LeaseIdentity ο) (now : ℕ) (table : Table ο) : Bool :=
  table.rows.any (·.isOwned params now)

def release [DecidableEq ο] (params : LeaseIdentity ο) (table : Table ο) : Table ο :=
  table.delete fun row => row.hasKey params && row.owner = params.owner

section Facts

variable {params : LeaseIdentity ο} {leaseMs now : ℕ} {table : Table ο}

theorem eq_of_hasKey {row row' : LeaseRow ο} (hrow : row ∈ table.rows) (hrow' : row' ∈ table.rows)
    (h : row.hasKey params = true) (h' : row'.hasKey params = true) : row = row' := by
  apply SqlTable.eq_of_key hrow hrow'
  unfold LeaseRow.hasKey at h h'
  simp only [Bool.and_eq_true, decide_eq_true_eq] at h h'
  unfold LeaseRow.primaryKey
  rw [h.1, h.2, h'.1, h'.2]

theorem primaryKey_eq_iff {row : LeaseRow ο} :
    row.primaryKey = (params.scope, params.key) ↔ row.hasKey params = true := by
  unfold LeaseRow.hasKey LeaseRow.primaryKey
  rw [Prod.mk.injEq, Bool.and_eq_true, decide_eq_true_eq, decide_eq_true_eq]

/-- An acquisition removes what has expired, and puts its own row where none is left. -/
theorem tryAcquire_eq (params : LeaseIdentity ο) (leaseMs now : ℕ) (table : Table ο) :
    (∃ row ∈ table.rows, row.hasKey params = true ∧ now < row.expiresAt ∧
      tryAcquire params leaseMs now table = (table.delete fun row =>
        row.hasKey params && row.expiresAt ≤ now, none)) ∨
    ((∀ row ∈ table.rows, row.hasKey params = true → row.expiresAt ≤ now) ∧
      (tryAcquire params leaseMs now table).2 = some (now + leaseMs) ∧
      ∀ row, row ∈ (tryAcquire params leaseMs now table).1.rows ↔
        row = ⟨params.scope, params.key, params.owner, now + leaseMs, now, now, now⟩ ∨
          (row ∈ table.rows ∧ row.hasKey params = false)) := by
  have hkept : ∀ row, row ∈ (table.delete fun row =>
      row.hasKey params && row.expiresAt ≤ now).rows ↔
        row ∈ table.rows ∧ (row.hasKey params = true → now < row.expiresAt) := by
    intro row
    rw [SqlTable.mem_delete]
    simp
  by_cases hleft : ∃ row ∈ table.rows, row.hasKey params = true ∧ now < row.expiresAt
  · left
    obtain ⟨row, hrow, hhas, hlater⟩ := hleft
    refine ⟨row, hrow, hhas, hlater, ?_⟩
    unfold tryAcquire
    dsimp only
    -- the row that is left has the key of the new one, which is not inserted
    have hkey : row.primaryKey = LeaseRow.primaryKey
        ⟨params.scope, params.key, params.owner, now + leaseMs, now, now, now⟩ :=
      primaryKey_eq_iff.mpr hhas
    rw [SqlTable.insert_of_mem ((hkept row).mpr ⟨hrow, fun _ => hlater⟩) hkey]
    rfl
  · right
    have hexpired : ∀ row ∈ table.rows, row.hasKey params = true → row.expiresAt ≤ now := by
      intro row hrow hhas
      by_contra hlater
      exact hleft ⟨row, hrow, hhas, by omega⟩
    -- every row with the key was deleted
    have hinserted : ((table.delete fun row => row.hasKey params && row.expiresAt ≤ now).insert
        ⟨params.scope, params.key, params.owner, now + leaseMs, now, now, now⟩).2 = true := by
      apply SqlTable.insert_eq_true_iff.mpr
      intro row hrow hkey
      obtain ⟨hmem, hlater⟩ := (hkept row).mp hrow
      have hhas := primaryKey_eq_iff.mp hkey
      have := hexpired row hmem hhas
      have := hlater hhas
      omega
    refine ⟨hexpired, ?_, ?_⟩
    · unfold tryAcquire
      dsimp only
      rw [hinserted]
      rfl
    · intro row
      unfold tryAcquire
      dsimp only
      rw [SqlTable.mem_insert, hinserted, hkept]
      constructor
      · rintro (⟨hrow, hlater⟩ | ⟨hrow, -⟩)
        · refine .inr ⟨hrow, Bool.eq_false_iff.mpr fun hhas => ?_⟩
          have := hexpired row hrow hhas
          have := hlater hhas
          omega
        · exact .inl hrow
      · rintro (hrow | ⟨hrow, hother⟩)
        · exact .inr ⟨hrow, rfl⟩
        · refine .inl ⟨hrow, fun hhas => ?_⟩
          rw [hother] at hhas
          cases hhas

/-- A renewal extends a lease of its owner that has not expired, and no other row. -/
theorem mem_renew [DecidableEq ο] {renewed : Table ο} {expiresAt : ℕ}
    (h : renew params leaseMs now table = some (renewed, expiresAt)) {row : LeaseRow ο} :
    row ∈ renewed.rows ↔ (row ∈ table.rows ∧ row.isOwned params now = false) ∨
      ∃ before ∈ table.rows, before.isOwned params now = true ∧
        row = { before with
          expiresAt := now + leaseMs, heartbeatAt := now, updatedAt := now } := by
  unfold renew at h
  dsimp only at h
  split_ifs at h
  obtain ⟨rfl, -⟩ := Prod.mk.inj (Option.some.inj h)
  exact SqlTable.mem_update

theorem mem_release [DecidableEq ο] {row : LeaseRow ο} : row ∈ (release params table).rows ↔
    row ∈ table.rows ∧ (row.hasKey params = true → row.owner ≠ params.owner) := by
  unfold release
  rw [SqlTable.mem_delete]
  simp

end Facts

end Flashclaw.StateLease
