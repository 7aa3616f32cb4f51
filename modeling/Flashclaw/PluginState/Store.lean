import Flashclaw.Lib.SqlTable
import Mathlib.Algebra.Ring.Int.Defs
import Mathlib.Data.Prod.Lex
import Mathlib.Order.Defs.LinearOrder

/-!
# Plugin state: the store

`plugin-state-store.sqlite.ts`: the table `plugin_state_entries` and the write
transactions on it, each at the clock that it samples.  Keys are ordered as the
database orders them; what the values hold is read by `parse`.
-/

namespace Flashclaw.PluginState

structure PluginStateRow (P N K V : Type) where
  pluginId : P
  namespaceId : N
  entryKey : K
  valueJson : V
  createdAt : ℤ
  expiresAt : Option ℤ

inductive PluginStateOverflowPolicy where
  | evictOldest
  | rejectNew
deriving DecidableEq

/-- What `validateMaxEntries` and `validateOverflowPolicy` let through. -/
structure StoreOptions where
  maxEntries : ℕ
  overflowPolicy : PluginStateOverflowPolicy
  maxEntries_pos : 0 < maxEntries

inductive PluginStateStoreErrorCode where
  | limitExceeded
  | invalidInput
  | corrupt
  | writeFailed
  | readFailed
deriving DecidableEq

/-- What a transaction throws; `other` is no error of the store, and is wrapped. -/
inductive Thrown where
  | store (code : PluginStateStoreErrorCode)
  | other
deriving DecidableEq

/-- `wrapPluginStateError` -/
def Thrown.wrap (fallbackCode : PluginStateStoreErrorCode) : Thrown → PluginStateStoreErrorCode
  | .store code => code
  | .other => fallbackCode

def MAX_SAFE_INTEGER : ℤ := 2 ^ 53 - 1

def MAX_DATE_TIMESTAMP_MS : ℤ := 8640000000000000

/-- Whole numbers only; sums of more than `2 ^ 53` are no dates either. -/
def resolveExpiresAtMsFromDurationMs (value nowMs : ℤ) : Option ℤ :=
  let isDate (ms : ℤ) : Bool := -MAX_DATE_TIMESTAMP_MS ≤ ms && ms ≤ MAX_DATE_TIMESTAMP_MS
  if 0 < value && value ≤ MAX_SAFE_INTEGER && isDate nowMs && isDate (nowMs + value) then
    some (nowMs + value)
  else none

def resolvePluginStateExpiresAtMs (ttlMs : Option ℤ) (now : ℤ) : Except Thrown (Option ℤ) :=
  match ttlMs with
  | none => .ok none
  | some ttlMs =>
    match resolveExpiresAtMsFromDurationMs ttlMs now with
    | none => .error (.store .invalidInput)
    | some expiresAt => .ok (some expiresAt)

section Rows

variable {P N K V : Type}

/-- The primary key. -/
def PluginStateRow.primaryKey (row : PluginStateRow P N K V) : P × N × K :=
  (row.pluginId, row.namespaceId, row.entryKey)

abbrev Entries (P N K V : Type) := SqlTable (PluginStateRow.primaryKey (P := P) (N := N) (K := K) (V := V))

def PluginStateRow.isLive (now : ℤ) (row : PluginStateRow P N K V) : Bool :=
  row.expiresAt.all (now < ·)

variable [DecidableEq P] [DecidableEq N]

def PluginStateRow.isIn (pluginId : P) (ns : N) (row : PluginStateRow P N K V) : Bool :=
  row.pluginId = pluginId && row.namespaceId = ns

/-- The live rows of a namespace, as most statements select them. -/
def liveIn (pluginId : P) (ns : N) (now : ℤ) (row : PluginStateRow P N K V) : Bool :=
  row.isIn pluginId ns && row.isLive now

def deleteExpiredPluginStateNamespaceEntries (db : Entries P N K V) (pluginId : P) (ns : N)
    (now : ℤ) : Entries P N K V :=
  db.delete fun row => row.isIn pluginId ns && !row.isLive now

def countLivePluginStateNamespaceEntries (db : Entries P N K V) (pluginId : P) (ns : N) (now : ℤ) :
    ℕ :=
  db.count (liveIn pluginId ns now)

def countLivePluginStateEntries (db : Entries P N K V) (pluginId : P) (now : ℤ) : ℕ :=
  db.count fun row => decide (row.pluginId = pluginId) && row.isLive now

/-- `max(created_at)` of a namespace. -/
def maxCreatedAt (db : Entries P N K V) (pluginId : P) (ns : N) : Option ℤ :=
  ((db.rows.filter (·.isIn pluginId ns)).map (·.createdAt)).max?

def allocatePluginStateNamespaceCreatedAt (db : Entries P N K V) (pluginId : P) (ns : N) (now : ℤ) :
    Except Thrown ℤ :=
  let next :=
    match maxCreatedAt db pluginId ns with
    | none => now
    | some previous => max now (previous + 1)
  if -MAX_SAFE_INTEGER ≤ next ∧ next ≤ MAX_SAFE_INTEGER then .ok next else .error .other

variable [LinearOrder K]

/-- `ORDER BY created_at, entry_key` -/
def older (row row' : PluginStateRow P N K V) : Prop :=
  toLex (row.createdAt, row.entryKey) ≤ toLex (row'.createdAt, row'.entryKey)

instance : DecidableRel (older (P := P) (N := N) (K := K) (V := V)) := fun row row' =>
  inferInstanceAs
    (Decidable (toLex (row.createdAt, row.entryKey) ≤ toLex (row'.createdAt, row'.entryKey)))

def selectPluginStateEntry (db : Entries P N K V) (pluginId : P) (ns : N) (key : K) (now : ℤ) :
    Option (PluginStateRow P N K V) :=
  db.rows.find? fun row => decide (row.primaryKey = (pluginId, ns, key)) && row.isLive now

/-- The remaining rows, and how many are deleted. -/
def deletePluginStateEntry (db : Entries P N K V) (pluginId : P) (ns : N) (key : K) :
    Entries P N K V × ℕ :=
  (db.delete fun row => row.primaryKey = (pluginId, ns, key),
    db.count fun row => row.primaryKey = (pluginId, ns, key))

def deleteOldestPluginStateNamespaceEntries (db : Entries P N K V) (pluginId : P) (ns : N)
    (protectedKey : K) (now : ℤ) (limit : ℕ) : Entries P N K V :=
  db.deleteFirst older (fun row => liveIn pluginId ns now row && row.entryKey ≠ protectedKey) limit

/-- `limit` is the one of `resolveMaxPluginStateEntriesPerPlugin`. -/
def enforcePostRegisterLimits (limit : ℕ) (db : Entries P N K V) (pluginId : P) (ns : N)
    (options : StoreOptions) (now : ℤ) (protectedKey : K) (enforcePluginLimit : Bool := true) :
    Except Thrown (Entries P N K V) :=
  if options.overflowPolicy = .rejectNew then .ok db
  else
    let namespaceCount := countLivePluginStateNamespaceEntries db pluginId ns now
    let db :=
      if options.maxEntries < namespaceCount then
        deleteOldestPluginStateNamespaceEntries db pluginId ns protectedKey now
          (namespaceCount - options.maxEntries)
      else db
    if !enforcePluginLimit then .ok db
    else
      let pluginCount := countLivePluginStateEntries db pluginId now
      if pluginCount ≤ limit then .ok db
      else
        let db := deleteOldestPluginStateNamespaceEntries db pluginId ns protectedKey now
          (pluginCount - limit)
        let remainingPluginCount := countLivePluginStateEntries db pluginId now
        if limit < remainingPluginCount then .error (.store .limitExceeded) else .ok db

def assertCanInsertPluginStateEntry (limit : ℕ) (db : Entries P N K V) (pluginId : P) (ns : N)
    (options : StoreOptions) (now : ℤ) : Except Thrown Unit :=
  if options.overflowPolicy ≠ .rejectNew then .ok ()
  else if options.maxEntries ≤ countLivePluginStateNamespaceEntries db pluginId ns now then
    .error (.store .limitExceeded)
  else if limit ≤ countLivePluginStateEntries db pluginId now then .error (.store .limitExceeded)
  else .ok ()

section Writes

variable {J : Type} (parse : V → Option J) (limit : ℕ)

def parseStoredJson (raw : V) : Except Thrown J :=
  match parse raw with
  | none => .error (.store .corrupt)
  | some value => .ok value

/-- A namespace as a store has opened it, with the key of a call. -/
structure Target (P N K : Type) where
  pluginId : P
  namespaceId : N
  key : K

def Target.row (target : Target P N K) (valueJson : V) (createdAt : ℤ) (expiresAt : Option ℤ) :
    PluginStateRow P N K V :=
  ⟨target.pluginId, target.namespaceId, target.key, valueJson, createdAt, expiresAt⟩

def pluginStateRegister (now : ℤ) (db : Entries P N K V) (target : Target P N K) (valueJson : V)
    (options : StoreOptions) (ttlMs createdAtMs : Option ℤ) : Except Thrown (Entries P N K V) := do
  let expiresAt ← resolvePluginStateExpiresAtMs ttlMs now
  let db := deleteExpiredPluginStateNamespaceEntries db target.pluginId target.namespaceId now
  let existing := selectPluginStateEntry db target.pluginId target.namespaceId target.key now
  if existing.isNone then
    assertCanInsertPluginStateEntry limit db target.pluginId target.namespaceId options now
  let db := db.upsert (target.row valueJson (createdAtMs.getD now) expiresAt)
  enforcePostRegisterLimits limit db target.pluginId target.namespaceId options now target.key

def pluginStateRegisterIfAbsent (now : ℤ) (db : Entries P N K V) (target : Target P N K)
    (valueJson : V) (options : StoreOptions) (ttlMs : Option ℤ) :
    Except Thrown (Entries P N K V × Bool) := do
  let expiresAt ← resolvePluginStateExpiresAtMs ttlMs now
  let db := deleteExpiredPluginStateNamespaceEntries db target.pluginId target.namespaceId now
  let existing := selectPluginStateEntry db target.pluginId target.namespaceId target.key now
  if existing.isSome then return (db, false)
  assertCanInsertPluginStateEntry limit db target.pluginId target.namespaceId options now
  let inserted := db.insert (target.row valueJson now expiresAt)
  if !inserted.2 then return (inserted.1, false)
  let db ← enforcePostRegisterLimits limit inserted.1 target.pluginId target.namespaceId options now
    target.key
  return (db, true)

/-- `updateValueJson` gets the parsed value, and gives the next one with its TTL. -/
def pluginStateUpdate (now : ℤ) (db : Entries P N K V) (target : Target P N K)
    (options : StoreOptions)
    (updateValueJson : Option J → Except Thrown (Option (V × Option ℤ))) :
    Except Thrown (Entries P N K V × Bool) := do
  let db := deleteExpiredPluginStateNamespaceEntries db target.pluginId target.namespaceId now
  let existing := selectPluginStateEntry db target.pluginId target.namespaceId target.key now
  let current ← existing.mapM fun row => parseStoredJson parse row.valueJson
  match ← updateValueJson current with
  | none => return (db, false)
  | some (valueJson, ttlMs) =>
    if existing.isNone then
      assertCanInsertPluginStateEntry limit db target.pluginId target.namespaceId options now
    let expiresAt ← resolvePluginStateExpiresAtMs ttlMs now
    let db := db.upsert (target.row valueJson now expiresAt)
    let db ← enforcePostRegisterLimits limit db target.pluginId target.namespaceId options now
      target.key
    return (db, true)

structure PreparedEntry (K V : Type) where
  cursorValueJson : V
  journalKey : K
  journalValueJson : V

structure JournalParams (P N K V : Type) where
  pluginId : P
  cursorNamespace : N
  cursorKey : K
  cursorMaxEntries : ℕ
  cursorMaxEntries_pos : 0 < cursorMaxEntries
  journalNamespace : N
  journalMaxEntries : ℕ
  journalMaxEntries_pos : 0 < journalMaxEntries
  initialSequence : ℤ
  readCursorSequence : V → Option ℤ
  prepareEntry : ℤ → Except Thrown (PreparedEntry K V)

namespace JournalParams

variable (params : JournalParams P N K V)

def cursor : Target P N K := ⟨params.pluginId, params.cursorNamespace, params.cursorKey⟩

def cursorOptions : StoreOptions :=
  ⟨params.cursorMaxEntries, .evictOldest, params.cursorMaxEntries_pos⟩

def journal (key : K) : Target P N K := ⟨params.pluginId, params.journalNamespace, key⟩

def journalOptions : StoreOptions :=
  ⟨params.journalMaxEntries, .evictOldest, params.journalMaxEntries_pos⟩

/-- The sequence after the one that the cursor holds. -/
def nextSequence (cursor : Option (PluginStateRow P N K V)) : ℤ :=
  let cursorSequence := cursor.bind fun row => params.readCursorSequence row.valueJson
  max params.initialSequence (cursorSequence.getD 0) + 1

end JournalParams

def pluginStateRegisterSequencedJournalEntry (now : ℤ) (db : Entries P N K V)
    (params : JournalParams P N K V) : Except Thrown (Entries P N K V × ℤ) := do
  let db := deleteExpiredPluginStateNamespaceEntries db params.pluginId params.cursorNamespace now
  let db := deleteExpiredPluginStateNamespaceEntries db params.pluginId params.journalNamespace now
  let cursor := selectPluginStateEntry db params.pluginId params.cursorNamespace params.cursorKey now
  let sequence := params.nextSequence cursor
  if ¬ (-MAX_SAFE_INTEGER ≤ sequence ∧ sequence ≤ MAX_SAFE_INTEGER) then throw .other
  let prepared ← params.prepareEntry sequence
  let existingJournalEntry := selectPluginStateEntry db params.pluginId params.journalNamespace
    prepared.journalKey now
  if existingJournalEntry.isSome then throw (.store .writeFailed)
  if cursor.isNone then
    assertCanInsertPluginStateEntry limit db params.pluginId params.cursorNamespace
      params.cursorOptions now
  assertCanInsertPluginStateEntry limit db params.pluginId params.journalNamespace
    params.journalOptions now
  let db := db.upsert (params.cursor.row prepared.cursorValueJson now none)
  let db ← enforcePostRegisterLimits limit db params.pluginId params.cursorNamespace
    params.cursorOptions now params.cursorKey false
  let createdAt ← allocatePluginStateNamespaceCreatedAt db params.pluginId params.journalNamespace now
  let db := db.upsert
    ((params.journal prepared.journalKey).row prepared.journalValueJson createdAt none)
  let db ← enforcePostRegisterLimits limit db params.pluginId params.journalNamespace
    params.journalOptions now prepared.journalKey
  return (db, sequence)

def pluginStateConsume (now : ℤ) (db : Entries P N K V) (target : Target P N K) :
    Except Thrown (Entries P N K V × Option J) := do
  match selectPluginStateEntry db target.pluginId target.namespaceId target.key now with
  | none => return (db, none)
  | some row =>
    let value ← parseStoredJson parse row.valueJson
    return ((deletePluginStateEntry db target.pluginId target.namespaceId target.key).1, some value)

def pluginStateDelete (db : Entries P N K V) (target : Target P N K) : Entries P N K V × Bool :=
  let deleted := deletePluginStateEntry db target.pluginId target.namespaceId target.key
  (deleted.1, 0 < deleted.2)

def pluginStateDeleteIf (now : ℤ) (db : Entries P N K V) (target : Target P N K)
    (predicate : J → Except Thrown Bool) : Except Thrown (Entries P N K V × Bool) := do
  match selectPluginStateEntry db target.pluginId target.namespaceId target.key now with
  | none => return (db, false)
  | some row =>
    let value ← parseStoredJson parse row.valueJson
    if ← predicate value then return pluginStateDelete db target else return (db, false)

def pluginStateClear (db : Entries P N K V) (pluginId : P) (ns : N) : Entries P N K V :=
  db.delete (·.isIn pluginId ns)

inductive Call (P N K V J : Type) where
  | register (target : Target P N K) (valueJson : V) (options : StoreOptions)
    (ttlMs createdAtMs : Option ℤ)
  | registerIfAbsent (target : Target P N K) (valueJson : V) (options : StoreOptions)
    (ttlMs : Option ℤ)
  | update (target : Target P N K) (options : StoreOptions)
    (updateValueJson : Option J → Except Thrown (Option (V × Option ℤ)))
  | registerSequencedJournalEntry (params : JournalParams P N K V)
  | consume (target : Target P N K)
  | delete (target : Target P N K)
  | deleteIf (target : Target P N K) (predicate : J → Except Thrown Bool)
  | clear (pluginId : P) (ns : N)

inductive Reply (J : Type) where
  | undefined
  | bool (b : Bool)
  | sequence (n : ℤ)
  | value (value : J)

/-- The body of the transaction, and the code for errors that are not the store's. -/
def Call.body (call : Call P N K V J) (now : ℤ) (db : Entries P N K V) :
    Except Thrown (Entries P N K V × Reply J) :=
  match call with
  | .register target valueJson options ttlMs createdAtMs =>
    (pluginStateRegister limit now db target valueJson options ttlMs createdAtMs).map
      (·, .undefined)
  | .registerIfAbsent target valueJson options ttlMs =>
    (pluginStateRegisterIfAbsent limit now db target valueJson options ttlMs).map
      fun result => (result.1, .bool result.2)
  | .update target options updateValueJson =>
    (pluginStateUpdate parse limit now db target options updateValueJson).map
      fun result => (result.1, .bool result.2)
  | .registerSequencedJournalEntry params =>
    (pluginStateRegisterSequencedJournalEntry limit now db params).map
      fun result => (result.1, .sequence result.2)
  | .consume target =>
    (pluginStateConsume parse now db target).map
      fun result => (result.1, result.2.elim .undefined .value)
  | .delete target =>
    let result := pluginStateDelete db target
    .ok (result.1, .bool result.2)
  | .deleteIf target predicate =>
    (pluginStateDeleteIf parse now db target predicate).map
      fun result => (result.1, .bool result.2)
  | .clear pluginId ns => .ok (pluginStateClear db pluginId ns, .undefined)

def Call.fallbackCode : Call P N K V J → PluginStateStoreErrorCode
  | .consume _ => .readFailed
  | _ => .writeFailed

/-- A call, whose transaction rolls back where its body throws. -/
def Call.perform (call : Call P N K V J) (now : ℤ) (db : Entries P N K V) :
    Entries P N K V × Except PluginStateStoreErrorCode (Reply J) :=
  match call.body parse limit now db with
  | .ok (db, reply) => (db, .ok reply)
  | .error e => (db, .error (e.wrap call.fallbackCode))

end Writes

end Rows

end Flashclaw.PluginState
