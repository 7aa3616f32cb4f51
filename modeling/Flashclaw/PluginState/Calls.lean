import Flashclaw.Lib.Results
import Flashclaw.PluginState.Limits

/-!
# Plugin state: calls

What each call does to the table, whatever its arguments.
-/

namespace Flashclaw.PluginState

open Results

variable {P N K V J : Type} [DecidableEq P] [DecidableEq N] [LinearOrder K]

variable {parse : V → Option J} {limit : ℕ} {now : ℤ} {db db' : Entries P N K V}
  {target : Target P N K} {options : StoreOptions} {valueJson : V}

omit [DecidableEq P] [DecidableEq N] [LinearOrder K] in
theorem primaryKey_row (createdAt : ℤ) (expiresAt : Option ℤ) :
    (target.row valueJson createdAt expiresAt).primaryKey =
      (target.pluginId, target.namespaceId, target.key) :=
  rfl

/-- A row is stored in the table, after the expired ones of its namespace are gone. -/
structure Inserts (limit : ℕ) (target : Target P N K) (options : StoreOptions) (now : ℤ)
    (db db' : Entries P N K V) : Prop where
  stored : ∃ row, row.primaryKey = (target.pluginId, target.namespaceId, target.key) ∧
    row.isLive now = true ∧ Stores target options now row
      (deleteExpiredPluginStateNamespaceEntries db target.pluginId target.namespaceId now) db'
  plugin : countLivePluginStateEntries db target.pluginId now ≤ limit →
    countLivePluginStateEntries db' target.pluginId now ≤ limit

theorem inserts {row : PluginStateRow P N K V}
    (hrow : row.primaryKey = (target.pluginId, target.namespaceId, target.key))
    (hlive : row.isLive now = true)
    (hassert : selectPluginStateEntry
        (deleteExpiredPluginStateNamespaceEntries db target.pluginId target.namespaceId now)
        target.pluginId target.namespaceId target.key now = none →
      assertCanInsertPluginStateEntry limit
        (deleteExpiredPluginStateNamespaceEntries db target.pluginId target.namespaceId now)
        target.pluginId target.namespaceId options now = .ok ())
    (henforce : enforcePostRegisterLimits limit
      ((deleteExpiredPluginStateNamespaceEntries db target.pluginId target.namespaceId now).upsert
        row) target.pluginId target.namespaceId options now target.key = .ok db') :
    Inserts limit target options now db db' := by
  refine ⟨⟨row, hrow, hlive, stores hrow hassert henforce⟩, fun hle => ?_⟩
  exact plugin_stores hrow hassert henforce ((count_deleteExpired_le _).trans hle)

theorem pluginStateRegister_spec {ttlMs createdAtMs : Option ℤ}
    (h : pluginStateRegister limit now db target valueJson options ttlMs createdAtMs = .ok db') :
    Inserts limit target options now db db' := by
  unfold pluginStateRegister at h
  obtain ⟨expiresAt, hexpires, h⟩ := bind_eq_ok.mp h
  dsimp only at h
  split_ifs at h with hexisting
  · obtain ⟨_, hassert, h⟩ := bind_eq_ok.mp h
    exact inserts (primaryKey_row _ _) (isLive_of_resolve hexpires rfl) (fun _ => hassert) h
  · rw [Option.isNone_iff_eq_none] at hexisting
    exact inserts (primaryKey_row _ _) (isLive_of_resolve hexpires rfl)
      (fun hnone => absurd hnone hexisting) h

/-- Where a key is not found, the namespace without its expired rows has no row of it. -/
theorem fresh_of_select {p : P} {n : N} {k : K} (h : selectPluginStateEntry
    (deleteExpiredPluginStateNamespaceEntries db p n now) p n k now = none) :
    ∀ row ∈ (deleteExpiredPluginStateNamespaceEntries db p n now).rows,
      row.primaryKey ≠ (p, n, k) := by
  intro row hrow hkey
  have hdead := selectPluginStateEntry_eq_none h row hrow hkey
  have hin : row.isIn p n = true := by
    unfold PluginStateRow.primaryKey at hkey
    simp only [Prod.mk.injEq] at hkey
    exact isIn_iff.mpr ⟨hkey.1, hkey.2.1⟩
  rw [(mem_deleteExpired.mp hrow).2 hin] at hdead
  cases hdead

/-- A call that stores nothing removes expired rows of its namespace at most. -/
theorem pluginStateRegisterIfAbsent_spec {ttlMs : Option ℤ} {stored : Bool}
    (h : pluginStateRegisterIfAbsent limit now db target valueJson options ttlMs =
      .ok (db', stored)) :
    (stored = true ∧ selectPluginStateEntry
        (deleteExpiredPluginStateNamespaceEntries db target.pluginId target.namespaceId now)
        target.pluginId target.namespaceId target.key now = none ∧
      Inserts limit target options now db db') ∨
    (stored = false ∧ db' =
      deleteExpiredPluginStateNamespaceEntries db target.pluginId target.namespaceId now) := by
  unfold pluginStateRegisterIfAbsent at h
  obtain ⟨expiresAt, hexpires, h⟩ := bind_eq_ok.mp h
  dsimp only at h
  split at h
  case isTrue hexisting =>
    cases h
    exact .inr ⟨rfl, rfl⟩
  case isFalse hexisting =>
    obtain ⟨_, hassert, h⟩ := bind_eq_ok.mp h
    rw [Bool.not_eq_true, Option.isSome_eq_false_iff, Option.isNone_iff_eq_none] at hexisting
    have hfresh : ∀ row ∈ (deleteExpiredPluginStateNamespaceEntries db target.pluginId
        target.namespaceId now).rows,
        row.primaryKey ≠ (target.row valueJson now expiresAt).primaryKey :=
      fresh_of_select hexisting
    rw [SqlTable.insert_eq_upsert hfresh] at h
    obtain ⟨db'', henforce, h⟩ := bind_eq_ok.mp h
    cases h
    exact .inl ⟨rfl, hexisting, inserts (primaryKey_row _ _) (isLive_of_resolve hexpires rfl)
      (fun _ => hassert) henforce⟩

theorem pluginStateUpdate_spec
    {updateValueJson : Option J → Except Thrown (Option (V × Option ℤ))} {stored : Bool}
    (h : pluginStateUpdate parse limit now db target options updateValueJson = .ok (db', stored)) :
    (stored = true ∧ Inserts limit target options now db db') ∨
    (stored = false ∧ db' =
      deleteExpiredPluginStateNamespaceEntries db target.pluginId target.namespaceId now) := by
  unfold pluginStateUpdate at h
  dsimp only at h
  obtain ⟨current, -, h⟩ := bind_eq_ok.mp h
  obtain ⟨next, -, h⟩ := bind_eq_ok.mp h
  cases next with
  | none =>
    cases h
    exact .inr ⟨rfl, rfl⟩
  | some next =>
    obtain ⟨valueJson, ttlMs⟩ := next
    dsimp only at h
    split_ifs at h with hexisting
    · obtain ⟨_, hassert, h⟩ := bind_eq_ok.mp h
      obtain ⟨expiresAt, hexpires, h⟩ := bind_eq_ok.mp h
      obtain ⟨db'', henforce, h⟩ := bind_eq_ok.mp h
      cases h
      exact .inl ⟨rfl, inserts (primaryKey_row _ _) (isLive_of_resolve hexpires rfl)
        (fun _ => hassert) henforce⟩
    · obtain ⟨expiresAt, hexpires, h⟩ := bind_eq_ok.mp h
      obtain ⟨db'', henforce, h⟩ := bind_eq_ok.mp h
      cases h
      rw [Option.isNone_iff_eq_none] at hexisting
      exact .inl ⟨rfl, inserts (primaryKey_row _ _) (isLive_of_resolve hexpires rfl)
        (fun hnone => absurd hnone hexisting) henforce⟩

/-- The two rows of an append; `mid` is the table between them. -/
structure Journals (limit : ℕ) (params : JournalParams P N K V) (now : ℤ)
    (db db' : Entries P N K V) (sequence : ℤ) : Prop where
  initial : params.initialSequence < sequence
  safe : sequence ≤ MAX_SAFE_INTEGER
  appends : ∃ (start mid : Entries P N K V) (prepared : PreparedEntry K V) (createdAt : ℤ),
    start = deleteExpiredPluginStateNamespaceEntries
      (deleteExpiredPluginStateNamespaceEntries db params.pluginId params.cursorNamespace now)
      params.pluginId params.journalNamespace now ∧
    sequence = params.nextSequence (selectPluginStateEntry start params.pluginId
      params.cursorNamespace params.cursorKey now) ∧
    params.prepareEntry sequence = .ok prepared ∧
    selectPluginStateEntry start params.pluginId params.journalNamespace prepared.journalKey now =
      none ∧
    allocatePluginStateNamespaceCreatedAt mid params.pluginId params.journalNamespace now =
      .ok createdAt ∧
    Stores params.cursor params.cursorOptions now
      (params.cursor.row prepared.cursorValueJson now none) start mid ∧
    Stores (params.journal prepared.journalKey) params.journalOptions now
      ((params.journal prepared.journalKey).row prepared.journalValueJson createdAt none) mid db'
  plugin : countLivePluginStateEntries db' params.pluginId now ≤ limit

omit [LinearOrder K] in
theorem assertCanInsert_evict {p : P} {n : N} (h : options.overflowPolicy = .evictOldest) :
    assertCanInsertPluginStateEntry limit db p n options now = .ok () := by
  unfold assertCanInsertPluginStateEntry
  rw [if_pos]
  rw [h]
  rintro ⟨⟩

theorem pluginStateRegisterSequencedJournalEntry_spec {params : JournalParams P N K V}
    {sequence : ℤ}
    (h : pluginStateRegisterSequencedJournalEntry limit now db params = .ok (db', sequence)) :
    Journals limit params now db db' sequence := by
  unfold pluginStateRegisterSequencedJournalEntry at h
  dsimp only at h
  split at h
  · cases h
  rename_i hsafe
  rw [not_not] at hsafe
  obtain ⟨prepared, hprepared, h⟩ := bind_eq_ok.mp h
  split at h
  · cases h
  rename_i hexisting
  rw [Bool.not_eq_true, Option.isSome_eq_false_iff, Option.isNone_iff_eq_none] at hexisting
  generalize hstart : deleteExpiredPluginStateNamespaceEntries
    (deleteExpiredPluginStateNamespaceEntries db params.pluginId params.cursorNamespace now)
    params.pluginId params.journalNamespace now = start at h hsafe hprepared hexisting
  obtain ⟨mid, hmid, h⟩ : ∃ mid, enforcePostRegisterLimits limit
      (start.upsert (params.cursor.row prepared.cursorValueJson now none)) params.pluginId
      params.cursorNamespace params.cursorOptions now params.cursorKey false = .ok mid ∧
      (do
        let createdAt ← allocatePluginStateNamespaceCreatedAt mid params.pluginId
          params.journalNamespace now
        let db ← enforcePostRegisterLimits limit (mid.upsert
          ((params.journal prepared.journalKey).row prepared.journalValueJson createdAt none))
          params.pluginId params.journalNamespace params.journalOptions now prepared.journalKey
        pure (db, params.nextSequence (selectPluginStateEntry start params.pluginId
          params.cursorNamespace params.cursorKey now))) = .ok (db', sequence) := by
    split_ifs at h
    · obtain ⟨_, -, h⟩ := bind_eq_ok.mp h
      obtain ⟨_, -, h⟩ := bind_eq_ok.mp h
      exact bind_eq_ok.mp h
    · obtain ⟨_, -, h⟩ := bind_eq_ok.mp h
      exact bind_eq_ok.mp h
  obtain ⟨createdAt, hcreatedAt, h⟩ := bind_eq_ok.mp h
  obtain ⟨last, hlast, h⟩ := bind_eq_ok.mp h
  cases h
  have hcursor : Stores params.cursor params.cursorOptions now
      (params.cursor.row prepared.cursorValueJson now none) start mid :=
    stores (primaryKey_row _ _) (fun _ => assertCanInsert_evict rfl) hmid
  have hjournal : Stores (params.journal prepared.journalKey) params.journalOptions now
      ((params.journal prepared.journalKey).row prepared.journalValueJson createdAt none) mid db' :=
    stores (primaryKey_row _ _) (fun _ => assertCanInsert_evict rfl) hlast
  refine ⟨?_, hsafe.2, ⟨start, mid, prepared, createdAt, hstart.symm, rfl, hprepared, hexisting,
    hcreatedAt, hcursor, hjournal⟩, ?_⟩
  · unfold JournalParams.nextSequence
    exact Int.lt_add_one_iff.mpr (le_max_left _ _)
  · exact ((enforcePostRegisterLimits_spec hlast).2.2 rfl).2 rfl

def Target.primaryKey (target : Target P N K) : P × N × K :=
  (target.pluginId, target.namespaceId, target.key)

namespace Call

/-- The keys that a call has stored, with the options of their namespaces. -/
def stored (call : Call P N K V J) (reply : Reply J) : List (Target P N K × StoreOptions) :=
  match call, reply with
  | .register target _ options _ _, _ => [(target, options)]
  | .registerIfAbsent target _ options _, .bool true => [(target, options)]
  | .update target options _, .bool true => [(target, options)]
  | .registerSequencedJournalEntry params, .sequence n =>
    match params.prepareEntry n with
    | .ok prepared =>
      [(params.cursor, params.cursorOptions),
        (params.journal prepared.journalKey, params.journalOptions)]
    | .error _ => []
  | _, _ => []

/-- The same without the cursor of an append to the namespace of the cursor itself. -/
def kept (call : Call P N K V J) (reply : Reply J) : List (Target P N K × StoreOptions) :=
  match call with
  | .registerSequencedJournalEntry params =>
    if params.cursorNamespace = params.journalNamespace then (call.stored reply).drop 1
    else call.stored reply
  | _ => call.stored reply

def namespaces : Call P N K V J → List (P × N)
  | .register target _ _ _ _ | .registerIfAbsent target _ _ _ | .update target _ _
  | .consume target | .delete target | .deleteIf target _ => [(target.pluginId, target.namespaceId)]
  | .registerSequencedJournalEntry params =>
    [(params.pluginId, params.cursorNamespace), (params.pluginId, params.journalNamespace)]
  | .clear pluginId ns => [(pluginId, ns)]

end Call

/-- What a call that returns has done. -/
structure Effect (limit : ℕ) (now : ℤ) (call : Call P N K V J) (reply : Reply J)
    (db db' : Entries P N K V) : Prop where
  /-- Rows that are new have keys that the call stores. -/
  source : ∀ row ∈ db'.rows, row ∈ db.rows ∨
    row.primaryKey ∈ (call.stored reply).map (·.1.primaryKey)
  /-- Rows of other namespaces and plugins stay. -/
  inside : ∀ row ∈ db.rows, row ∉ db'.rows → (row.pluginId, row.namespaceId) ∈ call.namespaces
  keeps : ∀ stored ∈ call.kept reply, ∃ row ∈ db'.rows,
    row.primaryKey = stored.1.primaryKey ∧ row.isLive now = true
  /-- A live row that makes room is older than what is left of its namespace. -/
  oldest : call.stored reply ≠ [] → ∀ row ∈ db.rows, row ∉ db'.rows → row.isLive now = true →
    row.primaryKey ∉ (call.stored reply).map (·.1.primaryKey) →
    ∀ left ∈ db'.rows, liveIn row.pluginId row.namespaceId now left = true →
      left.primaryKey ∉ (call.stored reply).map (·.1.primaryKey) → older row left
  evicts : ∀ stored ∈ call.kept reply, stored.2.overflowPolicy = .evictOldest →
    countLivePluginStateNamespaceEntries db' stored.1.pluginId stored.1.namespaceId now ≤
      stored.2.maxEntries
  rejects : ∀ stored ∈ call.kept reply, stored.2.overflowPolicy = .rejectNew →
    countLivePluginStateNamespaceEntries db' stored.1.pluginId stored.1.namespaceId now ≤
      max stored.2.maxEntries (countLivePluginStateNamespaceEntries db stored.1.pluginId
        stored.1.namespaceId now)
  plugin : ∀ stored ∈ call.stored reply,
    countLivePluginStateEntries db stored.1.pluginId now ≤ limit →
      countLivePluginStateEntries db' stored.1.pluginId now ≤ limit

variable {call : Call P N K V J} {reply : Reply J}

/-- A call that only removes rows, of one namespace. -/
theorem effect_removes (hstored : call.stored reply = []) (hkept : call.kept reply = [])
    (hsubset : ∀ row ∈ db'.rows, row ∈ db.rows)
    (hinside : ∀ row ∈ db.rows, row ∉ db'.rows →
      (row.pluginId, row.namespaceId) ∈ call.namespaces) : Effect limit now call reply db db' where
  source row hrow := .inl (hsubset row hrow)
  inside := hinside
  keeps := by rw [hkept]; exact List.forall_mem_nil _
  oldest hne := absurd hstored hne
  evicts := by rw [hkept]; exact List.forall_mem_nil _
  rejects := by rw [hkept]; exact List.forall_mem_nil _
  plugin := by rw [hstored]; exact List.forall_mem_nil _

theorem effect_deleteExpired (hstored : call.stored reply = []) (hkept : call.kept reply = [])
    (hnamespaces : (target.pluginId, target.namespaceId) ∈ call.namespaces) :
    Effect limit now call reply db
      (deleteExpiredPluginStateNamespaceEntries db target.pluginId target.namespaceId now) := by
  apply effect_removes hstored hkept
  · intro row hrow
    exact (mem_deleteExpired.mp hrow).1
  · intro row hrow hgone
    rw [mem_deleteExpired, not_and, Classical.not_imp] at hgone
    obtain ⟨hp, hn⟩ := isIn_iff.mp (hgone hrow).1
    rw [hp, hn]
    exact hnamespaces

/-- A call that stores one row. -/
theorem effect_inserts (hstored : call.stored reply = [(target, options)])
    (hkept : call.kept reply = [(target, options)])
    (hnamespaces : call.namespaces = [(target.pluginId, target.namespaceId)])
    (h : Inserts limit target options now db db') : Effect limit now call reply db db' := by
  obtain ⟨⟨row, hrow, hlive, hstores⟩, hplugin⟩ := h
  -- a row of another namespace is neither expired here nor evicted
  have hinside : ∀ r ∈ db.rows, r ∉ db'.rows → r.isIn target.pluginId target.namespaceId = true := by
    intro r hr hgone
    by_cases hexpired : r ∈ (deleteExpiredPluginStateNamespaceEntries db target.pluginId
        target.namespaceId now).rows
    · exact hstores.inside r hexpired hgone
    · rw [mem_deleteExpired, not_and, Classical.not_imp] at hexpired
      exact (hexpired hr).1
  constructor
  case source =>
    intro r hr
    rcases hstores.source r hr with rfl | ⟨hold, -⟩
    · right
      rw [hstored, hrow]
      exact List.mem_singleton.mpr rfl
    · exact .inl (mem_deleteExpired.mp hold).1
  case inside =>
    intro r hr hgone
    obtain ⟨hp, hn⟩ := isIn_iff.mp (hinside r hr hgone)
    rw [hnamespaces, hp, hn]
    exact List.mem_singleton.mpr rfl
  case keeps =>
    intro stored hmem
    rw [hkept, List.mem_singleton] at hmem
    rw [hmem]
    exact ⟨row, hstores.written, hrow, hlive⟩
  case oldest =>
    intro _ r hr hgone hr_live hkey left hleft hlive_left hkey_left
    rw [hstored] at hkey hkey_left
    obtain ⟨hp, hn⟩ := isIn_iff.mp (hinside r hr hgone)
    rw [hp, hn] at hlive_left
    apply hstores.oldest r (mem_deleteExpired.mpr ⟨hr, fun _ => hr_live⟩) hgone hr_live _ left hleft
      hlive_left
    · intro hsame
      apply hkey_left
      obtain ⟨hp', hn'⟩ := isIn_iff.mp (Bool.and_eq_true_iff.mp hlive_left).1
      show left.primaryKey ∈ [target.primaryKey]
      rw [List.mem_singleton]
      unfold PluginStateRow.primaryKey Target.primaryKey
      rw [hp', hn', hsame]
    · intro hsame
      apply hkey
      rw [hsame, hrow]
      exact List.mem_singleton.mpr rfl
  case evicts =>
    intro stored hmem hpolicy
    rw [hkept, List.mem_singleton] at hmem
    rw [hmem] at hpolicy ⊢
    exact hstores.evicts hpolicy
  case rejects =>
    intro stored hmem hpolicy
    rw [hkept, List.mem_singleton] at hmem
    rw [hmem] at hpolicy ⊢
    -- the limit is checked behind the expired rows' deletion, which only lowers the count
    have hle : countLivePluginStateNamespaceEntries (deleteExpiredPluginStateNamespaceEntries db
        target.pluginId target.namespaceId now) target.pluginId target.namespaceId now ≤
        countLivePluginStateNamespaceEntries db target.pluginId target.namespaceId now :=
      count_deleteExpired_le _
    have hcount := hstores.rejects hpolicy
    dsimp only
    omega
  case plugin =>
    intro stored hmem hle
    rw [hstored, List.mem_singleton] at hmem
    rw [hmem] at hle ⊢
    exact hplugin hle

section Append

variable {params : JournalParams P N K V} {sequence : ℤ}

omit [LinearOrder K] in
/-- `db` without the expired rows of both namespaces. -/
theorem mem_start {row : PluginStateRow P N K V} {n n' : N} {p : P} :
    row ∈ (deleteExpiredPluginStateNamespaceEntries
      (deleteExpiredPluginStateNamespaceEntries db p n now) p n' now).rows ↔
      row ∈ db.rows ∧ (row.isIn p n = true ∨ row.isIn p n' = true → row.isLive now = true) := by
  rw [mem_deleteExpired, mem_deleteExpired]
  tauto

theorem effect_journals (h : Journals limit params now db db' sequence) :
    Effect (J := J) limit now (.registerSequencedJournalEntry params) (.sequence sequence) db db' := by
  obtain ⟨-, -, ⟨start, mid, prepared, createdAt, rfl, hsequence, hprepared, hnone, hcreatedAt,
    hcursor, hjournal⟩, hplugin⟩ := h
  have hstored : Call.stored (J := J) (.registerSequencedJournalEntry params) (.sequence sequence) =
      [(params.cursor, params.cursorOptions),
        (params.journal prepared.journalKey, params.journalOptions)] := by
    unfold Call.stored
    dsimp only
    rw [hprepared]
  -- the cursor is kept where the entries are in another namespace
  have hkept : ∀ stored ∈ Call.kept (J := J) (.registerSequencedJournalEntry params)
      (.sequence sequence), (params.cursorNamespace ≠ params.journalNamespace ∧
        stored = (params.cursor, params.cursorOptions)) ∨
      stored = (params.journal prepared.journalKey, params.journalOptions) := by
    intro stored hmem
    unfold Call.kept at hmem
    dsimp only at hmem
    rw [hstored] at hmem
    split_ifs at hmem with hsame
    · exact .inr (List.mem_singleton.mp hmem)
    · rcases List.mem_pair.mp hmem with hmem | hmem
      · exact .inl ⟨hsame, hmem⟩
      · exact .inr hmem
  have hsplit : ∀ r ∈ db.rows, r ∉ db'.rows →
      r.isIn params.pluginId params.cursorNamespace = true ∨
        r.isIn params.pluginId params.journalNamespace = true := by
    intro r hr hgone
    by_contra hother
    rw [not_or] at hother
    have hstart : r ∈ (deleteExpiredPluginStateNamespaceEntries
        (deleteExpiredPluginStateNamespaceEntries db params.pluginId params.cursorNamespace now)
        params.pluginId params.journalNamespace now).rows :=
      mem_start.mpr ⟨hr, fun hin => absurd hin (not_or.mpr hother)⟩
    by_cases hmid : r ∈ mid.rows
    · exact hother.2 (hjournal.inside r hmid hgone)
    · exact hother.1 (hcursor.inside r hstart hmid)
  have hsource : ∀ r ∈ db'.rows, r ∈ db.rows ∨ r.primaryKey = params.cursor.primaryKey ∨
      r.primaryKey = (params.journal prepared.journalKey).primaryKey := by
    intro r hr
    rcases hjournal.source r hr with rfl | ⟨hmid, -⟩
    · exact .inr (.inr rfl)
    · rcases hcursor.source r hmid with rfl | ⟨hold, -⟩
      · exact .inr (.inl rfl)
      · exact .inl (mem_start.mp hold).1
  have hwritten : params.cursorNamespace ≠ params.journalNamespace →
      params.cursor.row prepared.cursorValueJson now none ∈ db'.rows := by
    intro hne
    by_contra hgone
    have hin := hjournal.inside _ hcursor.written hgone
    exact hne (isIn_iff.mp hin).2
  constructor
  case source =>
    intro r hr
    rw [hstored]
    rcases hsource r hr with hold | hkey | hkey
    · exact .inl hold
    · exact .inr (List.mem_cons.mpr (.inl hkey))
    · exact .inr (List.mem_cons.mpr (.inr (List.mem_singleton.mpr hkey)))
  case inside =>
    intro r hr hgone
    unfold Call.namespaces
    rcases hsplit r hr hgone with hin | hin
    · obtain ⟨hp, hn⟩ := isIn_iff.mp hin
      rw [hp, hn]
      exact List.mem_cons_self
    · obtain ⟨hp, hn⟩ := isIn_iff.mp hin
      rw [hp, hn]
      exact List.mem_cons_of_mem _ List.mem_cons_self
  case keeps =>
    intro stored hmem
    rcases hkept stored hmem with ⟨hne, rfl⟩ | rfl
    · exact ⟨_, hwritten hne, rfl, rfl⟩
    · exact ⟨_, hjournal.written, rfl, rfl⟩
  case oldest =>
    intro _ r hr hgone hlive hkey left hleft hlive_left hkey_left
    rw [hstored] at hkey hkey_left
    simp only [List.map_cons, List.map_nil, List.mem_cons, List.not_mem_nil, or_false, not_or]
      at hkey hkey_left
    have hstart : r ∈ (deleteExpiredPluginStateNamespaceEntries
        (deleteExpiredPluginStateNamespaceEntries db params.pluginId params.cursorNamespace now)
        params.pluginId params.journalNamespace now).rows :=
      mem_start.mpr ⟨hr, fun _ => hlive⟩
    have hkey_ne : ∀ {target : Target P N K}, left.primaryKey ≠ target.primaryKey →
        left.isIn target.pluginId target.namespaceId = true → left.entryKey ≠ target.key := by
      intro target hne hin hsame
      obtain ⟨hp, hn⟩ := isIn_iff.mp hin
      apply hne
      unfold PluginStateRow.primaryKey Target.primaryKey
      rw [hp, hn, hsame]
    by_cases hmid : r ∈ mid.rows
    · -- the entries have made room
      obtain ⟨hp, hn⟩ := isIn_iff.mp (hjournal.inside r hmid hgone)
      rw [hp, hn] at hlive_left
      exact hjournal.oldest r hmid hgone hlive hkey.2 left hleft hlive_left
        (hkey_ne hkey_left.2 (Bool.and_eq_true_iff.mp hlive_left).1)
    · obtain ⟨hp, hn⟩ := isIn_iff.mp (hcursor.inside r hstart hmid)
      rw [hp, hn] at hlive_left
      have hleft_mid : left ∈ mid.rows := by
        rcases hjournal.source left hleft with rfl | ⟨hmem, -⟩
        · exact absurd rfl hkey_left.2
        · exact hmem
      exact hcursor.oldest r hstart hmid hlive hkey.1 left hleft_mid hlive_left
        (hkey_ne hkey_left.1 (Bool.and_eq_true_iff.mp hlive_left).1)
  case evicts =>
    intro stored hmem hpolicy
    rcases hkept stored hmem with ⟨hne, rfl⟩ | rfl
    · apply le_trans _ (hcursor.evicts rfl)
      apply SqlTable.count_le_of_subset
      intro r hr hlive
      rcases hjournal.source r hr with rfl | ⟨hmid, -⟩
      · exact absurd (isIn_iff.mp (Bool.and_eq_true_iff.mp hlive).1).2.symm hne
      · exact hmid
    · exact hjournal.evicts rfl
  case rejects =>
    intro stored hmem hpolicy
    rcases hkept stored hmem with ⟨-, rfl⟩ | rfl <;> cases hpolicy
  case plugin =>
    intro stored hmem _
    rw [hstored] at hmem
    rcases List.mem_pair.mp hmem with rfl | rfl <;> exact hplugin

omit [LinearOrder K] in
/-- The creation time that an append gets is later than that of every row of its namespace. -/
theorem allocate_spec {p : P} {n : N} {createdAt : ℤ}
    (h : allocatePluginStateNamespaceCreatedAt db p n now = .ok createdAt) :
    now ≤ createdAt ∧ ∀ row ∈ db.rows, row.isIn p n = true → row.createdAt < createdAt := by
  unfold allocatePluginStateNamespaceCreatedAt at h
  dsimp only at h
  split_ifs at h
  cases hmax : maxCreatedAt db p n with
  | none =>
    rw [hmax] at h
    cases h
    refine ⟨le_rfl, ?_⟩
    intro row hrow hin
    unfold maxCreatedAt at hmax
    rw [List.max?_eq_none_iff, List.map_eq_nil_iff, List.filter_eq_nil_iff] at hmax
    exact absurd hin (hmax row hrow)
  | some previous =>
    rw [hmax] at h
    cases h
    refine ⟨le_max_left _ _, ?_⟩
    intro row hrow hin
    unfold maxCreatedAt at hmax
    have hle := (List.max?_eq_some_iff.mp hmax).2 row.createdAt
      (List.mem_map.mpr ⟨row, List.mem_filter.mpr ⟨hrow, hin⟩, rfl⟩)
    exact (Int.lt_add_one_iff.mpr hle).trans_le (le_max_right _ _)

/-- The row of an append is the latest of its namespace. -/
theorem createdAt_journals (h : Journals limit params now db db' sequence) :
    ∃ prepared, params.prepareEntry sequence = .ok prepared ∧ ∃ row ∈ db'.rows,
      row.primaryKey = (params.journal prepared.journalKey).primaryKey ∧
      ∀ other ∈ db'.rows, other.isIn params.pluginId params.journalNamespace = true →
        other ≠ row → other.createdAt < row.createdAt := by
  obtain ⟨-, -, ⟨start, mid, prepared, createdAt, rfl, hsequence, hprepared, hnone, hcreatedAt,
    hcursor, hjournal⟩, hplugin⟩ := h
  refine ⟨prepared, hprepared, _, hjournal.written, rfl, ?_⟩
  intro other hother hin hne
  rcases hjournal.source other hother with rfl | ⟨hmid, -⟩
  · exact absurd rfl hne
  · exact (allocate_spec hcreatedAt).2 other hmid hin

end Append

theorem pluginStateConsume_spec {value : Option J}
    (h : pluginStateConsume parse now db target = .ok (db', value)) :
    db' = db ∨ db' = db.delete fun row => row.primaryKey = target.primaryKey := by
  unfold pluginStateConsume at h
  split at h
  · cases h
    exact .inl rfl
  · obtain ⟨found, -, h⟩ := bind_eq_ok.mp h
    cases h
    exact .inr rfl

theorem pluginStateDeleteIf_spec {predicate : J → Except Thrown Bool} {deleted : Bool}
    (h : pluginStateDeleteIf parse now db target predicate = .ok (db', deleted)) :
    db' = db ∨ db' = db.delete fun row => row.primaryKey = target.primaryKey := by
  unfold pluginStateDeleteIf at h
  split at h
  · cases h
    exact .inl rfl
  · obtain ⟨found, -, h⟩ := bind_eq_ok.mp h
    obtain ⟨holds, -, h⟩ := bind_eq_ok.mp h
    cases holds with
    | false =>
      cases h
      exact .inl rfl
    | true =>
      cases h
      exact .inr rfl

/-- Deletions of one key, or of none. -/
theorem effect_deletes (hstored : call.stored reply = []) (hkept : call.kept reply = [])
    (hnamespaces : call.namespaces = [(target.pluginId, target.namespaceId)])
    (h : db' = db ∨ db' = db.delete fun row => row.primaryKey = target.primaryKey) :
    Effect limit now call reply db db' := by
  apply effect_removes hstored hkept
  · intro row hrow
    rcases h with rfl | rfl
    · exact hrow
    · exact (SqlTable.mem_delete.mp hrow).1
  · intro row hrow hgone
    rcases h with rfl | rfl
    · exact absurd hrow hgone
    · rw [SqlTable.mem_delete, not_and, Bool.not_eq_false, decide_eq_true_eq] at hgone
      have hkey := hgone hrow
      unfold PluginStateRow.primaryKey Target.primaryKey at hkey
      simp only [Prod.mk.injEq] at hkey
      rw [hnamespaces, hkey.1, hkey.2.1]
      exact List.mem_singleton.mpr rfl

theorem effect_body (h : call.body parse limit now db = .ok (db', reply)) :
    Effect limit now call reply db db' := by
  cases call with
  | register target valueJson options ttlMs createdAtMs =>
    obtain ⟨db'', hregister, heq⟩ := map_eq_ok.mp h
    cases heq
    exact effect_inserts rfl rfl rfl (pluginStateRegister_spec hregister)
  | registerIfAbsent target valueJson options ttlMs =>
    obtain ⟨⟨db'', stored⟩, hregister, heq⟩ := map_eq_ok.mp h
    cases heq
    rcases pluginStateRegisterIfAbsent_spec hregister with ⟨rfl, -, hinserts⟩ | ⟨rfl, rfl⟩
    · exact effect_inserts rfl rfl rfl hinserts
    · exact effect_deleteExpired rfl rfl (List.mem_singleton.mpr rfl)
  | update target options updateValueJson =>
    obtain ⟨⟨db'', stored⟩, hupdate, heq⟩ := map_eq_ok.mp h
    cases heq
    rcases pluginStateUpdate_spec hupdate with ⟨rfl, hinserts⟩ | ⟨rfl, rfl⟩
    · exact effect_inserts rfl rfl rfl hinserts
    · exact effect_deleteExpired rfl rfl (List.mem_singleton.mpr rfl)
  | registerSequencedJournalEntry params =>
    obtain ⟨⟨db'', sequence⟩, hjournal, heq⟩ := map_eq_ok.mp h
    cases heq
    exact effect_journals (pluginStateRegisterSequencedJournalEntry_spec hjournal)
  | consume target =>
    obtain ⟨⟨db'', value⟩, hconsume, heq⟩ := map_eq_ok.mp h
    cases heq
    exact effect_deletes rfl rfl rfl (pluginStateConsume_spec hconsume)
  | delete target =>
    cases h
    exact effect_deletes rfl rfl rfl (.inr rfl)
  | deleteIf target predicate =>
    obtain ⟨⟨db'', deleted⟩, hdelete, heq⟩ := map_eq_ok.mp h
    cases heq
    exact effect_deletes rfl rfl rfl (pluginStateDeleteIf_spec hdelete)
  | clear pluginId ns =>
    cases h
    apply effect_removes rfl rfl
    · intro row hrow
      exact (SqlTable.mem_delete.mp hrow).1
    · intro row hrow hgone
      rw [pluginStateClear, SqlTable.mem_delete, not_and, Bool.not_eq_false] at hgone
      obtain ⟨hp, hn⟩ := isIn_iff.mp (hgone hrow)
      rw [hp, hn]
      exact List.mem_singleton.mpr rfl

/-- A call that throws changes nothing, and one that returns does what `Effect` says. -/
theorem perform_spec (call : Call P N K V J) (now : ℤ) (db : Entries P N K V) :
    (∀ code, (call.perform parse limit now db).2 = .error code →
      (call.perform parse limit now db).1 = db) ∧
    ∀ reply, (call.perform parse limit now db).2 = .ok reply →
      Effect limit now call reply db (call.perform parse limit now db).1 := by
  unfold Call.perform
  cases hbody : call.body parse limit now db with
  | error e => exact ⟨fun _ _ => rfl, by rintro reply ⟨⟩⟩
  | ok result =>
    refine ⟨by rintro code ⟨⟩, ?_⟩
    intro reply hreply
    cases hreply
    exact effect_body hbody

end Flashclaw.PluginState
