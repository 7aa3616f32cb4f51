import Flashclaw.PluginState.Sequences

/-!
# Plugin state: the contract

What holds of all calls of the store.  The callbacks of appends are those of
`plugin-state-store.ts`.
-/

namespace Flashclaw.PluginState

open Results

/-- The number where `Number.isSafeInteger` holds. -/
def safeInteger : Number → Option ℤ
  | .finite d =>
    if d.value.den = 1 ∧ -MAX_SAFE_INTEGER ≤ d.value.num ∧ d.value.num ≤ MAX_SAFE_INTEGER then
      some d.value.num
    else none
  | .negZero => some 0
  | _ => none

def readCursorSequence (valueJson : Utf16) : Option ℤ :=
  match Json.parse valueJson with
  | some (.object fields) =>
    match fields.lookup (Utf16.ofString "kind"), fields.lookup (Utf16.ofString "lastSequence") with
    | some (.string kind), some (.number n) =>
      if kind = Utf16.ofString "cursor" then safeInteger n else none
    | _, _ => none
  | _ => none

/-- The value of a cursor; its sequence is positive. -/
def cursorValue (sequence : ℤ) : JsValue :=
  .object [(Utf16.ofString "kind", .string (Utf16.ofString "cursor")),
    (Utf16.ofString "lastSequence", .number (.ofRat sequence))]

/-- `prepareRegister` is `prepareRegisterParams` of the caller's entry. -/
def registerPluginStateSyncSequencedJournalEntry {P N K : Type} (pluginId : P)
    (cursorNamespace : N) (cursorKey : K) (cursorMaxEntries : ℕ+) (journalNamespace : N)
    (journalMaxEntries : ℕ+) (initialSequence : ℤ) (prepareRegister : ℤ → Except Thrown (K × Utf16)) :
    Except Thrown (JournalParams P N K Utf16) :=
  if ¬ (0 ≤ initialSequence ∧ initialSequence ≤ MAX_SAFE_INTEGER) then .error (.store .invalidInput)
  else .ok {
    pluginId
    cursorNamespace
    cursorKey
    cursorMaxEntries := cursorMaxEntries
    cursorMaxEntries_pos := cursorMaxEntries.pos
    journalNamespace
    journalMaxEntries := journalMaxEntries
    journalMaxEntries_pos := journalMaxEntries.pos
    initialSequence
    readCursorSequence
    prepareEntry := fun sequence => (prepareRegister sequence).map fun journal =>
      ⟨Json.render (cursorValue sequence), journal.1, journal.2⟩ }

/-- The cursor is read back as it was written. -/
theorem readCursorSequence_render {n : ℤ} (h0 : 0 ≤ n) (h : n ≤ MAX_SAFE_INTEGER) :
    readCursorSequence (Json.render (cursorValue n)) = some n := by
  obtain ⟨k, rfl⟩ := Int.eq_ofNat_of_zero_le h0
  have hk : k < 2 ^ 53 := by
    unfold MAX_SAFE_INTEGER at h
    omega
  have hnumber : Number.ofRat ((k : ℤ) : ℚ) = .finite (.ofNat k hk) := by
    rw [Int.cast_natCast]
    exact Number.ofRat_natCast hk
  have hkeys : Json.UniqueKeys (cursorValue k) := by
    refine ⟨?_, trivial, trivial, trivial⟩
    show [Utf16.ofString "kind", Utf16.ofString "lastSequence"].Nodup
    decide
  have hclean : Json.clean (cursorValue k) = .object [
      (Utf16.ofString "kind", .string (Utf16.ofString "cursor")),
      (Utf16.ofString "lastSequence", .number (.finite (.ofNat k hk)))] := by
    unfold cursorValue
    rw [hnumber]
    rfl
  have hkind : Utf16.ofString "lastSequence" ≠ Utf16.ofString "kind" := by decide
  unfold readCursorSequence
  rw [Json.parse_render _ hkeys, hclean]
  dsimp only
  rw [List.lookup_cons_self, List.lookup_cons, beq_false_of_ne hkind]
  dsimp only
  rw [List.lookup_cons_self]
  dsimp only
  rw [if_pos rfl]
  unfold safeInteger Double.ofNat
  dsimp only
  rw [if_pos, Rat.num_natCast]
  rw [Rat.den_natCast, Rat.num_natCast]
  exact ⟨rfl, le_trans (by decide) h0, h⟩

theorem coherent_of_facade {P N K : Type} {pluginId : P} {cursorNamespace journalNamespace : N}
    {cursorKey : K} {cursorMaxEntries journalMaxEntries : ℕ+} {initialSequence : ℤ}
    {prepareRegister : ℤ → Except Thrown (K × Utf16)} {params : JournalParams P N K Utf16}
    (h : registerPluginStateSyncSequencedJournalEntry pluginId cursorNamespace cursorKey
      cursorMaxEntries journalNamespace journalMaxEntries initialSequence prepareRegister =
        .ok params)
    (hapart : ∀ n journal, initialSequence < n → prepareRegister n = .ok journal →
      (journalNamespace, journal.1) ≠ (cursorNamespace, cursorKey)) :
    Coherent readCursorSequence params := by
  unfold registerPluginStateSyncSequencedJournalEntry at h
  split_ifs at h with hinitial
  cases h
  refine ⟨rfl, ?_, ?_⟩
  · intro n prepared hlow hprepared hkey
    obtain ⟨journal, hjournal, rfl⟩ := map_eq_ok.mp hprepared
    exact hapart n journal hlow hjournal (congrArg Prod.snd hkey)
  · intro n prepared hlow hhigh hprepared
    obtain ⟨journal, -, rfl⟩ := map_eq_ok.mp hprepared
    exact readCursorSequence_render (hinitial.1.trans hlow.le) hhigh

section

variable {P N K V J : Type} [DecidableEq P] [DecidableEq N] [LinearOrder K]

variable {parse : V → Option J} {limit : ℕ} {now : ℤ} {db : Entries P N K V}

theorem journal_of_perform {params : JournalParams P N K V} {n : ℤ}
    (h : ((Call.registerSequencedJournalEntry params).perform parse limit now db).2 =
      .ok (.sequence n)) :
    pluginStateRegisterSequencedJournalEntry limit now db params =
      .ok (((Call.registerSequencedJournalEntry params).perform parse limit now db).1, n) := by
  unfold Call.perform at h ⊢
  unfold Call.body at h ⊢
  dsimp only at h ⊢
  cases hjournal : pluginStateRegisterSequencedJournalEntry limit now db params with
  | error e =>
    rw [hjournal] at h
    cases h
  | ok result =>
    rw [hjournal] at h
    obtain ⟨db', sequence⟩ := result
    cases h
    rfl

/-- Calls that throw change nothing, and the others keep the limits; the rows of appends
are the latest of their namespaces, and their sequences grow while their cursors live. -/
theorem store_contract (parse : V → Option J) (limit : ℕ) :
    (∀ (call : Call P N K V J) now db,
      (∀ code, (call.perform parse limit now db).2 = .error code →
        (call.perform parse limit now db).1 = db) ∧
      ∀ reply, (call.perform parse limit now db).2 = .ok reply →
        Effect limit now call reply db (call.perform parse limit now db).1) ∧
    (∀ (params : JournalParams P N K V) now db n,
      ((Call.registerSequencedJournalEntry params).perform parse limit now db).2 =
        .ok (.sequence n) →
      ∃ prepared, params.prepareEntry n = .ok prepared ∧
        ∃ row ∈ ((Call.registerSequencedJournalEntry params).perform parse limit now db).1.rows,
          row.primaryKey = (params.journal prepared.journalKey).primaryKey ∧
          ∀ other ∈ ((Call.registerSequencedJournalEntry params).perform parse limit now db).1.rows,
            other.isIn params.pluginId params.journalNamespace = true → other ≠ row →
              other.createdAt < row.createdAt) ∧
    (∀ (read : V → Option ℤ) (params params' : JournalParams P N K V) now now' db
        (calls : List (ℤ × Call P N K V J)) n n',
      Coherent read params → Coherent read params' →
      params'.cursor.primaryKey = params.cursor.primaryKey →
      (∀ call ∈ calls, call.2.Respects read params.cursor.primaryKey) →
      ((Call.registerSequencedJournalEntry params).perform parse limit now db).2 =
        .ok (.sequence n) →
      Lives parse limit params.cursor.primaryKey
        ((Call.registerSequencedJournalEntry params).perform parse limit now db).1 calls →
      ((Call.registerSequencedJournalEntry params').perform parse limit now' (run parse limit
        ((Call.registerSequencedJournalEntry params).perform parse limit now db).1 calls)).2 =
          .ok (.sequence n') →
      n < n') ∧
    (∀ (pluginId : P) (cursorNamespace : N) (cursorKey : K) cursorMaxEntries journalNamespace
        journalMaxEntries initialSequence prepareRegister params,
      registerPluginStateSyncSequencedJournalEntry pluginId cursorNamespace cursorKey
        cursorMaxEntries journalNamespace journalMaxEntries initialSequence prepareRegister =
          .ok params →
      (∀ n journal, initialSequence < n → prepareRegister n = .ok journal →
        (journalNamespace, journal.1) ≠ (cursorNamespace, cursorKey)) →
      Coherent readCursorSequence params) := by
  refine ⟨perform_spec, ?_, ?_, ?_⟩
  · intro params now db n h
    exact createdAt_journals
      (pluginStateRegisterSequencedJournalEntry_spec (journal_of_perform h))
  · intro read params params' now now' db calls n n' hcoherent hcoherent' hsame hrespects h hlives h'
    exact sequences_grow (journal_of_perform h) hcoherent hcoherent' hsame hrespects hlives
      (journal_of_perform h')
  · intro pluginId cursorNamespace cursorKey cursorMaxEntries journalNamespace journalMaxEntries
      initialSequence prepareRegister params h hapart
    exact coherent_of_facade h hapart

end

/-- An append with its cursor among its entries, which are one at most. -/
def sharedParams : JournalParams ℕ ℕ ℕ ℤ where
  pluginId := 0
  cursorNamespace := 0
  cursorKey := 0
  cursorMaxEntries := 1
  cursorMaxEntries_pos := Nat.one_pos
  journalNamespace := 0
  journalMaxEntries := 1
  journalMaxEntries_pos := Nat.one_pos
  initialSequence := 0
  readCursorSequence := some
  prepareEntry n := .ok ⟨n, n.toNat, n⟩

/-- One with its entries in a namespace of their own. -/
def apartParams : JournalParams ℕ ℕ ℕ ℤ := { sharedParams with journalNamespace := 1 }

def sampleAppend : Call ℕ ℕ ℕ ℤ ℤ := .registerSequencedJournalEntry apartParams

def sampleRegister : Call ℕ ℕ ℕ ℤ ℤ := .register ⟨0, 0, 0⟩ 0 ⟨1, .evictOldest, Nat.one_pos⟩ none none

theorem coherent_apartParams : Coherent some apartParams := by
  refine ⟨rfl, ?_, ?_⟩
  · intro n prepared _ _ hkey
    cases hkey
  · intro n prepared _ _ hprepared
    cases hprepared
    rfl

/-- One whose cursor has room among its entries. -/
def roomyParams : JournalParams ℕ ℕ ℕ ℤ :=
  { sharedParams with
    cursorMaxEntries := 3
    cursorMaxEntries_pos := by decide
    journalMaxEntries := 3
    journalMaxEntries_pos := by decide }

theorem coherent_roomyParams : Coherent some roomyParams := by
  refine ⟨rfl, ?_, ?_⟩
  · intro n prepared hlow hprepared hkey
    obtain rfl := Except.ok.inj hprepared
    have hzero : n.toNat = 0 := congrArg (fun k => k.2.2) hkey
    have hpos : 0 < n := hlow
    omega
  · intro n prepared _ _ hprepared
    cases hprepared
    rfl

theorem store_contract_sample :
    (sampleAppend.perform some 10 0 SqlTable.empty).2 = .ok (.sequence 1) ∧
    (sampleAppend.perform some 10 0
      (run some 10 (sampleAppend.perform some 10 0 SqlTable.empty).1 [(0, sampleAppend)])).2 =
      .ok (.sequence 3) ∧ (1 : ℤ) < 3 ∧
    ((Call.registerSequencedJournalEntry roomyParams).perform (J := ℤ) some 10 0
      ((Call.registerSequencedJournalEntry roomyParams).perform (J := ℤ) some 10 0
        SqlTable.empty).1).2 = .ok (.sequence 2) ∧ (1 : ℤ) < 2 := by
  refine ⟨rfl, rfl, ?_, rfl, ?_⟩
  · apply (store_contract (J := ℤ) some 10).2.2.1 some apartParams apartParams 0 0 SqlTable.empty
      [(0, sampleAppend)] 1 3 coherent_apartParams coherent_apartParams rfl
    · intro call hcall
      rw [List.mem_singleton.mp hcall]
      exact fun _ => coherent_apartParams
    · rfl
    · unfold Lives Lives
      decide
    · rfl
  · apply (store_contract (J := ℤ) some 10).2.2.1 some roomyParams roomyParams 0 0 SqlTable.empty
      [] 1 2 coherent_roomyParams coherent_roomyParams rfl
    · intro call hcall
      cases hcall
    · rfl
    · unfold Lives
      decide
    · rfl

/-- The cursor just written makes room for the entry; and a cursor that is registered
goes back to the sequence that it is given. -/
theorem cursor_lost :
    (((Call.registerSequencedJournalEntry sharedParams).perform (J := ℤ) some 10 0
        SqlTable.empty).2 = .ok (.sequence 1) ∧
      ∀ row ∈ ((Call.registerSequencedJournalEntry sharedParams).perform (J := ℤ) some 10 0
        SqlTable.empty).1.rows, row.primaryKey ≠ sharedParams.cursor.primaryKey) ∧
    (sampleAppend.perform some 10 0 (run some 10 SqlTable.empty [(0, sampleAppend)])).2 =
      .ok (.sequence 2) ∧
    Lives some 10 apartParams.cursor.primaryKey
      (run some 10 SqlTable.empty [(0, sampleAppend), (0, sampleAppend)]) [(0, sampleRegister)] ∧
    (sampleAppend.perform some 10 0 (run some 10 SqlTable.empty
      [(0, sampleAppend), (0, sampleAppend), (0, sampleRegister)])).2 = .ok (.sequence 1) := by
  refine ⟨⟨?_, ?_⟩, ?_, ⟨?_, ?_⟩, ?_⟩
  · rfl
  · decide
  · rfl
  · decide
  · unfold Lives
    decide
  · rfl

end Flashclaw.PluginState
