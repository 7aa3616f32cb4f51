import Flashclaw.Lib.Json
import Flashclaw.PluginState.Calls

/-!
# Plugin state: sequences

The sequences that appends with one cursor return, as long as its row is there and
only appends write it.
-/

namespace Flashclaw.PluginState

open Results

section Runs

variable {P N K V J : Type} [DecidableEq P] [DecidableEq N] [LinearOrder K]

variable (parse : V → Option J) (limit : ℕ)

/-- Calls one after the other, each at its clock. -/
def run (db : Entries P N K V) : List (ℤ × Call P N K V J) → Entries P N K V
  | [] => db
  | (now, call) :: calls => run (call.perform parse limit now db).1 calls

/-- The row of a key is there from `db` on to the end of a run. -/
def Lives (key : P × N × K) (db : Entries P N K V) : List (ℤ × Call P N K V J) → Prop
  | [] => ∃ row ∈ db.rows, row.primaryKey = key
  | (now, call) :: calls => (∃ row ∈ db.rows, row.primaryKey = key) ∧
    Lives key (call.perform parse limit now db).1 calls

variable {parse limit}

/-- The callbacks of an append agree with `read`, and no entry of it has the key of its cursor. -/
structure Coherent (read : V → Option ℤ) (params : JournalParams P N K V) : Prop where
  read_eq : params.readCursorSequence = read
  apart : ∀ n prepared, params.initialSequence < n → params.prepareEntry n = .ok prepared →
    (params.journal prepared.journalKey).primaryKey ≠ params.cursor.primaryKey
  prepares : ∀ n prepared, params.initialSequence < n → n ≤ MAX_SAFE_INTEGER →
    params.prepareEntry n = .ok prepared → read prepared.cursorValueJson = some n

/-- Only appends write the row of a cursor. -/
def Call.Respects (read : V → Option ℤ) (key : P × N × K) : Call P N K V J → Prop
  | .register target _ _ _ _ => target.primaryKey ≠ key
  | .update target _ _ => target.primaryKey ≠ key
  | .registerSequencedJournalEntry params =>
    params.cursor.primaryKey = key → Coherent read params
  | _ => True

/-- The row of a cursor holds `n` or a later sequence, and does not expire. -/
def CursorAt (read : V → Option ℤ) (key : P × N × K) (n : ℤ) (db : Entries P N K V) : Prop :=
  ∃ row ∈ db.rows, row.primaryKey = key ∧ row.expiresAt = none ∧
    ∃ m, read row.valueJson = some m ∧ n ≤ m

variable {read : V → Option ℤ} {key : P × N × K} {n m now : ℤ} {db db' : Entries P N K V}
  {params : JournalParams P N K V} {sequence : ℤ}

omit [DecidableEq P] [DecidableEq N] [LinearOrder K] in
theorem CursorAt.mono {n' : ℤ} (h : CursorAt read key n db) (hle : n' ≤ n) :
    CursorAt read key n' db := by
  obtain ⟨row, hrow, hkey, hexpires, m, hm, hle'⟩ := h
  exact ⟨row, hrow, hkey, hexpires, m, hm, hle.trans hle'⟩

omit [DecidableEq P] [DecidableEq N] [LinearOrder K] in
theorem isLive_of_expiresAt {row : PluginStateRow P N K V} (h : row.expiresAt = none) :
    row.isLive now = true := by
  unfold PluginStateRow.isLive
  rw [h]
  rfl

theorem select_start_of_mem {row : PluginStateRow P N K V} {p : P} {c j ns : N} {k : K}
    (hrow : row ∈ db.rows) (hexpires : row.expiresAt = none) (hkey : row.primaryKey = (p, ns, k)) :
    selectPluginStateEntry (deleteExpiredPluginStateNamespaceEntries
      (deleteExpiredPluginStateNamespaceEntries db p c now) p j now) p ns k now = some row := by
  have hlive : row.isLive now = true := isLive_of_expiresAt hexpires
  exact selectPluginStateEntry_of_mem (mem_start.mpr ⟨hrow, fun _ => hlive⟩) hkey hlive

/-- An append goes on from its cursor. -/
theorem lt_sequence (h : Journals limit params now db db' sequence)
    (hread : params.readCursorSequence = read)
    (hcursor : CursorAt read params.cursor.primaryKey n db) : n < sequence := by
  obtain ⟨-, -, ⟨start, mid, prepared, createdAt, rfl, rfl, -⟩, -⟩ := h
  obtain ⟨row, hrow, hkey, hexpires, m, hm, hle⟩ := hcursor
  have hcursorKey : row.primaryKey =
      (params.pluginId, params.cursorNamespace, params.cursorKey) := hkey
  rw [select_start_of_mem hrow hexpires hcursorKey]
  unfold JournalParams.nextSequence
  rw [Option.bind_some, hread, hm]
  show n < max params.initialSequence m + 1
  have hmax := le_max_right params.initialSequence m
  omega

/-- What an append leaves in the row of its cursor, if it leaves the row. -/
theorem cursorAt_journals (h : Journals limit params now db db' sequence)
    (hcoherent : Coherent read params)
    (hlives : ∃ row ∈ db'.rows, row.primaryKey = params.cursor.primaryKey) :
    CursorAt read params.cursor.primaryKey sequence db' := by
  obtain ⟨hinitial, hsafe, ⟨start, mid, prepared, createdAt, -, -, hprepared, -, -, hcursor,
    hjournal⟩, -⟩ := h
  obtain ⟨row, hrow, hkey⟩ := hlives
  rcases hjournal.source row hrow with rfl | ⟨hmid, -⟩
  · rw [primaryKey_row] at hkey
    exact absurd hkey (hcoherent.apart sequence prepared hinitial hprepared)
  · obtain rfl := SqlTable.eq_of_key hmid hcursor.written (hkey.trans (primaryKey_row _ _).symm)
    exact ⟨_, hrow, hkey, rfl, sequence,
      hcoherent.prepares sequence prepared hinitial hsafe hprepared, le_rfl⟩

/-- An append to a live key throws. -/
theorem not_journals_of_mem {row : PluginStateRow P N K V}
    (h : Journals limit params now db db' sequence) (hrow : row ∈ db.rows)
    (hexpires : row.expiresAt = none) {prepared : PreparedEntry K V}
    (hprepared : params.prepareEntry sequence = .ok prepared) :
    row.primaryKey ≠ (params.journal prepared.journalKey).primaryKey := by
  intro hkey
  obtain ⟨-, -, ⟨start, mid, prepared', createdAt, rfl, -, hprepared', hnone, -⟩, -⟩ := h
  obtain rfl : prepared = prepared' := Except.ok.inj (hprepared.symm.trans hprepared')
  have hjournalKey : row.primaryKey =
      (params.pluginId, params.journalNamespace, prepared.journalKey) := hkey
  rw [select_start_of_mem hrow hexpires hjournalKey] at hnone
  cases hnone

/-- A call that writes the row of the cursor is an append that goes on from it. -/
theorem cursorAt_stored {call : Call P N K V J} {reply : Reply J}
    (hcursor : CursorAt read key n db) (hrespects : call.Respects read key)
    (hbody : call.body parse limit now db = .ok (db', reply))
    (hlives : ∃ row ∈ db'.rows, row.primaryKey = key)
    (hstored : key ∈ (call.stored reply).map (·.1.primaryKey)) : CursorAt read key n db' := by
  obtain ⟨row, hrow, hkey, hexpires, m, hm, hle⟩ := id hcursor
  cases call with
  | register target valueJson options ttlMs createdAtMs =>
    exact absurd (List.mem_singleton.mp hstored).symm hrespects
  | update target options updateValueJson =>
    obtain ⟨⟨db'', stored⟩, -, heq⟩ := map_eq_ok.mp hbody
    cases heq
    cases stored with
    | false => cases hstored
    | true => exact absurd (List.mem_singleton.mp hstored).symm hrespects
  | registerIfAbsent target valueJson options ttlMs =>
    obtain ⟨⟨db'', stored⟩, hregister, heq⟩ := map_eq_ok.mp hbody
    cases heq
    cases stored with
    | false => cases hstored
    | true =>
      rcases pluginStateRegisterIfAbsent_spec hregister with ⟨-, hnone, -⟩ | ⟨hfalse, -⟩
      · have htarget : key = target.primaryKey := List.mem_singleton.mp hstored
        have hlive : row.isLive now = true := isLive_of_expiresAt hexpires
        have hleft : row ∈ (deleteExpiredPluginStateNamespaceEntries db target.pluginId
            target.namespaceId now).rows := mem_deleteExpired.mpr ⟨hrow, fun _ => hlive⟩
        rw [selectPluginStateEntry_of_mem hleft (hkey.trans htarget) hlive] at hnone
        cases hnone
      · cases hfalse
  | registerSequencedJournalEntry params =>
    obtain ⟨⟨db'', sequence⟩, hjournal, heq⟩ := map_eq_ok.mp hbody
    cases heq
    -- the journal's own cursor only goes up
    have hjournals := pluginStateRegisterSequencedJournalEntry_spec hjournal
    obtain ⟨-, -, ⟨-, -, prepared, -, -, -, hprepared, -⟩, -⟩ := id hjournals
    unfold Call.stored at hstored
    dsimp only at hstored
    rw [hprepared] at hstored
    rcases List.mem_pair.mp hstored with rfl | hother
    · have hcoherent : Coherent read params := hrespects rfl
      exact (cursorAt_journals hjournals hcoherent hlives).mono
        (lt_sequence hjournals hcoherent.read_eq hcursor).le
    · exact absurd (hkey.trans hother) (not_journals_of_mem hjournals hrow hexpires hprepared)
  | consume target =>
    obtain ⟨result, -, heq⟩ := map_eq_ok.mp hbody
    cases heq
    cases hstored
  | delete target =>
    cases hbody
    cases hstored
  | deleteIf target predicate =>
    obtain ⟨result, -, heq⟩ := map_eq_ok.mp hbody
    cases heq
    cases hstored
  | clear pluginId ns =>
    cases hbody
    cases hstored

/-- A call keeps the sequence of a cursor whose row it leaves. -/
theorem cursorAt_perform {call : Call P N K V J} (hcursor : CursorAt read key n db)
    (hrespects : call.Respects read key)
    (hlives : ∃ row ∈ (call.perform parse limit now db).1.rows, row.primaryKey = key) :
    CursorAt read key n (call.perform parse limit now db).1 := by
  unfold Call.perform at hlives ⊢
  cases hbody : call.body parse limit now db with
  | error e => exact hcursor
  | ok result =>
    rw [hbody] at hlives
    obtain ⟨row', hrow', hkey'⟩ := id hlives
    rcases (effect_body hbody).source row' hrow' with hold | hnew
    · obtain ⟨row, hrow, hkey, hexpires, hread⟩ := hcursor
      obtain rfl := SqlTable.eq_of_key hold hrow (hkey'.trans hkey.symm)
      exact ⟨row', hrow', hkey, hexpires, hread⟩
    · rw [hkey'] at hnew
      exact cursorAt_stored hcursor hrespects hbody hlives hnew

theorem Lives.start {calls : List (ℤ × Call P N K V J)} (h : Lives parse limit key db calls) :
    ∃ row ∈ db.rows, row.primaryKey = key := by
  cases calls with
  | nil => exact h
  | cons _ _ => exact h.1

theorem cursorAt_run {calls : List (ℤ × Call P N K V J)} (hcursor : CursorAt read key n db)
    (hrespects : ∀ call ∈ calls, call.2.Respects read key)
    (hlives : Lives parse limit key db calls) :
    CursorAt read key n (run parse limit db calls) := by
  induction calls generalizing db with
  | nil => exact hcursor
  | cons call calls ih =>
    obtain ⟨now, call⟩ := call
    obtain ⟨-, hrest⟩ := hlives
    apply ih _ (fun call hmem => hrespects call (List.mem_cons_of_mem _ hmem)) hrest
    exact cursorAt_perform hcursor (hrespects _ List.mem_cons_self) hrest.start

/-- Two appends with the same cursor, whose row is there all the time between them. -/
theorem sequences_grow {calls : List (ℤ × Call P N K V J)} {params' : JournalParams P N K V}
    {db'' : Entries P N K V} {now' sequence' : ℤ}
    (hfirst : pluginStateRegisterSequencedJournalEntry limit now db params = .ok (db', sequence))
    (hcoherent : Coherent read params) (hcoherent' : Coherent read params')
    (hsame : params'.cursor.primaryKey = params.cursor.primaryKey)
    (hrespects : ∀ call ∈ calls, call.2.Respects read params.cursor.primaryKey)
    (hlives : Lives parse limit params.cursor.primaryKey db' calls)
    (hsecond : pluginStateRegisterSequencedJournalEntry limit now' (run parse limit db' calls) params' =
      .ok (db'', sequence')) : sequence < sequence' := by
  have hcursor := cursorAt_journals (pluginStateRegisterSequencedJournalEntry_spec hfirst) hcoherent
    hlives.start
  have hrun := cursorAt_run hcursor hrespects hlives
  rw [← hsame] at hrun
  exact lt_sequence (pluginStateRegisterSequencedJournalEntry_spec hsecond) hcoherent'.read_eq hrun

end Runs

end Flashclaw.PluginState
