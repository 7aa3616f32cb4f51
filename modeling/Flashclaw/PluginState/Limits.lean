import Flashclaw.PluginState.Store

/-!
# Plugin state: limits

What one insertion does: it removes the oldest rows of its namespace only, keeps
its own row, and leaves no more rows than its limits allow.
-/

namespace Flashclaw.PluginState

variable {P N K V : Type} [DecidableEq P] [DecidableEq N] [LinearOrder K]

instance : Std.Total (older (P := P) (N := N) (K := K) (V := V)) where
  total row row' := le_total (toLex (row.createdAt, row.entryKey))
    (toLex (row'.createdAt, row'.entryKey))

instance : IsTrans (PluginStateRow P N K V) older where
  trans _ _ _ h h' := le_trans (α := ℤ ×ₗ K) h h'

/-- Rows that are removed are live ones of the namespace, not protected, and older than every row
left of these. -/
structure Sheds (p : P) (n : N) (now : ℤ) (protectedKey : K) (db db' : Entries P N K V) : Prop where
  subset : ∀ row ∈ db'.rows, row ∈ db.rows
  oldest : ∀ row ∈ db.rows, row ∉ db'.rows → liveIn p n now row = true ∧
    row.entryKey ≠ protectedKey ∧ ∀ kept ∈ db'.rows, liveIn p n now kept = true →
      kept.entryKey ≠ protectedKey → older row kept

variable {p : P} {n : N} {now : ℤ} {k : K} {db db' : Entries P N K V} {limit : ℕ}
  {options : StoreOptions}

theorem Sheds.refl : Sheds p n now k db db :=
  ⟨fun _ h => h, fun _ h hnot => absurd h hnot⟩

theorem Sheds.trans {db'' : Entries P N K V} (h : Sheds p n now k db db')
    (h' : Sheds p n now k db' db'') : Sheds p n now k db db'' := by
  refine ⟨fun row hrow => h.subset row (h'.subset row hrow), ?_⟩
  intro row hrow hgone
  by_cases hmid : row ∈ db'.rows
  · exact h'.oldest row hmid hgone
  · obtain ⟨hlive, hkey, holder⟩ := h.oldest row hrow hmid
    exact ⟨hlive, hkey, fun kept hkept => holder kept (h'.subset kept hkept)⟩

theorem sheds_deleteOldest (count : ℕ) : Sheds p n now k db
    (deleteOldestPluginStateNamespaceEntries db p n k now count) := by
  unfold deleteOldestPluginStateNamespaceEntries
  refine ⟨fun row hrow => (SqlTable.mem_deleteFirst.mp hrow).1, ?_⟩
  intro row hrow hgone
  have hfirst : row ∈ db.first older (fun row => liveIn p n now row && row.entryKey ≠ k) count := by
    by_contra hnot
    exact hgone (SqlTable.mem_deleteFirst.mpr ⟨hrow, hnot⟩)
  have hselected := (SqlTable.mem_rows_of_mem_first hfirst).2
  rw [Bool.and_eq_true, decide_eq_true_eq] at hselected
  refine ⟨hselected.1, hselected.2, ?_⟩
  intro kept hkept hlive hkey
  apply SqlTable.rel_of_mem_first hfirst hkept
  rw [hlive, Bool.true_and, decide_eq_true hkey]

theorem Sheds.count_le (h : Sheds p n now k db db') (q : PluginStateRow P N K V → Bool) :
    db'.count q ≤ db.count q :=
  SqlTable.count_le_of_subset fun row hrow _ => h.subset row hrow

/-- A namespace has one row of the protected key. -/
theorem count_liveIn_le : db.count (liveIn p n now) ≤
    db.count (fun row => liveIn p n now row && decide (row.entryKey ≠ k)) + 1 := by
  apply SqlTable.count_le_add_one
  intro row hrow row' hrow' hlive hkey hlive' hkey'
  apply SqlTable.eq_of_key hrow hrow'
  unfold liveIn PluginStateRow.isIn at hlive hlive'
  simp only [Bool.and_eq_true, decide_eq_true_eq, decide_eq_false_iff_not, not_not] at *
  unfold PluginStateRow.primaryKey
  rw [hlive.1.1, hlive.1.2, hlive'.1.1, hlive'.1.2, hkey, hkey']

/-- The first round of evictions. -/
theorem count_deleteOldest (h : options.maxEntries < db.count (liveIn p n now)) :
    (deleteOldestPluginStateNamespaceEntries db p n k now
      (db.count (liveIn p n now) - options.maxEntries)).count (liveIn p n now) =
        options.maxEntries := by
  have hpos := options.maxEntries_pos
  have hle : db.count (liveIn p n now) ≤
      db.count (fun row => liveIn p n now row && decide (row.entryKey ≠ k)) + 1 := count_liveIn_le
  have hcount : (deleteOldestPluginStateNamespaceEntries db p n k now
        (db.count (liveIn p n now) - options.maxEntries)).count (liveIn p n now) +
      min (db.count (liveIn p n now) - options.maxEntries)
        (db.count fun row => liveIn p n now row && decide (row.entryKey ≠ k)) =
      db.count (liveIn p n now) :=
    SqlTable.count_deleteFirst fun row _ hp => (Bool.and_eq_true_iff.mp hp).1
  omega

theorem enforcePostRegisterLimits_spec {enforcePluginLimit : Bool}
    (h : enforcePostRegisterLimits limit db p n options now k enforcePluginLimit = .ok db') :
    Sheds p n now k db db' ∧ (options.overflowPolicy = .rejectNew → db' = db) ∧
      (options.overflowPolicy = .evictOldest →
        countLivePluginStateNamespaceEntries db' p n now ≤ options.maxEntries ∧
        (enforcePluginLimit = true → countLivePluginStateEntries db' p now ≤ limit)) := by
  unfold enforcePostRegisterLimits at h
  by_cases hpolicy : options.overflowPolicy = .rejectNew
  · rw [if_pos hpolicy] at h
    cases h
    refine ⟨.refl, fun _ => rfl, ?_⟩
    rw [hpolicy]
    rintro ⟨⟩
  rw [if_neg hpolicy] at h
  dsimp only at h
  -- the first round
  obtain ⟨mid, hmid, hsheds, hcount⟩ : ∃ mid : Entries P N K V,
      (if options.maxEntries < countLivePluginStateNamespaceEntries db p n now then
        deleteOldestPluginStateNamespaceEntries db p n k now
          (countLivePluginStateNamespaceEntries db p n now - options.maxEntries)
      else db) = mid ∧ Sheds p n now k db mid ∧ mid.count (liveIn p n now) ≤ options.maxEntries := by
    refine ⟨_, rfl, ?_⟩
    split_ifs with hover
    · exact ⟨sheds_deleteOldest _, (count_deleteOldest hover).le⟩
    · exact ⟨.refl, not_lt.mp hover⟩
  rw [hmid] at h
  split_ifs at h with hplugin hfits hleft
  · cases h
    refine ⟨hsheds, fun hreject => absurd hreject hpolicy, fun _ => ⟨hcount, ?_⟩⟩
    intro henforce
    rw [henforce] at hplugin
    cases hplugin
  · cases h
    exact ⟨hsheds, fun hreject => absurd hreject hpolicy, fun _ => ⟨hcount, fun _ => hfits⟩⟩
  · cases h
    have hagain : Sheds p n now k mid (deleteOldestPluginStateNamespaceEntries mid p n k now
        (countLivePluginStateEntries mid p now - limit)) := sheds_deleteOldest _
    exact ⟨hsheds.trans hagain, fun hreject => absurd hreject hpolicy,
      fun _ => ⟨(hagain.count_le _).trans hcount, fun _ => not_lt.mp hleft⟩⟩

omit [LinearOrder K] in
theorem assertCanInsert_spec
    (h : assertCanInsertPluginStateEntry limit db p n options now = .ok ())
    (hpolicy : options.overflowPolicy = .rejectNew) :
    countLivePluginStateNamespaceEntries db p n now < options.maxEntries ∧
      countLivePluginStateEntries db p now < limit := by
  unfold assertCanInsertPluginStateEntry at h
  rw [if_neg (not_not.mpr hpolicy)] at h
  split_ifs at h with hns hplugin
  exact ⟨not_le.mp hns, not_le.mp hplugin⟩

section Expired

omit [LinearOrder K]

theorem mem_deleteExpired {row : PluginStateRow P N K V} :
    row ∈ (deleteExpiredPluginStateNamespaceEntries db p n now).rows ↔
      row ∈ db.rows ∧ (row.isIn p n = true → row.isLive now = true) := by
  unfold deleteExpiredPluginStateNamespaceEntries
  rw [SqlTable.mem_delete]
  simp

theorem count_deleteExpired_le (q : PluginStateRow P N K V → Bool) :
    (deleteExpiredPluginStateNamespaceEntries db p n now).count q ≤ db.count q :=
  SqlTable.count_le_of_subset fun _ hrow _ => (mem_deleteExpired.mp hrow).1

end Expired

theorem selectPluginStateEntry_eq_some {row : PluginStateRow P N K V}
    (h : selectPluginStateEntry db p n k now = some row) :
    row ∈ db.rows ∧ row.primaryKey = (p, n, k) ∧ row.isLive now = true := by
  unfold selectPluginStateEntry at h
  have hfound := List.find?_some h
  rw [Bool.and_eq_true, decide_eq_true_eq] at hfound
  exact ⟨List.mem_of_find?_eq_some h, hfound⟩

theorem selectPluginStateEntry_eq_none (h : selectPluginStateEntry db p n k now = none) :
    ∀ row ∈ db.rows, row.primaryKey = (p, n, k) → row.isLive now = false := by
  intro row hrow hkey
  have hnot := List.find?_eq_none.mp h row hrow
  simpa [hkey] using hnot

theorem selectPluginStateEntry_of_mem {row : PluginStateRow P N K V} (hrow : row ∈ db.rows)
    (hkey : row.primaryKey = (p, n, k)) (hlive : row.isLive now = true) :
    selectPluginStateEntry db p n k now = some row := by
  cases hselect : selectPluginStateEntry db p n k now with
  | none =>
    rw [selectPluginStateEntry_eq_none hselect row hrow hkey] at hlive
    cases hlive
  | some found =>
    obtain ⟨hfound, hkey', -⟩ := selectPluginStateEntry_eq_some hselect
    rw [SqlTable.eq_of_key hfound hrow (hkey'.trans hkey.symm)]

omit [DecidableEq P] [DecidableEq N] [LinearOrder K] in
/-- Time to live ends after the clock. -/
theorem isLive_of_resolve {ttlMs expiresAt : Option ℤ} {row : PluginStateRow P N K V}
    (h : resolvePluginStateExpiresAtMs ttlMs now = .ok expiresAt) (hrow : row.expiresAt = expiresAt) :
    row.isLive now = true := by
  unfold PluginStateRow.isLive
  rw [hrow]
  cases ttlMs with
  | none =>
    cases h
    rfl
  | some ttlMs =>
    unfold resolvePluginStateExpiresAtMs resolveExpiresAtMsFromDurationMs at h
    dsimp only at h
    split_ifs at h with hvalid
    · simp only [Bool.and_eq_true, decide_eq_true_eq] at hvalid
      cases h
      rw [Option.all_some, decide_eq_true_eq]
      omega

/-- One row is stored; others of its namespace are replaced, have expired, or are the oldest. -/
structure Stores (target : Target P N K) (options : StoreOptions) (now : ℤ)
    (row : PluginStateRow P N K V) (db db' : Entries P N K V) : Prop where
  written : row ∈ db'.rows
  source : ∀ r ∈ db'.rows, r = row ∨ (r ∈ db.rows ∧ r.primaryKey ≠ row.primaryKey)
  inside : ∀ r ∈ db.rows, r ∉ db'.rows → r.isIn target.pluginId target.namespaceId = true
  oldest : ∀ r ∈ db.rows, r ∉ db'.rows → r.isLive now = true → r.primaryKey ≠ row.primaryKey →
    ∀ kept ∈ db'.rows, liveIn target.pluginId target.namespaceId now kept = true →
      kept.entryKey ≠ target.key → older r kept
  evicts : options.overflowPolicy = .evictOldest →
    countLivePluginStateNamespaceEntries db' target.pluginId target.namespaceId now ≤
      options.maxEntries
  rejects : options.overflowPolicy = .rejectNew →
    countLivePluginStateNamespaceEntries db' target.pluginId target.namespaceId now ≤
      max options.maxEntries
        (countLivePluginStateNamespaceEntries db target.pluginId target.namespaceId now)

section Storing

variable {target : Target P N K} {row : PluginStateRow P N K V} {enforcePluginLimit : Bool}

omit [LinearOrder K] in
theorem isIn_iff {r : PluginStateRow P N K V} :
    r.isIn p n = true ↔ r.pluginId = p ∧ r.namespaceId = n := by
  unfold PluginStateRow.isIn
  rw [Bool.and_eq_true, decide_eq_true_eq, decide_eq_true_eq]

/-- `db` is the table without the expired rows of the namespace. -/
theorem stores (hrow : row.primaryKey = (target.pluginId, target.namespaceId, target.key))
    (hassert : selectPluginStateEntry db target.pluginId target.namespaceId target.key now = none →
      assertCanInsertPluginStateEntry limit db target.pluginId target.namespaceId options now = .ok ())
    (henforce : enforcePostRegisterLimits limit (db.upsert row) target.pluginId target.namespaceId
      options now target.key enforcePluginLimit = .ok db') :
    Stores target options now row db db' := by
  obtain ⟨hsheds, hrejects, hevicts⟩ := enforcePostRegisterLimits_spec henforce
  obtain ⟨hp, hn, hk⟩ : row.pluginId = target.pluginId ∧ row.namespaceId = target.namespaceId ∧
      row.entryKey = target.key := by
    unfold PluginStateRow.primaryKey at hrow
    simpa using hrow
  refine ⟨?_, ?_, ?_, ?_, fun h => (hevicts h).1, ?_⟩
  · by_contra hgone
    exact (hsheds.oldest row (SqlTable.mem_upsert.mpr (.inl rfl)) hgone).2.1 hk
  · intro r hr
    exact SqlTable.mem_upsert.mp (hsheds.subset r hr)
  · intro r hr hgone
    by_cases hsame : r.primaryKey = row.primaryKey
    · rw [hrow] at hsame
      unfold PluginStateRow.primaryKey at hsame
      simp only [Prod.mk.injEq] at hsame
      exact isIn_iff.mpr ⟨hsame.1, hsame.2.1⟩
    · have hlive := (hsheds.oldest r (SqlTable.mem_upsert.mpr (.inr ⟨hr, hsame⟩)) hgone).1
      exact (Bool.and_eq_true_iff.mp hlive).1
  · intro r hr hgone _ hsame
    exact (hsheds.oldest r (SqlTable.mem_upsert.mpr (.inr ⟨hr, hsame⟩)) hgone).2.2
  · intro hpolicy
    rw [hrejects hpolicy]
    unfold countLivePluginStateNamespaceEntries
    cases hselect : selectPluginStateEntry db target.pluginId target.namespaceId target.key now with
    | none =>
      have hfree := (assertCanInsert_spec (hassert hselect) hpolicy).1
      have hone : (db.upsert row).count (liveIn target.pluginId target.namespaceId now) ≤
          db.count (liveIn target.pluginId target.namespaceId now) + 1 :=
        SqlTable.count_upsert_le row
      unfold countLivePluginStateNamespaceEntries at hfree
      omega
    | some old =>
      obtain ⟨hold, hkey, hlive⟩ := selectPluginStateEntry_eq_some hselect
      have hin : liveIn target.pluginId target.namespaceId now old = true := by
        unfold PluginStateRow.primaryKey at hkey
        simp only [Prod.mk.injEq] at hkey
        unfold liveIn
        rw [hlive, Bool.and_true]
        exact isIn_iff.mpr ⟨hkey.1, hkey.2.1⟩
      exact (SqlTable.count_upsert_of_mem hold (hkey.trans hrow.symm) hin).trans (le_max_right _ _)

/-- The limit of the plugin. -/
theorem plugin_stores (hrow : row.primaryKey = (target.pluginId, target.namespaceId, target.key))
    (hassert : selectPluginStateEntry db target.pluginId target.namespaceId target.key now = none →
      assertCanInsertPluginStateEntry limit db target.pluginId target.namespaceId options now = .ok ())
    (henforce : enforcePostRegisterLimits limit (db.upsert row) target.pluginId target.namespaceId
      options now target.key = .ok db')
    (hle : countLivePluginStateEntries db target.pluginId now ≤ limit) :
    countLivePluginStateEntries db' target.pluginId now ≤ limit := by
  obtain ⟨-, hrejects, hevicts⟩ := enforcePostRegisterLimits_spec henforce
  cases hpolicy : options.overflowPolicy with
  | evictOldest => exact (hevicts hpolicy).2 rfl
  | rejectNew =>
    rw [hrejects hpolicy]
    unfold countLivePluginStateEntries at hle ⊢
    cases hselect : selectPluginStateEntry db target.pluginId target.namespaceId target.key now with
    | none =>
      have hfree := (assertCanInsert_spec (hassert hselect) hpolicy).2
      have hone : ((db.upsert row).count fun row =>
          decide (row.pluginId = target.pluginId) && row.isLive now) ≤
          (db.count fun row => decide (row.pluginId = target.pluginId) && row.isLive now) + 1 :=
        SqlTable.count_upsert_le row
      unfold countLivePluginStateEntries at hfree
      omega
    | some old =>
      obtain ⟨hold, hkey, hlive⟩ := selectPluginStateEntry_eq_some hselect
      have hin : (decide (old.pluginId = target.pluginId) && old.isLive now) = true := by
        unfold PluginStateRow.primaryKey at hkey
        simp only [Prod.mk.injEq] at hkey
        rw [hlive, Bool.and_true]
        exact decide_eq_true hkey.1
      exact (SqlTable.count_upsert_of_mem hold (hkey.trans hrow.symm) hin).trans hle

end Storing

end Flashclaw.PluginState
