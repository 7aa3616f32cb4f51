import Mathlib.Data.List.Nodup
import Mathlib.Data.List.Sort

/-!
# Tables with a primary key

The rows of a table have different keys.  Statements filter, insert, replace and
change rows; `deleteFirst` removes the first rows of a sorted selection.
-/

/-- A table whose rows have `key` as primary key. -/
@[ext]
structure SqlTable {ρ κ : Type*} (key : ρ → κ) where
  rows : List ρ
  keys_nodup : (rows.map key).Nodup

namespace SqlTable

variable {ρ κ : Type*} {key : ρ → κ} (table : SqlTable key)

def empty : SqlTable key := ⟨[], List.nodup_nil⟩

/-- `DELETE` of the rows that satisfy `p`. -/
def delete (p : ρ → Bool) : SqlTable key where
  rows := table.rows.filter fun row => !p row
  keys_nodup := table.keys_nodup.sublist (List.filter_sublist.map _)

/-- `INSERT … ON CONFLICT DO NOTHING`, and whether the row is inserted. -/
def insert [DecidableEq κ] (new : ρ) : SqlTable key × Bool :=
  if h : key new ∈ table.rows.map key then (table, false)
  else (⟨new :: table.rows, List.nodup_cons.mpr ⟨h, table.keys_nodup⟩⟩, true)

/-- `INSERT … ON CONFLICT DO UPDATE` of all columns. -/
def upsert [DecidableEq κ] (new : ρ) : SqlTable key where
  rows := new :: (table.delete fun row => key row = key new).rows
  keys_nodup := by
    apply List.nodup_cons.mpr ⟨_, (table.delete _).keys_nodup⟩
    intro h
    obtain ⟨row, hrow, hkey⟩ := List.mem_map.mp h
    have := (List.mem_filter.mp hrow).2
    simp [hkey] at this

/-- `UPDATE` of what is no part of the key, and how many rows it has met. -/
def update (p : ρ → Bool) (f : ρ → ρ) (hf : ∀ row, key (f row) = key row) : SqlTable key × ℕ :=
  ({
    rows := table.rows.map fun row => if p row then f row else row
    keys_nodup := by
      rw [List.map_map]
      convert table.keys_nodup using 2
      funext row
      dsimp only [Function.comp]
      split
      · exact hf row
      · rfl }, table.rows.countP p)

/-- `DELETE` of each key of a list. -/
def deleteKeys [DecidableEq κ] (keys : List κ) : SqlTable key :=
  keys.foldl (fun table k => table.delete fun row => key row = k) table

section Rows

variable {table}

theorem rows_nodup : table.rows.Nodup := table.keys_nodup.of_map

theorem eq_of_key {row row' : ρ} (hrow : row ∈ table.rows) (hrow' : row' ∈ table.rows)
    (h : key row = key row') : row = row' :=
  List.inj_on_of_nodup_map table.keys_nodup hrow hrow' h

theorem mem_delete {p : ρ → Bool} {row : ρ} :
    row ∈ (table.delete p).rows ↔ row ∈ table.rows ∧ p row = false := by
  unfold delete
  rw [List.mem_filter, Bool.not_eq_true']

theorem mem_update {p : ρ → Bool} {f : ρ → ρ} {hf : ∀ row, key (f row) = key row} {row : ρ} :
    row ∈ (table.update p f hf).1.rows ↔
      (row ∈ table.rows ∧ p row = false) ∨ ∃ old ∈ table.rows, p old = true ∧ row = f old := by
  unfold update
  rw [List.mem_map]
  constructor
  · rintro ⟨old, hold, heq⟩
    cases hp : p old with
    | false =>
      rw [hp] at heq
      obtain rfl : old = row := heq
      exact .inl ⟨hold, hp⟩
    | true =>
      rw [hp] at heq
      exact .inr ⟨old, hold, hp, heq.symm⟩
  · rintro (⟨hrow, hp⟩ | ⟨old, hold, hp, rfl⟩)
    · exact ⟨row, hrow, by rw [hp]; rfl⟩
    · exact ⟨old, hold, by rw [hp]; rfl⟩

variable [DecidableEq κ]

theorem mem_upsert {new row : ρ} :
    row ∈ (table.upsert new).rows ↔ row = new ∨ (row ∈ table.rows ∧ key row ≠ key new) := by
  unfold upsert
  rw [List.mem_cons, mem_delete, decide_eq_false_iff_not]

theorem mem_insert {new row : ρ} : row ∈ (table.insert new).1.rows ↔
    row ∈ table.rows ∨ (row = new ∧ (table.insert new).2 = true) := by
  unfold insert
  split_ifs
  · simp
  · simp [or_comm]

theorem insert_of_mem {row new : ρ} (hrow : row ∈ table.rows) (hkey : key row = key new) :
    table.insert new = (table, false) := by
  unfold insert
  exact dif_pos (List.mem_map.mpr ⟨row, hrow, hkey⟩)

theorem insert_eq_true_iff {new : ρ} :
    (table.insert new).2 = true ↔ ∀ row ∈ table.rows, key row ≠ key new := by
  unfold insert
  split_ifs with h
  · obtain ⟨row, hrow, hkey⟩ := List.mem_map.mp h
    simp only [false_iff, not_forall, not_not]
    exact ⟨row, hrow, hkey⟩
  · simp only [true_iff]
    intro row hrow hkey
    exact h (List.mem_map.mpr ⟨row, hrow, hkey⟩)

omit [DecidableEq κ] in
theorem delete_eq_self {p : ρ → Bool} (h : ∀ row ∈ table.rows, p row = false) :
    table.delete p = table := by
  ext1
  apply List.filter_eq_self.mpr
  intro row hrow
  rw [h row hrow]
  rfl

theorem insert_eq_upsert {new : ρ} (h : ∀ row ∈ table.rows, key row ≠ key new) :
    table.insert new = (table.upsert new, true) := by
  have hself : (table.delete fun row => key row = key new) = table :=
    delete_eq_self fun row hrow => decide_eq_false (h row hrow)
  unfold insert
  rw [dif_neg]
  · congr
    exact hself.symm
  · intro hmem
    obtain ⟨row, hrow, hkey⟩ := List.mem_map.mp hmem
    exact h row hrow hkey

theorem mem_deleteKeys {keys : List κ} {row : ρ} :
    row ∈ (table.deleteKeys keys).rows ↔ row ∈ table.rows ∧ key row ∉ keys := by
  induction keys generalizing table with
  | nil => simp [deleteKeys]
  | cons k keys ih =>
    show row ∈ ((table.delete fun row => key row = k).deleteKeys keys).rows ↔ _
    rw [ih, mem_delete, decide_eq_false_iff_not, List.mem_cons, not_or, and_assoc]

end Rows

section Count

variable {table} {q : ρ → Bool}

def count (table : SqlTable key) (q : ρ → Bool) : ℕ := table.rows.countP q

theorem count_le_of_subset {t : SqlTable key} (h : ∀ row ∈ t.rows, q row = true → row ∈ table.rows) :
    t.count q ≤ table.count q := by
  classical
  unfold count
  rw [List.countP_eq_length_filter, List.countP_eq_length_filter]
  apply List.Subperm.length_le
  apply List.subperm_of_subset (rows_nodup.filter _)
  intro row hrow
  obtain ⟨hmem, hq⟩ := List.mem_filter.mp hrow
  exact List.mem_filter.mpr ⟨h row hmem hq, hq⟩

/-- A condition that at most one counted row fails takes one from the count. -/
theorem count_le_add_one {p : ρ → Bool} (h : ∀ row ∈ table.rows, ∀ row' ∈ table.rows,
    q row = true → p row = false → q row' = true → p row' = false → row = row') :
    table.count q ≤ table.count (fun row => q row && p row) + 1 := by
  have hsplit := List.countP_eq_countP_filter_add table.rows q p
  have hone : (table.rows.filter fun row => !p row).countP q ≤ 1 := by
    rw [List.countP_eq_length_filter, List.filter_filter]
    have hnodup := table.rows_nodup.filter fun row => q row && !p row
    by_contra hlength
    obtain ⟨a, b, rest, hrest⟩ : ∃ a b rest,
        (table.rows.filter fun row => q row && !p row) = a :: b :: rest := by
      rcases hfilter : table.rows.filter fun row => q row && !p row with _ | ⟨a, _ | ⟨b, rest⟩⟩
      · simp [hfilter] at hlength
      · simp [hfilter] at hlength
      · exact ⟨a, b, rest, rfl⟩
    have hmem : ∀ row ∈ [a, b], row ∈ table.rows ∧ q row = true ∧ p row = false := by
      intro row hrow
      have hin : row ∈ table.rows.filter fun row => q row && !p row := by
        rw [hrest]
        rcases List.mem_pair.mp hrow with rfl | rfl <;> simp
      simpa [and_assoc] using List.mem_filter.mp hin
    obtain ⟨ha, hqa, hpa⟩ := hmem a (by simp)
    obtain ⟨hb, hqb, hpb⟩ := hmem b (by simp)
    obtain rfl := h a ha b hb hqa hpa hqb hpb
    rw [hrest] at hnodup
    simp at hnodup
  rw [List.countP_filter] at hsplit
  unfold count
  omega

variable [DecidableEq κ]

theorem count_upsert (new : ρ) : (table.upsert new).count q =
    (table.delete fun row => key row = key new).count q + if q new then 1 else 0 := by
  unfold count upsert
  rw [List.countP_cons]

/-- A row that replaces none is one more. -/
theorem count_upsert_le (new : ρ) : (table.upsert new).count q ≤ table.count q + 1 := by
  have hle : (table.delete fun row => key row = key new).count q ≤ table.count q :=
    count_le_of_subset fun row hrow _ => (mem_delete.mp hrow).1
  rw [count_upsert]
  split <;> omega

/-- A row that replaces a counted one adds nothing. -/
theorem count_upsert_of_mem {new old : ρ} (hold : old ∈ table.rows) (hkey : key old = key new)
    (hq : q old = true) : (table.upsert new).count q ≤ table.count q := by
  have hlt : (table.delete fun row => key row = key new).count q < table.count q := by
    unfold count delete
    rw [List.countP_filter]
    obtain ⟨before, after, hsplit⟩ := List.append_of_mem hold
    rw [hsplit, List.countP_append, List.countP_append, List.countP_cons_of_pos hq,
      List.countP_cons_of_neg (by simp [hkey])]
    dsimp only
    have h₁ : before.countP (fun row => q row && !decide (key row = key new)) ≤ before.countP q :=
      List.countP_mono_left fun row _ h => (Bool.and_eq_true_iff.mp h).1
    have h₂ : after.countP (fun row => q row && !decide (key row = key new)) ≤ after.countP q :=
      List.countP_mono_left fun row _ h => (Bool.and_eq_true_iff.mp h).1
    omega
  rw [count_upsert]
  split <;> omega

end Count

section First

variable [DecidableEq κ] (r : ρ → ρ → Prop) [DecidableRel r]

/-- The keys of `SELECT … ORDER BY … LIMIT`. -/
def first (p : ρ → Bool) (limit : ℕ) : List ρ :=
  ((table.rows.filter p).insertionSort r).take limit

def deleteFirst (p : ρ → Bool) (limit : ℕ) : SqlTable key :=
  table.deleteKeys ((table.first r p limit).map key)

variable {table} {r} {p : ρ → Bool} {limit : ℕ}

omit [DecidableEq κ] in
theorem mem_rows_of_mem_first {row : ρ} (h : row ∈ table.first r p limit) :
    row ∈ table.rows ∧ p row = true :=
  List.mem_filter.mp ((List.mem_insertionSort r).mp (List.mem_of_mem_take h))

theorem mem_deleteFirst {row : ρ} : row ∈ (table.deleteFirst r p limit).rows ↔
    row ∈ table.rows ∧ row ∉ table.first r p limit := by
  unfold deleteFirst
  rw [mem_deleteKeys, List.mem_map]
  apply and_congr_right
  intro hrow
  apply not_congr
  constructor
  · rintro ⟨other, hother, hkey⟩
    rwa [← eq_of_key (mem_rows_of_mem_first hother).1 hrow hkey]
  · intro h
    exact ⟨row, h, rfl⟩

/-- What is removed comes before what is left of the selection. -/
theorem rel_of_mem_first [Std.Total r] [IsTrans ρ r] {row kept : ρ}
    (hrow : row ∈ table.first r p limit) (hkept : kept ∈ (table.deleteFirst r p limit).rows)
    (hp : p kept = true) : r row kept := by
  obtain ⟨hmem, hleft⟩ := mem_deleteFirst.mp hkept
  have hsorted := List.pairwise_insertionSort r (table.rows.filter p)
  rw [← List.take_append_drop limit ((table.rows.filter p).insertionSort r),
    List.pairwise_append] at hsorted
  apply hsorted.2.2 row hrow
  have hall : kept ∈ (table.rows.filter p).insertionSort r :=
    (List.mem_insertionSort r).mpr (List.mem_filter.mpr ⟨hmem, hp⟩)
  rw [← List.take_append_drop limit ((table.rows.filter p).insertionSort r), List.mem_append] at hall
  exact hall.resolve_left hleft

theorem count_deleteFirst {q : ρ → Bool} (hpq : ∀ row ∈ table.rows, p row = true → q row = true) :
    (table.deleteFirst r p limit).count q + min limit (table.count p) = table.count q := by
  classical
  have hlength : (table.first r p limit).length = min limit (table.count p) := by
    unfold first count
    rw [List.length_take, List.length_insertionSort, List.countP_eq_length_filter]
  have hnodup : (table.first r p limit).Nodup :=
    ((List.perm_insertionSort r _).nodup_iff.mpr (rows_nodup.filter _)).sublist
      (List.take_sublist _ _)
  have hperm : (table.rows.filter q).Perm
      (table.first r p limit ++ (table.deleteFirst r p limit).rows.filter q) := by
    rw [List.perm_ext_iff_of_nodup (rows_nodup.filter _)]
    · intro row
      rw [List.mem_append, List.mem_filter, List.mem_filter, mem_deleteFirst]
      constructor
      · rintro ⟨hrow, hq⟩
        by_cases hfirst : row ∈ table.first r p limit
        · exact .inl hfirst
        · exact .inr ⟨⟨hrow, hfirst⟩, hq⟩
      · rintro (hfirst | ⟨⟨hrow, -⟩, hq⟩)
        · obtain ⟨hrow, hp⟩ := mem_rows_of_mem_first hfirst
          exact ⟨hrow, hpq row hrow hp⟩
        · exact ⟨hrow, hq⟩
    · apply List.nodup_append'.mpr ⟨hnodup, rows_nodup.filter _, ?_⟩
      intro row hfirst hleft
      exact (mem_deleteFirst.mp (List.mem_of_mem_filter hleft)).2 hfirst
  have hcount := hperm.length_eq
  rw [List.length_append, hlength] at hcount
  unfold count at hcount ⊢
  simp only [List.countP_eq_length_filter] at hcount ⊢
  omega

end First

end SqlTable
