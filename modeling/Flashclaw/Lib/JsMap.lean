import Mathlib.Data.List.Nodup
import Mathlib.Algebra.BigOperators.Group.List.Basic

/-!
# Insertion-ordered maps

ECMAScript's `Map`: `set` on a present key keeps the key's place, on a new key
it appends, and iteration follows the insertion order.  The structure carries
the distinctness of its keys.
-/

structure JsMap (κ ν : Type*) where
  entries : List (κ × ν)
  nodupKeys : (entries.map Prod.fst).Nodup

namespace JsMap

variable {κ ν : Type*} [DecidableEq κ]

def empty : JsMap κ ν := ⟨[], List.nodup_nil⟩

def keys (m : JsMap κ ν) : List κ := m.entries.map Prod.fst

def values (m : JsMap κ ν) : List ν := m.entries.map Prod.snd

def size (m : JsMap κ ν) : ℕ := m.entries.length

/-- The value stored under `k` in an entry list. -/
def lookupIn (k : κ) : List (κ × ν) → Option ν
  | [] => none
  | (k', v) :: es => if k' = k then some v else lookupIn k es

def get? (m : JsMap κ ν) (k : κ) : Option ν := lookupIn k m.entries

/-- Overwrite in place, or append. -/
def setIn (k : κ) (v : ν) : List (κ × ν) → List (κ × ν)
  | [] => [(k, v)]
  | (k', v') :: es => if k' = k then (k, v) :: es else (k', v') :: setIn k v es

theorem mem_keys_setIn {k k' : κ} {v : ν} {es : List (κ × ν)} :
    k' ∈ (setIn k v es).map Prod.fst ↔ k' = k ∨ k' ∈ es.map Prod.fst := by
  induction es with
  | nil => simp [setIn]
  | cons e es ih =>
    obtain ⟨k₀, v₀⟩ := e
    by_cases h : k₀ = k
    · subst h; simp [setIn]
    · simp only [setIn, if_neg h, List.map_cons, List.mem_cons, ih]
      tauto

theorem nodup_setIn {k : κ} {v : ν} {es : List (κ × ν)} (h : (es.map Prod.fst).Nodup) :
    ((setIn k v es).map Prod.fst).Nodup := by
  induction es with
  | nil => simp [setIn]
  | cons e es ih =>
    obtain ⟨k₀, v₀⟩ := e
    simp only [List.map_cons, List.nodup_cons] at h
    by_cases hk : k₀ = k
    · subst hk
      simpa [setIn] using h
    · simp only [setIn, if_neg hk, List.map_cons, List.nodup_cons]
      exact ⟨fun hm => (mem_keys_setIn.mp hm).elim hk h.1, ih h.2⟩

def set (m : JsMap κ ν) (k : κ) (v : ν) : JsMap κ ν := ⟨setIn k v m.entries, nodup_setIn m.nodupKeys⟩

def delete (m : JsMap κ ν) (k : κ) : JsMap κ ν :=
  ⟨m.entries.filter fun e => e.1 ≠ k,
    m.nodupKeys.sublist ((List.filter_sublist).map Prod.fst)⟩

/-- Entries whose key satisfies `p`, in order. -/
def filterKeys (m : JsMap κ ν) (p : κ → Bool) : JsMap κ ν :=
  ⟨m.entries.filter fun e => p e.1, m.nodupKeys.sublist ((List.filter_sublist).map Prod.fst)⟩

/-- Entries that satisfy `p`, in order. -/
def filterEntries (m : JsMap κ ν) (p : κ → ν → Bool) : JsMap κ ν :=
  ⟨m.entries.filter fun e => p e.1 e.2, m.nodupKeys.sublist ((List.filter_sublist).map Prod.fst)⟩

def mapValues (m : JsMap κ ν) (f : ν → ν) : JsMap κ ν :=
  ⟨m.entries.map fun e => (e.1, f e.2), by
    simpa [List.map_map, Function.comp_def] using m.nodupKeys⟩

@[simp] theorem get?_empty (k : κ) : (empty : JsMap κ ν).get? k = none := rfl

theorem lookupIn_setIn (k k' : κ) (v : ν) (es : List (κ × ν)) :
    lookupIn k' (setIn k v es) = if k = k' then some v else lookupIn k' es := by
  induction es with
  | nil => simp [setIn, lookupIn]
  | cons e es ih =>
    obtain ⟨k₀, v₀⟩ := e
    by_cases h₀ : k₀ = k
    · subst h₀
      by_cases hk : k₀ = k' <;> simp [setIn, lookupIn, hk]
    · by_cases hk : k₀ = k'
      · subst hk
        simp [setIn, lookupIn, h₀, Ne.symm h₀]
      · simp [setIn, lookupIn, h₀, hk, ih]

theorem get?_set (m : JsMap κ ν) (k k' : κ) (v : ν) :
    (m.set k v).get? k' = if k = k' then some v else m.get? k' :=
  lookupIn_setIn k k' v m.entries

@[simp] theorem get?_set_self (m : JsMap κ ν) (k : κ) (v : ν) : (m.set k v).get? k = some v := by
  simp [get?_set]

theorem get?_set_ne (m : JsMap κ ν) {k k' : κ} (v : ν) (h : k ≠ k') :
    (m.set k v).get? k' = m.get? k' := by
  simp [get?_set, h]

theorem lookupIn_filter (p : κ → Bool) (k : κ) (es : List (κ × ν)) :
    lookupIn k (es.filter fun e => p e.1) = if p k then lookupIn k es else none := by
  induction es with
  | nil => simp [lookupIn]
  | cons e es ih =>
    obtain ⟨k₀, v₀⟩ := e
    by_cases hk : k₀ = k
    · subst hk
      cases hp : p k₀ <;> simp [hp, lookupIn, ih]
    · cases hp : p k₀ <;> simp [hp, lookupIn, hk, ih]

theorem get?_filterKeys (m : JsMap κ ν) (p : κ → Bool) (k : κ) :
    (m.filterKeys p).get? k = if p k then m.get? k else none :=
  lookupIn_filter p k m.entries

theorem get?_delete (m : JsMap κ ν) (k k' : κ) :
    (m.delete k).get? k' = if k' = k then none else m.get? k' := by
  have h := lookupIn_filter (fun x => decide (x ≠ k)) k' m.entries
  by_cases hk : k' = k <;> simpa [delete, get?, hk] using h

theorem lookupIn_map (f : ν → ν) (k : κ) (es : List (κ × ν)) :
    lookupIn k (es.map fun e => (e.1, f e.2)) = (lookupIn k es).map f := by
  induction es with
  | nil => rfl
  | cons e es ih =>
    by_cases hk : e.1 = k <;> simp [lookupIn, hk, ih]

theorem get?_mapValues (m : JsMap κ ν) (f : ν → ν) (k : κ) :
    (m.mapValues f).get? k = (m.get? k).map f :=
  lookupIn_map f k m.entries

theorem lookupIn_eq_some {k : κ} {v : ν} {es : List (κ × ν)} (h : (es.map Prod.fst).Nodup) :
    lookupIn k es = some v ↔ (k, v) ∈ es := by
  induction es with
  | nil => simp [lookupIn]
  | cons e es ih =>
    obtain ⟨k₀, v₀⟩ := e
    simp only [List.map_cons, List.nodup_cons] at h
    by_cases hk : k₀ = k
    · subst hk
      have : (k₀, v) ∉ es := fun hm => h.1 (List.mem_map_of_mem (f := Prod.fst) hm)
      simp [lookupIn, this, eq_comm]
    · simp [lookupIn, hk, ih h.2, Ne.symm hk]

theorem get?_eq_some {m : JsMap κ ν} {k : κ} {v : ν} : m.get? k = some v ↔ (k, v) ∈ m.entries :=
  lookupIn_eq_some m.nodupKeys

theorem mem_values {m : JsMap κ ν} {v : ν} : v ∈ m.values ↔ ∃ k, m.get? k = some v := by
  simp only [values, List.mem_map, get?_eq_some, Prod.exists, exists_eq_right]

theorem get?_filterEntries (m : JsMap κ ν) (p : κ → ν → Bool) (k : κ) :
    (m.filterEntries p).get? k = (m.get? k).filter (p k) := by
  refine Option.ext fun v => ?_
  rw [get?_eq_some, Option.filter_eq_some_iff, get?_eq_some]
  simp [filterEntries]

/-- Setting one entry for each element of a list without a repeated key. -/
theorem get?_foldl_set {α : Type*} (key : α → κ) (value : α → ν) {l : List α}
    (hn : (l.map key).Nodup) (m : JsMap κ ν) (k : κ) :
    (l.foldl (fun m a => m.set (key a) (value a)) m).get? k =
      ((l.find? fun a => key a = k).map value).or (m.get? k) := by
  induction l generalizing m with
  | nil => simp
  | cons a l ih =>
    rw [List.map_cons, List.nodup_cons] at hn
    rw [List.foldl_cons, ih hn.2, get?_set, List.find?_cons]
    by_cases hk : key a = k
    · have hnone : l.find? (fun a => key a = k) = none :=
        List.find?_eq_none.mpr fun b hb hkb => hn.1 <| by
          rw [hk, ← of_decide_eq_true hkb]
          exact List.mem_map_of_mem hb
      simp [hk, hnone]
    · simp [hk]

section Sum

variable {M : Type*} [AddCommMonoid M]

theorem sum_setIn (f : ν → M) (k : κ) (v : ν) (es : List (κ × ν)) :
    ((setIn k v es).map fun e => f e.2).sum + (((lookupIn k es).map f).getD 0) =
      (es.map fun e => f e.2).sum + f v := by
  induction es with
  | nil => simp [setIn, lookupIn]
  | cons e es ih =>
    obtain ⟨k₀, v₀⟩ := e
    by_cases hk : k₀ = k
    · subst hk
      simp only [setIn, lookupIn, if_true, List.map_cons, List.sum_cons, Option.map_some,
        Option.getD_some]
      rw [add_comm (f v), add_assoc, add_comm (f v), ← add_assoc, add_comm _ (f v₀)]
    · simp only [setIn, lookupIn, if_neg hk, List.map_cons, List.sum_cons]
      rw [add_assoc, ih, add_assoc]

/-- What a `set` adds to a sum over the values, given what it overwrites. -/
theorem sum_values_set (m : JsMap κ ν) (f : ν → M) (k : κ) (v : ν) :
    ((m.set k v).values.map f).sum + (((m.get? k).map f).getD 0) = (m.values.map f).sum + f v := by
  simpa [values, set, get?, List.map_map, Function.comp_def] using sum_setIn f k v m.entries

theorem sum_filter_key_ne (f : ν → M) (k : κ) {es : List (κ × ν)} (hn : (es.map Prod.fst).Nodup) :
    ((es.filter fun e => e.1 ≠ k).map fun e => f e.2).sum + (((lookupIn k es).map f).getD 0) =
      (es.map fun e => f e.2).sum := by
  induction es with
  | nil => simp [lookupIn]
  | cons e es ih =>
    obtain ⟨k₀, v₀⟩ := e
    rw [List.map_cons, List.nodup_cons] at hn
    by_cases hk : k₀ = k
    · subst hk
      have hrest : es.filter (fun e => e.1 ≠ k₀) = es := by
        rw [List.filter_eq_self]
        intro e he
        simpa using fun h : e.1 = k₀ => hn.1 (List.mem_map.mpr ⟨e, he, h⟩)
      have hhead : ((k₀, v₀) :: es).filter (fun e => e.1 ≠ k₀) = es := by simpa using hrest
      rw [hhead]
      simp [lookupIn, add_comm]
    · have hhead : ((k₀, v₀) :: es).filter (fun e => e.1 ≠ k) =
          (k₀, v₀) :: es.filter fun e => e.1 ≠ k := by simp [hk]
      rw [hhead, lookupIn, if_neg hk, List.map_cons, List.map_cons, List.sum_cons, List.sum_cons,
        add_assoc, ih hn.2]

/-- What a `delete` takes from a sum over the values. -/
theorem sum_values_delete (m : JsMap κ ν) (f : ν → M) (k : κ) :
    ((m.delete k).values.map f).sum + (((m.get? k).map f).getD 0) = (m.values.map f).sum := by
  simpa [values, delete, get?, List.map_map, Function.comp_def] using
    sum_filter_key_ne f k m.nodupKeys

end Sum

theorem get?_of_size_le_zero {m : JsMap κ ν} (h : m.size ≤ 0) (k : κ) : m.get? k = none := by
  rw [get?, List.eq_nil_of_length_eq_zero (Nat.le_zero.mp h), lookupIn]

theorem size_delete {m : JsMap κ ν} {k : κ} {v : ν} (h : m.get? k = some v) :
    (m.delete k).size + 1 = m.size := by
  have hsum := sum_values_delete m (fun _ => 1) k
  rw [h, Option.map_some, Option.getD_some] at hsum
  simpa [size, values, Function.comp_def] using hsum

section Answers

variable {r : κ → ν → Prop} {m : JsMap κ ν} {k : κ} {v : ν}

/-- Each value of a table is an answer for its key. -/
def Answers (m : JsMap κ ν) (r : κ → ν → Prop) : Prop := ∀ k v, m.get? k = some v → r k v

theorem answers_empty : (empty : JsMap κ ν).Answers r := fun _ _ h => by cases h

theorem Answers.set (hm : m.Answers r) (h : r k v) : (m.set k v).Answers r := by
  intro k' v' hget
  rw [get?_set] at hget
  split_ifs at hget with hk
  · obtain rfl := Option.some.inj hget
    exact hk ▸ h
  · exact hm k' v' hget

theorem keys_setIn (k : κ) (v : ν) (es : List (κ × ν)) : (setIn k v es).map Prod.fst =
    if k ∈ es.map Prod.fst then es.map Prod.fst else es.map Prod.fst ++ [k] := by
  induction es with
  | nil => rfl
  | cons e es ih =>
    by_cases hk : e.1 = k
    · simp [setIn, hk]
    · have hne : k ≠ e.1 := Ne.symm hk
      simp only [setIn, if_neg hk, List.map_cons, ih, List.mem_cons, hne, false_or]
      split_ifs <;> rfl

/-- The keys of a map after `set` do not depend on its values. -/
theorem keys_set_congr {μ : Type*} {m' : JsMap κ μ} (h : m.keys = m'.keys) (k : κ) (v : ν) (w : μ) :
    (m.set k v).keys = (m'.set k w).keys := by
  have hkeys : m.entries.map Prod.fst = m'.entries.map Prod.fst := h
  show (setIn k v m.entries).map Prod.fst = (setIn k w m'.entries).map Prod.fst
  rw [keys_setIn, keys_setIn, hkeys]

omit [DecidableEq κ] in
theorem size_eq_length_keys (m : JsMap κ ν) : m.size = m.keys.length := (List.length_map _).symm

theorem isSome_get? : (m.get? k).isSome = true ↔ k ∈ m.keys := by
  rw [Option.isSome_iff_exists, keys, List.mem_map]
  constructor
  · rintro ⟨v, hv⟩
    exact ⟨(k, v), get?_eq_some.mp hv, rfl⟩
  · rintro ⟨⟨_, v⟩, hmem, rfl⟩
    exact ⟨v, get?_eq_some.mpr hmem⟩

end Answers

section Lists

variable {m : JsMap κ (List ν)}

/-- The list under a key, which is empty where there is none. -/
def getAll (m : JsMap κ (List ν)) (k : κ) : List ν := (m.get? k).getD []

/-- Appends to the list under a key. -/
def push (m : JsMap κ (List ν)) (k : κ) (v : ν) : JsMap κ (List ν) := m.set k (m.getAll k ++ [v])

theorem getAll_empty (k : κ) : (empty : JsMap κ (List ν)).getAll k = [] := rfl

theorem getAll_push (m : JsMap κ (List ν)) (k k' : κ) (v : ν) :
    (m.push k v).getAll k' = m.getAll k' ++ if k = k' then [v] else [] := by
  rw [getAll, push, get?_set]
  split_ifs with h
  · rw [h]
    rfl
  · rw [List.append_nil]
    rfl

end Lists

end JsMap
