import Flashclaw.Lib.Json
import Flashclaw.Lib.Lists
import Flashclaw.Reef.Encoding

/-!
# Reef: canonical JSON

`protocol/canonical.ts`.
-/

namespace Flashclaw.Reef

open Utf16 Json

/-- `Number.isFinite`. -/
def isFinite : Number → Bool
  | .finite _ => true
  | .negZero => true
  | _ => false

/-- The order of `toSorted`, on fields by their keys. -/
def keyLe {α : Type*} (a b : Utf16 × α) : Prop := a.1 ≤ b.1

instance {α : Type*} : DecidableRel (keyLe (α := α)) :=
  fun _ _ => inferInstanceAs (Decidable (_ ≤ _))

mutual

def canonicalJson : JsValue → Except JsError Utf16
  | .null => .ok (render .null)
  | .boolean b => .ok (render (.boolean b))
  | .string s => .ok (render (.string s))
  | .number n =>
    if isFinite n then .ok (render (.number n))
    else .error ⟨"TypeError", "canonical JSON requires finite numbers"⟩
  | .array elements => do
    let texts ← (canonicalElements elements).mapM id
    return unit '[' :: (Json.join (unit ',') texts ++ [unit ']'])
  | .object record => do
    -- a value is only read once its key has its turn, so the first error is that of the least key
    let entries ← ((canonicalFields record).insertionSort keyLe).mapM fun field =>
      field.2.map fun text => quote field.1 ++ unit ':' :: text
    return unit '\x7b' :: (Json.join (unit ',') entries ++ [unit '\x7d'])
  | .undefined => .error ⟨"TypeError", "unsupported canonical JSON value"⟩

def canonicalElements : List JsValue → List (Except JsError Utf16)
  | [] => []
  | v :: elements => canonicalJson v :: canonicalElements elements

/-- The fields of a record but the undefined ones. -/
def canonicalFields : List (Utf16 × JsValue) → List (Utf16 × Except JsError Utf16)
  | [] => []
  | (_, .undefined) :: fields => canonicalFields fields
  | (key, v) :: fields => (key, canonicalJson v) :: canonicalFields fields

end

mutual

/-- Built from null, booleans, finite numbers, strings, arrays and records, where fields may be
undefined. -/
def IsPlain : JsValue → Prop
  | .undefined => False
  | .number n => isFinite n = true
  | .array elements => IsPlainElements elements
  | .object fields => (fields.map Prod.fst).Nodup ∧ IsPlainFields fields
  | _ => True

def IsPlainElements : List JsValue → Prop
  | [] => True
  | v :: elements => IsPlain v ∧ IsPlainElements elements

def IsPlainFields : List (Utf16 × JsValue) → Prop
  | [] => True
  | (_, v) :: fields => (v = .undefined ∨ IsPlain v) ∧ IsPlainFields fields

end

mutual

/-- A value with its records in key order, without undefined fields and without `-0`. -/
def normalForm : JsValue → JsValue
  | .undefined => .undefined
  | .null => .null
  | .boolean b => .boolean b
  | .string s => .string s
  | .number n => .number (if n = .negZero then .finite .zero else n)
  | .array elements => .array (normalElements elements)
  | .object fields => .object ((normalFields fields).insertionSort keyLe)

def normalElements : List JsValue → List JsValue
  | [] => []
  | v :: elements => normalForm v :: normalElements elements

def normalFields : List (Utf16 × JsValue) → List (Utf16 × JsValue)
  | [] => []
  | (_, .undefined) :: fields => normalFields fields
  | (key, v) :: fields => (key, normalForm v) :: normalFields fields

end

/-- Equality up to key order, undefined fields and `-0`. -/
def Same (v w : JsValue) : Prop := normalForm v = normalForm w

section Lists

theorem canonicalElements_eq (l : List JsValue) : canonicalElements l = l.map canonicalJson := by
  induction l with
  | nil => rfl
  | cons v l ih => rw [canonicalElements, ih, List.map_cons]

theorem canonicalFields_eq (fields : List (Utf16 × JsValue)) :
    canonicalFields fields =
      (fields.filter (isDefined ·.2)).map fun f => (f.1, canonicalJson f.2) := by
  induction fields with
  | nil => rfl
  | cons f fields ih =>
    obtain ⟨key, v⟩ := f
    cases v <;> simp [canonicalFields, ih, isDefined]

theorem normalElements_eq (l : List JsValue) : normalElements l = l.map normalForm := by
  induction l with
  | nil => rfl
  | cons v l ih => rw [normalElements, ih, List.map_cons]

theorem normalFields_eq (fields : List (Utf16 × JsValue)) :
    normalFields fields = (fields.filter (isDefined ·.2)).map fun f => (f.1, normalForm f.2) := by
  induction fields with
  | nil => rfl
  | cons f fields ih =>
    obtain ⟨key, v⟩ := f
    cases v <;> simp [normalFields, ih, isDefined]

theorem isPlainElements_iff {l : List JsValue} : IsPlainElements l ↔ ∀ v ∈ l, IsPlain v := by
  induction l with
  | nil => simp [IsPlainElements]
  | cons v l ih => simp [IsPlainElements, ih]

theorem isPlainFields_iff {fields : List (Utf16 × JsValue)} :
    IsPlainFields fields ↔ ∀ f ∈ fields, f.2 = .undefined ∨ IsPlain f.2 := by
  induction fields with
  | nil => simp [IsPlainFields]
  | cons f fields ih =>
    rw [IsPlainFields, ih]
    simp

end Lists

section NormalForm

theorem isDefined_normalForm (v : JsValue) : isDefined (normalForm v) = isDefined v := by
  cases v <;> rfl

theorem isDefined_iff {v : JsValue} : isDefined v = true ↔ v ≠ .undefined := by
  cases v <;> simp [isDefined]

/-- What is left of a record is sorted by its keys. -/
theorem pairwise_normalFields (fields : List (Utf16 × JsValue)) :
    ((normalFields fields).insertionSort keyLe).Pairwise keyLe := by
  have : IsTrans (Utf16 × JsValue) keyLe := ⟨fun _ _ _ => le_trans⟩
  have : Std.Total (keyLe (α := JsValue)) := ⟨fun a b => le_total a.1 b.1⟩
  exact List.pairwise_insertionSort keyLe _

theorem normalForm_idem (v : JsValue) : normalForm (normalForm v) = normalForm v := by
  induction v using valueInduction with
  | undefined => rfl
  | null => rfl
  | boolean b => rfl
  | string s => rfl
  | number n => cases n <;> rfl
  | array elements ih =>
    rw [normalForm, normalForm, normalElements_eq, normalElements_eq, List.map_map]
    congr 1
    apply List.map_congr_left
    exact ih
  | object fields ih =>
    rw [normalForm, normalForm]
    congr 1
    have hfixed : normalFields ((normalFields fields).insertionSort keyLe) =
        (normalFields fields).insertionSort keyLe := by
      have hmem : ∀ f ∈ (normalFields fields).insertionSort keyLe,
          isDefined f.2 = true ∧ normalForm f.2 = f.2 := by
        intro f hf
        rw [List.mem_insertionSort, normalFields_eq] at hf
        obtain ⟨g, hg, rfl⟩ := List.mem_map.mp hf
        obtain ⟨hg, hdefined⟩ := List.mem_filter.mp hg
        exact ⟨(isDefined_normalForm g.2).trans hdefined, ih g hg⟩
      rw [normalFields_eq, List.filter_eq_self.mpr fun f hf => (hmem f hf).1]
      refine (List.map_congr_left fun f hf => ?_).trans (List.map_id _)
      show (f.1, normalForm f.2) = f
      rw [(hmem f hf).2]
    rw [hfixed]
    exact (pairwise_normalFields fields).insertionSort_eq

/-- The keys of a record without its undefined fields. -/
theorem nodup_normalFields {fields : List (Utf16 × JsValue)} (h : (fields.map Prod.fst).Nodup) :
    (((normalFields fields).insertionSort keyLe).map Prod.fst).Nodup := by
  have hperm := (List.perm_insertionSort keyLe (normalFields fields)).map Prod.fst
  apply hperm.nodup_iff.mpr
  rw [normalFields_eq, List.map_map]
  exact h.sublist (List.filter_sublist.map _)

theorem mem_normalFields {fields : List (Utf16 × JsValue)} {f : Utf16 × JsValue} :
    f ∈ (normalFields fields).insertionSort keyLe ↔
      ∃ g ∈ fields, isDefined g.2 = true ∧ (g.1, normalForm g.2) = f := by
  rw [List.mem_insertionSort, normalFields_eq, List.mem_map]
  simp only [List.mem_filter, and_assoc]

theorem isPlain_of_mem {fields : List (Utf16 × JsValue)} (h : IsPlain (.object fields))
    {g : Utf16 × JsValue} (hg : g ∈ fields) (hdefined : isDefined g.2 = true) : IsPlain g.2 := by
  rw [IsPlain, isPlainFields_iff] at h
  rcases h.2 g hg with hu | hp
  · exact absurd hu (isDefined_iff.mp hdefined)
  · exact hp

theorem uniqueKeys_normalForm (v : JsValue) (h : IsPlain v) : UniqueKeys (normalForm v) := by
  induction v using valueInduction with
  | undefined => trivial
  | null => trivial
  | boolean b => trivial
  | number n => trivial
  | string s => trivial
  | array elements ih =>
    rw [IsPlain, isPlainElements_iff] at h
    rw [normalForm, normalElements_eq, UniqueKeys, uniqueKeysElements_iff]
    intro w hw
    obtain ⟨v, hv, rfl⟩ := List.mem_map.mp hw
    exact ih v hv (h v hv)
  | object fields ih =>
    rw [normalForm, UniqueKeys, uniqueKeysFields_iff]
    refine ⟨nodup_normalFields ?_, fun f hf => ?_⟩
    · rw [IsPlain] at h
      exact h.1
    · obtain ⟨g, hg, hdefined, rfl⟩ := mem_normalFields.mp hf
      exact ih g hg (isPlain_of_mem h hg hdefined)

/-- JSON keeps all of a normal form. -/
theorem clean_normalForm (v : JsValue) (h : IsPlain v) : clean (normalForm v) = normalForm v := by
  induction v using valueInduction with
  | undefined => exact h.elim
  | null => rfl
  | boolean b => rfl
  | string s => rfl
  | number n =>
    rw [IsPlain] at h
    cases n with
    | nan => cases h
    | infinity => cases h
    | negInfinity => cases h
    | negZero => rfl
    | finite d => rfl
  | array elements ih =>
    rw [IsPlain, isPlainElements_iff] at h
    rw [normalForm, clean, cleanElements_eq, normalElements_eq, List.map_map]
    congr 1
    exact List.map_congr_left fun v hv => ih v hv (h v hv)
  | object fields ih =>
    rw [normalForm, clean, cleanFields_eq]
    congr 1
    have hmem : ∀ f ∈ (normalFields fields).insertionSort keyLe,
        isDefined f.2 = true ∧ clean f.2 = f.2 := by
      intro f hf
      obtain ⟨g, hg, hdefined, rfl⟩ := mem_normalFields.mp hf
      exact ⟨(isDefined_normalForm g.2).trans hdefined, ih g hg (isPlain_of_mem h hg hdefined)⟩
    rw [List.filter_eq_self.mpr fun f hf => (hmem f hf).1]
    refine (List.map_congr_left fun f hf => ?_).trans (List.map_id _)
    show (f.1, clean f.2) = f
    rw [(hmem f hf).2]

theorem mapM_map_ok {ε : Type} {α β γ : Type} {l : List α} {h : α → γ} {f : γ → Except ε β}
    {g : α → β} (hf : ∀ a ∈ l, f (h a) = .ok (g a)) : (l.map h).mapM f = .ok (l.map g) := by
  induction l with
  | nil => rfl
  | cons a l ih =>
    rw [List.map_cons, List.mapM_cons, ih fun b hb => hf b (List.mem_cons_of_mem a hb),
      hf a List.mem_cons_self]
    rfl

/-- The fields that are defined, in key order. -/
def sortedFields (fields : List (Utf16 × JsValue)) : List (Utf16 × JsValue) :=
  (fields.filter (isDefined ·.2)).insertionSort keyLe

/-- Values do not matter for the order. -/
theorem insertionSort_map_values {α β : Type*} (f : α → β) (l : List (Utf16 × α)) :
    (l.map fun e => (e.1, f e.2)).insertionSort keyLe =
      (l.insertionSort keyLe).map fun e => (e.1, f e.2) := by
  rw [List.map_insertionSort keyLe keyLe]
  exact fun a _ b _ => Iff.rfl

theorem sorted_canonicalFields (fields : List (Utf16 × JsValue)) :
    (canonicalFields fields).insertionSort keyLe =
      (sortedFields fields).map fun f => (f.1, canonicalJson f.2) := by
  rw [canonicalFields_eq, insertionSort_map_values]
  rfl

theorem sorted_normalFields (fields : List (Utf16 × JsValue)) :
    (normalFields fields).insertionSort keyLe =
      (sortedFields fields).map fun f => (f.1, normalForm f.2) := by
  rw [normalFields_eq, insertionSort_map_values]
  rfl

/-- The canonical text of a value is the JSON of its normal form. -/
theorem canonicalJson_eq (v : JsValue) (h : IsPlain v) :
    canonicalJson v = .ok (render (normalForm v)) := by
  induction v using valueInduction with
  | undefined => exact h.elim
  | null => rfl
  | boolean b => rfl
  | string s => rfl
  | number n =>
    rw [IsPlain] at h
    rw [canonicalJson, if_pos h]
    cases n with
    | nan => cases h
    | infinity => cases h
    | negInfinity => cases h
    | negZero => exact congrArg Except.ok render_negZero
    | finite d => rfl
  | array elements ih =>
    rw [IsPlain, isPlainElements_iff] at h
    rw [canonicalJson, canonicalElements_eq,
      mapM_map_ok (f := id) (g := fun v => render (normalForm v)) fun v hv => ih v hv (h v hv), normalForm,
      render, renderElements_eq, normalElements_eq, List.map_map]
    rfl
  | object fields ih =>
    have htext : ∀ g ∈ sortedFields fields, canonicalJson g.2 = .ok (render (normalForm g.2)) := by
      intro g hg
      obtain ⟨hg, hdefined⟩ := List.mem_filter.mp ((List.mem_insertionSort keyLe).mp hg)
      exact ih g hg (isPlain_of_mem h hg hdefined)
    have hdefined : ∀ f ∈ (sortedFields fields).map fun g => (g.1, normalForm g.2),
        isDefined f.2 = true := by
      intro f hf
      obtain ⟨g, hg, rfl⟩ := List.mem_map.mp hf
      rw [isDefined_normalForm]
      exact (List.mem_filter.mp ((List.mem_insertionSort keyLe).mp hg)).2
    rw [canonicalJson, sorted_canonicalFields,
      mapM_map_ok (g := fun g => renderMember (g.1, normalForm g.2)) fun g hg => by
        rw [htext g hg]
        rfl,
      normalForm, sorted_normalFields, render, renderFields_eq,
      List.filter_eq_self.mpr hdefined, List.map_map]
    rfl

end NormalForm

section Same

/-- Lists with one set of keys, in key order, that agree on every key. -/
theorem eq_of_sorted_keys {α : Type*} {l m : List (Utf16 × α)} (hl : l.Pairwise keyLe)
    (hm : m.Pairwise keyLe) (hkl : (l.map Prod.fst).Nodup) (hkm : (m.map Prod.fst).Nodup)
    (h : ∀ e, e ∈ l ↔ e ∈ m) : l = m := by
  refine List.Perm.eq_of_pairwise ?_ hl hm ?_
  · intro a b ha hb hab hba
    exact List.inj_on_of_nodup_map hkl ha ((h b).mpr hb) (le_antisymm hab hba)
  · exact (List.perm_ext_iff_of_nodup hkl.of_map hkm.of_map).mpr h

/-- What `record[key]` reads. -/
def field (fields : List (Utf16 × JsValue)) (key : Utf16) : JsValue :=
  ((fields.find? (·.1 = key)).map Prod.snd).getD .undefined

theorem field_eq_of_mem {fields : List (Utf16 × JsValue)} (h : (fields.map Prod.fst).Nodup)
    {f : Utf16 × JsValue} (hf : f ∈ fields) : field fields f.1 = f.2 := by
  unfold field
  rw [Lists.find?_eq_some_of_mem h hf]
  rfl

theorem mem_of_field_ne {fields : List (Utf16 × JsValue)} {key : Utf16}
    (h : field fields key ≠ .undefined) : (key, field fields key) ∈ fields := by
  unfold field at h ⊢
  cases hfind : fields.find? (·.1 = key) with
  | none =>
    rw [hfind] at h
    exact absurd rfl h
  | some f =>
    have hkey : f.1 = key := by simpa using List.find?_some hfind
    rw [← hkey]
    exact List.mem_of_find?_eq_some hfind

theorem mem_normalFields_iff {fields : List (Utf16 × JsValue)} (h : (fields.map Prod.fst).Nodup)
    {e : Utf16 × JsValue} : e ∈ (normalFields fields).insertionSort keyLe ↔
      field fields e.1 ≠ .undefined ∧ normalForm (field fields e.1) = e.2 := by
  rw [mem_normalFields]
  constructor
  · rintro ⟨g, hg, hdefined, rfl⟩
    rw [field_eq_of_mem h hg]
    exact ⟨isDefined_iff.mp hdefined, rfl⟩
  · rintro ⟨hne, hnormal⟩
    exact ⟨_, mem_of_field_ne hne, isDefined_iff.mpr hne, by rw [hnormal]⟩

theorem normalForm_eq_undefined {v : JsValue} : normalForm v = .undefined ↔ v = .undefined := by
  cases v <;> simp [normalForm]

/-- Records are the same if they have the same under every key, undefined fields like none. -/
theorem same_object_iff {f g : List (Utf16 × JsValue)} (hf : (f.map Prod.fst).Nodup)
    (hg : (g.map Prod.fst).Nodup) :
    Same (.object f) (.object g) ↔ ∀ key, Same (field f key) (field g key) := by
  unfold Same
  rw [normalForm, normalForm, JsValue.object.injEq]
  constructor
  · intro h key
    by_cases hu : field f key = .undefined
    · rw [hu]
      by_contra hne
      have hdefined : field g key ≠ .undefined := fun hu' => hne (by rw [hu'])
      have hmem := (mem_normalFields_iff hg (e := (key, normalForm (field g key)))).mpr
        ⟨hdefined, rfl⟩
      rw [← h] at hmem
      exact ((mem_normalFields_iff hf).mp hmem).1 hu
    · have hmem := (mem_normalFields_iff hf (e := (key, normalForm (field f key)))).mpr ⟨hu, rfl⟩
      rw [h] at hmem
      exact ((mem_normalFields_iff hg).mp hmem).2.symm
  · intro h
    apply eq_of_sorted_keys (pairwise_normalFields f) (pairwise_normalFields g)
      (nodup_normalFields hf) (nodup_normalFields hg)
    intro e
    rw [mem_normalFields_iff hf, mem_normalFields_iff hg, h e.1, ne_eq, ne_eq,
      ← normalForm_eq_undefined, h e.1, normalForm_eq_undefined]

theorem same_array_iff {l m : List JsValue} :
    Same (.array l) (.array m) ↔ List.Forall₂ Same l m := by
  unfold Same
  rw [normalForm, normalForm, JsValue.array.injEq, normalElements_eq, normalElements_eq,
    ← List.forall₂_eq_eq_eq, List.forall₂_map_left_iff, List.forall₂_map_right_iff]

theorem same_number_iff {n m : Number} :
    Same (.number n) (.number m) ↔ n = m ∨
      (n = .negZero ∨ n = .finite .zero) ∧ (m = .negZero ∨ m = .finite .zero) := by
  unfold Same
  rw [normalForm, normalForm, JsValue.number.injEq]
  split_ifs with hn hm hm
  · simp [hn, hm]
  · simp [hn, hm, eq_comm]
  · simp [hn, hm]
  · simp only [hn, hm, false_or, iff_self_or]
    rintro ⟨rfl, rfl⟩
    rfl

end Same

/-- `canonicalBytes`. -/
def canonicalBytes (value : JsValue) : Except JsError Bytes :=
  (canonicalJson value).map utf8

theorem same_of_canonicalJson_eq {v w : JsValue} (hv : IsPlain v) (hw : IsPlain w)
    (h : canonicalJson v = canonicalJson w) : Same v w := by
  rw [canonicalJson_eq v hv, canonicalJson_eq w hw] at h
  have hparse := congrArg parse (Except.ok.inj h)
  rw [parse_render _ (uniqueKeys_normalForm v hv), parse_render _ (uniqueKeys_normalForm w hw),
    clean_normalForm v hv, clean_normalForm w hw] at hparse
  exact Option.some.inj hparse

theorem same_of_canonicalBytes_eq {v w : JsValue} (hv : IsPlain v) (hw : IsPlain w)
    (h : canonicalBytes v = canonicalBytes w) : Same v w := by
  apply same_of_canonicalJson_eq hv hw
  unfold canonicalBytes at h
  rw [canonicalJson_eq v hv, canonicalJson_eq w hw] at h ⊢
  exact congrArg Except.ok (Utf8.encode_injective (isWellFormed_render _) (isWellFormed_render _)
    (Except.ok.inj h))

/-- Canonical JSON parses back to the value and is the text, and the bytes, of no other. -/
theorem canonicalJson_faithful (v w : JsValue) (hv : IsPlain v) (hw : IsPlain w) :
    (∃ text parsed, canonicalJson v = .ok text ∧ parse text = some parsed ∧ Same parsed v) ∧
      (canonicalJson v = canonicalJson w → Same v w) ∧
      (canonicalBytes v = canonicalBytes w → Same v w) := by
  refine ⟨⟨_, normalForm v, canonicalJson_eq v hv, ?_, normalForm_idem v⟩,
    same_of_canonicalJson_eq hv hw, same_of_canonicalBytes_eq hv hw⟩
  rw [parse_render _ (uniqueKeys_normalForm v hv), clean_normalForm v hv]

/-- A record with a lone surrogate in a key and an undefined field. -/
def canonicalSample : JsValue :=
  .object [(ofString "b", .array [.number .negZero, .null]), ([0xD800], .string (ofString "x")),
    (ofString "a", .undefined)]

theorem canonicalSample_isPlain : IsPlain canonicalSample := by
  refine ⟨by decide, .inr ⟨rfl, trivial, trivial⟩, .inr trivial, .inl rfl, trivial⟩

theorem canonicalJson_faithful_sample :
    ∃ text parsed, canonicalJson canonicalSample = .ok text ∧ parse text = some parsed ∧
      Same parsed canonicalSample :=
  (canonicalJson_faithful canonicalSample canonicalSample canonicalSample_isPlain
    canonicalSample_isPlain).1

end Flashclaw.Reef
