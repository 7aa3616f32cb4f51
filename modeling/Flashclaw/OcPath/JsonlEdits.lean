import Flashclaw.OcPath.JsonlRender

/-!
# Edits of JSONL documents

The editor against the resolver: where both read the segments of a path alike,
an edit replaces the node that is resolved, and the document that is parsed
again differs in that node only.
-/

open Utf16

namespace JsoncValue

open OcPath Jsonl

/-- The child that the editor walks to. -/
def editedChild (current : JsoncValue) (seg : Utf16) : Option ℕ :=
  if seg.length = 0 then none
  else
    match current with
    | .object entries => editedEntry entries seg
    | .array items => editedItem items seg
    | _ => none

/-- The child that the resolver walks to, for the segment as the path spells it. -/
def shownChild (current : JsoncValue) (seg : Utf16) : Option ℕ :=
  resolvedChild current (unquoteSeg seg)

/-- A segment that resolver and editor read differently at a node: a quoted one that the resolver
reads as a position, as nothing or as an index, or a position whose key stands in quotes. -/
def Ambiguous : JsoncValue → Utf16 → Prop
  | .object entries, seg =>
    if isQuotedSeg seg then
      if unquoteSeg seg = [] then [] ∈ keys entries
      else isPositionalSeg (unquoteSeg seg) = true ∧ entries ≠ [] ∧
        positionalForJsonc (.object entries) (unquoteSeg seg) ≠ some (unquoteSeg seg)
    else isPositionalSeg seg = true ∧
      ∃ key, positionalForJsonc (.object entries) seg = some key ∧ isQuotedSeg key = true
  | .array items, seg => isQuotedSeg seg = true ∧ (shownChild (.array items) seg).isSome = true
  | _, _ => False

/-- No segment is ambiguous at the node where the resolver meets it. -/
def ReadAlike (v : JsoncValue) : List Utf16 → Prop
  | [] => True
  | seg :: segments => ¬ Ambiguous v seg ∧
    ∀ i child, shownChild v seg = some i → v.child? i = some child → child.ReadAlike segments

theorem walk_map (read : JsoncValue → Utf16 → Option ℕ) (f : Utf16 → Utf16) (v : JsoncValue)
    (segments : List Utf16) :
    v.walk read (segments.map f) = v.walk (fun w seg => read w (f seg)) segments := by
  induction segments generalizing v with
  | nil => rfl
  | cons seg segments ih =>
    rw [List.map_cons, walk_eq, walk_eq]
    simp only [ih]

theorem replaceAt_eq (newValue v : JsoncValue) (segments : List Utf16) :
    replaceAt newValue v segments =
      (v.walk editedChild segments).map (v.replaceNode newValue) := by
  induction segments generalizing v with
  | nil => rfl
  | cons seg segments ih =>
    rw [walk_eq]
    cases v with
    | object entries =>
      rw [replaceAt, editedChild]
      split
      · rfl
      · cases editedEntry entries seg with
        | none => rfl
        | some idx =>
          cases hchild : entries[idx]? with
          | none => simp [child?_object, hchild]
          | some child =>
            have hset (w : JsoncValue) :
                entries.set idx (child.1, w) = entries.modify idx fun e => (e.1, w) := by
              rw [List.modify_eq_set_getElem?, hchild]
              rfl
            simp [child?_object, hchild, ih, Function.comp_def, replaceNode, setChild, hset]
    | array items =>
      rw [replaceAt, editedChild]
      split
      · rfl
      · cases editedItem items seg with
        | none => rfl
        | some idx =>
          cases hchild : items[idx]? with
          | none => simp [child?_array, hchild]
          | some child =>
            simp [child?_array, hchild, ih, Function.comp_def, replaceNode, setChild]
    | _ =>
      unfold replaceAt editedChild
      split <;> rfl

theorem isQuotedSeg_iff {seg : Utf16} : isQuotedSeg seg = true ↔
    ∃ inner, seg = unit '"' :: (inner ++ [unit '"']) := by
  unfold isQuotedSeg
  simp only [Bool.and_eq_true, decide_eq_true_eq]
  constructor
  · rintro ⟨⟨hlength, hhead⟩, hlast⟩
    obtain ⟨rest, rfl⟩ := List.head?_eq_some_iff.mp hhead
    obtain rfl | ⟨inner, last, rfl⟩ := rest.eq_nil_or_concat'
    · exact absurd hlength (by decide)
    · refine ⟨inner, ?_⟩
      rw [← List.cons_append, List.getLast?_concat] at hlast
      rw [Option.some.inj hlast]
  · rintro ⟨inner, rfl⟩
    refine ⟨⟨by simp, rfl⟩, ?_⟩
    rw [← List.cons_append, List.getLast?_concat]

theorem unquoteSeg_of_not_quoted {seg : Utf16} (h : isQuotedSeg seg ≠ true) :
    unquoteSeg seg = seg := if_neg h

theorem length_unquoteSeg {seg : Utf16} (h : isQuotedSeg seg = true) :
    (unquoteSeg seg).length < seg.length := by
  obtain ⟨inner, rfl⟩ := isQuotedSeg_iff.mp h
  rw [unquoteSeg, if_pos h, List.tail_cons, List.dropLast_concat]
  simp

theorem not_positional_of_quoted {seg : Utf16} (h : isQuotedSeg seg = true) :
    isPositionalSeg seg ≠ true := by
  obtain ⟨inner, rfl⟩ := isQuotedSeg_iff.mp h
  intro hpos
  unfold isPositionalSeg at hpos
  simp only [Bool.or_eq_true, decide_eq_true_eq] at hpos
  rcases hpos with h | h
  · exact absurd (List.cons.inj h).1 (by decide)
  · exact absurd (List.cons.inj h).1 (by decide)

theorem ne_nil_of_quoted {seg : Utf16} (h : isQuotedSeg seg = true) : seg.length ≠ 0 := by
  obtain ⟨inner, rfl⟩ := isQuotedSeg_iff.mp h
  exact Nat.succ_ne_zero _

theorem parseArrayIndexSegment_of_quoted {seg : Utf16} (h : isQuotedSeg seg = true) (n : ℕ) :
    parseArrayIndexSegment seg n = none := by
  obtain ⟨inner, rfl⟩ := isQuotedSeg_iff.mp h
  rfl

section Find

variable {entries : List (Utf16 × JsoncValue)} {k l : Utf16}

theorem findIdx?_key_isSome : (entries.findIdx? fun e => e.1 = k).isSome = true ↔
    k ∈ keys entries := by
  rw [List.findIdx?_isSome, List.any_eq_true]
  constructor
  · rintro ⟨e, he, hk⟩
    exact List.mem_map.mpr ⟨e, he, by simpa using hk⟩
  · intro h
    obtain ⟨e, he, hk⟩ := List.mem_map.mp h
    exact ⟨e, he, by simpa using hk⟩

/-- A key that is there is found at an index of its own. -/
theorem findIdx?_key_inj (hk : k ∈ keys entries) :
    (entries.findIdx? fun e => e.1 = k) = (entries.findIdx? fun e => e.1 = l) ↔ k = l := by
  constructor
  · intro h
    obtain ⟨i, hi⟩ := Option.isSome_iff_exists.mp (findIdx?_key_isSome.mpr hk)
    obtain ⟨hlt, hik, -⟩ := List.findIdx?_eq_some_iff_getElem.mp hi
    obtain ⟨_, hil, -⟩ := List.findIdx?_eq_some_iff_getElem.mp (h.symm.trans hi)
    rw [decide_eq_true_eq] at hik hil
    exact hik.symm.trans hil
  · rintro rfl
    rfl

/-- A position of an object with entries is one of its keys. -/
theorem positionalForJsonc_object {seg : Utf16} (hseg : isPositionalSeg seg = true)
    (hne : entries ≠ []) :
    ∃ key ∈ keys entries, positionalForJsonc (.object entries) seg = some key := by
  have hkeys : keys entries ≠ [] := fun h => hne (List.map_eq_nil_iff.mp h)
  have hsize : (keys entries).length ≠ 0 := fun h => hkeys (List.length_eq_zero_iff.mp h)
  unfold positionalForJsonc resolvePositionalSeg
  dsimp only
  rw [if_neg hsize]
  unfold isPositionalSeg at hseg
  simp only [Bool.or_eq_true, decide_eq_true_eq] at hseg
  rcases hseg with rfl | rfl
  · exact ⟨_, List.head_mem hkeys, List.head?_eq_some_head hkeys⟩
  · exact ⟨_, List.getLast_mem hkeys, List.getLast?_eq_some_getLast hkeys⟩

end Find

theorem positionalForJsonc_object_eq (entries : List (Utf16 × JsoncValue)) (seg : Utf16) :
    positionalForJsonc (.object entries) seg =
      resolvePositionalSeg seg ⟨false, entries.length, entries.map Prod.fst⟩ := by
  show resolvePositionalSeg seg ⟨false, (entries.map Prod.fst).length, _⟩ = _
  rw [List.length_map]
  rfl

/-- Resolver and editor walk to the same entry unless the segment is ambiguous. -/
theorem shownChild_object_iff (entries : List (Utf16 × JsoncValue)) (seg : Utf16) :
    shownChild (.object entries) seg = editedChild (.object entries) seg ↔
      ¬ Ambiguous (.object entries) seg := by
  unfold shownChild resolvedChild editedChild editedEntry Ambiguous
  dsimp only
  rw [← positionalForJsonc_object_eq]
  -- The resolver unquotes before it looks for a position; the edit looks at the raw segment.
  by_cases hquoted : isQuotedSeg seg = true
  · rw [if_pos hquoted, if_neg (ne_nil_of_quoted hquoted),
      if_neg (not_positional_of_quoted hquoted)]
    dsimp only
    by_cases hempty : unquoteSeg seg = []
    · rw [if_pos (by rw [hempty]; rfl), if_pos hempty, ← findIdx?_key_isSome, hempty]
      cases entries.findIdx? fun e => decide (e.1 = []) <;> simp
    · rw [if_neg fun h => hempty (List.length_eq_zero_iff.mp h), if_neg hempty]
      by_cases hpos : isPositionalSeg (unquoteSeg seg) = true
      · rw [if_pos hpos]
        by_cases hne : entries = []
        · subst hne
          simp
        · obtain ⟨key, hkey, hresolved⟩ := positionalForJsonc_object hpos hne
          rw [hresolved, Option.getD_some, findIdx?_key_inj hkey]
          simp [hpos, hne]
      · rw [if_neg hpos]
        simp [hpos]
  · rw [if_neg hquoted, unquoteSeg_of_not_quoted hquoted]
    by_cases hempty : seg.length = 0
    · have hpos : isPositionalSeg seg ≠ true := by
        rw [List.length_eq_zero_iff.mp hempty]
        decide
      rw [if_pos hempty, if_pos hempty]
      simp [hpos]
    · rw [if_neg hempty, if_neg hempty]
      by_cases hpos : isPositionalSeg seg = true
      · rw [if_pos hpos, if_pos hpos]
        by_cases hne : entries = []
        · subst hne
          have hnone : positionalForJsonc (.object []) seg = none := rfl
          simp [hnone]
        · obtain ⟨key, hkey, hresolved⟩ := positionalForJsonc_object hpos hne
          rw [hresolved, Option.getD_some, findIdx?_key_inj hkey]
          -- A position's key is compared raw: only a key written in quotes differs from itself.
          have hself : key = unquoteSeg key ↔ isQuotedSeg key ≠ true := by
            constructor
            · intro h hk
              have hlt := length_unquoteSeg hk
              rw [← h] at hlt
              exact lt_irrefl _ hlt
            · exact fun h => (unquoteSeg_of_not_quoted h).symm
          rw [hself]
          simp [hpos]
      · rw [if_neg hpos, if_neg hpos]
        dsimp only
        rw [unquoteSeg_of_not_quoted hquoted]
        simp [hpos]

theorem shownChild_array_iff (items : List JsoncValue) (seg : Utf16) :
    shownChild (.array items) seg = editedChild (.array items) seg ↔
      ¬ Ambiguous (.array items) seg := by
  by_cases hquoted : isQuotedSeg seg = true
  · have hedited : editedChild (.array items) seg = none := by
      unfold editedChild editedItem
      rw [if_neg (ne_nil_of_quoted hquoted)]
      dsimp only
      rw [if_neg (not_positional_of_quoted hquoted)]
      exact parseArrayIndexSegment_of_quoted hquoted _
    rw [hedited]
    show _ ↔ ¬ (isQuotedSeg seg = true ∧ (shownChild (.array items) seg).isSome = true)
    cases shownChild (.array items) seg <;> simp [hquoted]
  · have hshown : shownChild (.array items) seg = editedChild (.array items) seg := by
      unfold shownChild resolvedChild editedChild editedItem
      rw [unquoteSeg_of_not_quoted hquoted]
      dsimp only
      split
      · rfl
      · by_cases hpos : isPositionalSeg seg = true
        · have hfold : resolvePositionalSeg seg ⟨true, items.length, []⟩ =
              positionalForJsonc (.array items) seg := rfl
          rw [if_pos hpos, if_pos hpos, hfold]
          cases hresolved : positionalForJsonc (.array items) seg with
          | some key => rfl
          | none =>
            unfold isPositionalSeg at hpos
            simp only [Bool.or_eq_true, decide_eq_true_eq] at hpos
            rcases hpos with rfl | rfl <;> rfl
        · rw [if_neg hpos, if_neg hpos]
    unfold Ambiguous
    simp [hshown, hquoted]

theorem shownChild_iff (v : JsoncValue) (seg : Utf16) :
    shownChild v seg = editedChild v seg ↔ ¬ Ambiguous v seg := by
  cases v with
  | object entries => exact shownChild_object_iff entries seg
  | array items => exact shownChild_array_iff items seg
  | _ =>
    unfold shownChild resolvedChild editedChild Ambiguous
    simp

/-- Segments that are read alike lead resolver and editor to one address. -/
theorem ReadAlike.walk_eq {v : JsoncValue} {segments : List Utf16} (h : v.ReadAlike segments) :
    v.walk shownChild segments = v.walk editedChild segments := by
  induction segments generalizing v with
  | nil => rfl
  | cons seg segments ih =>
    obtain ⟨hseg, hrest⟩ := h
    rw [JsoncValue.walk_eq, JsoncValue.walk_eq, ← (shownChild_iff v seg).mpr hseg]
    cases hi : shownChild v seg with
    | none => rfl
    | some i =>
      rw [Option.bind_some, Option.bind_some]
      cases hchild : v.child? i with
      | none => rfl
      | some child => rw [Option.bind_some, Option.bind_some, ih (hrest i child hi hchild)]

end JsoncValue
