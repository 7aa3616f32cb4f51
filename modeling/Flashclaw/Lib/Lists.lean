import Mathlib.Data.List.Basic
import Mathlib.Data.List.Forall2
import Mathlib.Data.List.Infix
import Mathlib.Data.List.InsertIdx
import Mathlib.Data.List.Nodup
import Mathlib.Data.List.Sort

/-!
# Lists as ECMAScript arrays

`findIndex` with `splice` or `push`, as one insertion; slices by a key, maps
that leave elements out, and infixes; lists without some of their elements;
and `toSorted`, which is stable, as is `List.insertionSort`.
-/

namespace Lists

variable {α : Type*}

/-- Insert at the first index satisfying the test, else at the end. -/
def insertAtFirst (p : α → Bool) (a : α) (l : List α) : List α :=
  match l.findIdx? p with
  | none => l ++ [a]
  | some i => l.insertIdx i a

theorem insertAtFirst_nil (p : α → Bool) (a : α) : insertAtFirst p a [] = [a] := rfl

theorem insertAtFirst_cons (p : α → Bool) (a b : α) (l : List α) :
    insertAtFirst p a (b :: l) = if p b then a :: b :: l else b :: insertAtFirst p a l := by
  unfold insertAtFirst
  rw [List.findIdx?_cons]
  cases hb : p b
  · cases l.findIdx? p <;> simp
  · simp

theorem insertAtFirst_perm (p : α → Bool) (a : α) (l : List α) :
    (insertAtFirst p a l).Perm (a :: l) := by
  induction l with
  | nil => exact .rfl
  | cons b l ih =>
    rw [insertAtFirst_cons]
    split_ifs
    · exact .rfl
    · exact (ih.cons b).trans (.swap a b l)

/-- Inserting before the first element that must come later keeps a sorted list sorted. -/
theorem pairwise_insertAtFirst {r : α → α → Prop} (trans : ∀ a b c, r a b → r b c → r a c)
    {p : α → Bool} {a : α} {l : List α} (hl : l.Pairwise r) (hlt : ∀ b ∈ l, p b = true → r a b)
    (hle : ∀ b ∈ l, p b = false → r b a) : (insertAtFirst p a l).Pairwise r := by
  induction l with
  | nil => exact List.pairwise_singleton r a
  | cons b l ih =>
    rw [List.pairwise_cons] at hl
    rw [insertAtFirst_cons]
    split_ifs with hb
    · have hab := hlt b List.mem_cons_self hb
      refine List.pairwise_cons.mpr ⟨?_, List.pairwise_cons.mpr hl⟩
      intro c hc
      rcases List.mem_cons.mp hc with rfl | hc
      · exact hab
      · exact trans a b c hab (hl.1 c hc)
    · have hba := hle b List.mem_cons_self (by simpa using hb)
      refine List.pairwise_cons.mpr ⟨?_, ih hl.2 (fun c hc => hlt c (List.mem_cons_of_mem b hc))
        (fun c hc => hle c (List.mem_cons_of_mem b hc))⟩
      intro c hc
      rcases List.mem_cons.mp ((insertAtFirst_perm p a l).mem_iff.mp hc) with rfl | hc
      · exact hba
      · exact hl.1 c hc

/-- What is filtered out may be inserted anywhere. -/
theorem filter_insertIdx_of_neg {p : α → Bool} {a : α} (ha : p a = false) (i : ℕ) (l : List α) :
    (l.insertIdx i a).filter p = l.filter p := by
  induction l generalizing i with
  | nil => cases i <;> simp [ha]
  | cons b l ih => cases i <;> simp [ha, List.filter_cons, ih]

section Keys

variable {κ : Type*} [DecidableEq κ] {k : α → κ} {l : List α}

/-- Looking up a key that no two elements share. -/
theorem find?_eq_some_of_mem (hn : (l.map k).Nodup) {a : α} (hm : a ∈ l) :
    l.find? (fun b => k b = k a) = some a := by
  obtain ⟨b, hb⟩ := Option.isSome_iff_exists.mp
    ((List.find?_isSome (p := fun b => decide (k b = k a))).mpr ⟨a, hm, by simp⟩)
  have hkey : k b = k a := by simpa using List.find?_some hb
  rw [hb, List.inj_on_of_nodup_map hn (List.mem_of_find?_eq_some hb) hm hkey]

theorem find?_eq_some_iff (hn : (l.map k).Nodup) {key : κ} {a : α} :
    l.find? (fun b => k b = key) = some a ↔ a ∈ l ∧ k a = key := by
  constructor
  · intro h
    exact ⟨List.mem_of_find?_eq_some h, by simpa using List.find?_some h⟩
  · rintro ⟨hm, rfl⟩
    exact find?_eq_some_of_mem hn hm

/-- From the element with a key on, the elements are those from its index on. -/
theorem dropWhile_ne_eq_drop (hn : (l.map k).Nodup) {i : ℕ} {a : α} (hi : l[i]? = some a) :
    l.dropWhile (fun b => k b ≠ k a) = l.drop i := by
  induction l generalizing i with
  | nil => cases hi
  | cons b l ih =>
    rw [List.map_cons, List.nodup_cons] at hn
    cases i with
    | zero =>
      obtain rfl := Option.some.inj hi
      simp
    | succ i =>
      have hm : a ∈ l := List.mem_of_getElem? hi
      have hne : k b ≠ k a := fun h => hn.1 (h ▸ List.mem_map_of_mem hm)
      rw [List.dropWhile_cons_of_pos (by simpa using hne), List.drop_succ_cons]
      exact ih hn.2 hi

/-- Up to the element with a key, the elements are those before its index. -/
theorem takeWhile_ne_eq_take (hn : (l.map k).Nodup) {i : ℕ} {a : α} (hi : l[i]? = some a) :
    l.takeWhile (fun b => k b ≠ k a) = l.take i := by
  have hsplit := List.takeWhile_append_dropWhile (p := fun b => decide (k b ≠ k a)) (l := l)
  rw [dropWhile_ne_eq_drop hn hi] at hsplit
  exact List.append_cancel_right (hsplit.trans (List.take_append_drop i l).symm)

end Keys

section FilterMap

variable {β : Type*} {f g : α → Option β}

theorem filterMap_sublist_filterMap (h : ∀ a, f a = g a ∨ f a = none) (l : List α) :
    (l.filterMap f).Sublist (l.filterMap g) := by
  induction l with
  | nil => exact List.Sublist.slnil
  | cons a l ih =>
    rw [List.filterMap_cons, List.filterMap_cons]
    obtain ha | ha := h a
    · rw [ha]
      cases g a with
      | none => exact ih
      | some b => exact ih.cons_cons b
    · rw [ha]
      cases g a with
      | none => exact ih
      | some b => exact ih.cons b

/-- A map that leaves out some of another's results gives the same list where it leaves out none. -/
theorem filterMap_eq_filterMap_iff (h : ∀ a, f a = g a ∨ f a = none) (l : List α) :
    l.filterMap f = l.filterMap g ↔ ∀ a ∈ l, f a = g a := by
  constructor
  · intro heq
    induction l with
    | nil => exact List.forall_mem_nil _
    | cons a l ih =>
      rw [List.filterMap_cons, List.filterMap_cons] at heq
      rw [List.forall_mem_cons]
      cases hg : g a with
      | none =>
        have hf : f a = none := (h a).elim (fun ha => ha.trans hg) id
        rw [hf, hg] at heq
        exact ⟨hf, ih heq⟩
      | some b =>
        obtain hf | hf := h a
        · rw [hf, hg] at heq
          exact ⟨hf.trans hg, ih (List.cons.inj heq).2⟩
        · rw [hf, hg] at heq
          have hlength := (filterMap_sublist_filterMap h l).length_le
          have heq' : l.filterMap f = b :: l.filterMap g := heq
          rw [heq', List.length_cons] at hlength
          omega
  · exact List.filterMap_congr

end FilterMap

section Infix

variable {s a b : List α} {x : α} {n : ℕ}

/-- A list that neither starts nor ends with an element does not reach into many of them. -/
theorem infix_append_replicate (hhead : s.head? ≠ some x) (hlast : s.getLast? ≠ some x)
    (hn : s.length ≤ n) (h : s <:+: a ++ (List.replicate n x ++ b)) : s <:+: a ∨ s <:+: b := by
  obtain ⟨p, q, h⟩ := h
  rw [List.append_assoc, List.append_eq_append_iff] at h
  obtain ⟨t, rfl, h⟩ | ⟨t, rfl, h⟩ := h
  · left
    obtain ⟨u, rfl, -⟩ | ⟨u, rfl, hu⟩ := List.append_eq_append_iff.mp h
    · exact ⟨p, u, List.append_assoc p s u⟩
    · obtain rfl | ⟨l, y, rfl⟩ := u.eq_nil_or_concat'
      · rw [List.append_nil]
        exact List.infix_append_right
      · have hle : (l ++ [y]).length ≤ n := by
          simp only [List.length_append] at hn ⊢
          omega
        have hmem : y ∈ List.replicate n x := by
          have htake := congrArg (List.take (l ++ [y]).length) hu
          rw [List.take_left, List.take_append_of_le_length (by simpa using hle)] at htake
          have hy : y ∈ (List.replicate n x).take (l ++ [y]).length := by
            rw [htake]
            simp
          exact List.mem_of_mem_take hy
        obtain rfl := List.eq_of_mem_replicate hmem
        exact absurd (by simp [← List.append_assoc]) hlast
  · right
    obtain ⟨u, rfl, rfl⟩ | ⟨u, hu, hs⟩ := List.append_eq_append_iff.mp h
    · exact ⟨u, q, List.append_assoc u s q⟩
    · cases u with
      | nil => exact ⟨[], q, hs⟩
      | cons y u =>
        have hmem : y ∈ List.replicate n x := by
          rw [hu]
          simp
        obtain rfl := List.eq_of_mem_replicate hmem
        cases s with
        | nil => exact List.nil_infix
        | cons z s =>
          obtain rfl := (List.cons.inj hs).1
          exact absurd rfl hhead

end Infix
/-- A loop whose rounds append what they keep. -/
theorem foldl_append_filter {σ β : Type*} {f : σ → List β} {step : σ → α → σ} {p : α → Bool}
    {g : α → β} (h : ∀ s a, f (step s a) = f s ++ if p a then [g a] else []) (l : List α) (s : σ) :
    f (l.foldl step s) = f s ++ (l.filter p).map g := by
  induction l generalizing s with
  | nil => exact (List.append_nil _).symm
  | cons a l ih =>
    rw [List.foldl_cons, ih, h, List.append_assoc, List.filter_cons]
    cases p a <;> rfl

/-- Searches that agree on each element for which the elements before it give nothing. -/
theorem findSome?_congr_of_none {β : Type*} [DecidableEq α] {f g : α → Option β} {l : List α}
    (hl : l.Nodup) (h : ∀ a ∈ l, (∀ b ∈ l.takeWhile (· ≠ a), g b = none) → f a = g a) :
    l.findSome? f = l.findSome? g := by
  induction l with
  | nil => rfl
  | cons a l ih =>
    obtain ⟨ha, hl⟩ := List.nodup_cons.mp hl
    have hfirst : f a = g a := h a List.mem_cons_self fun b hb => by simp at hb
    rw [List.findSome?_cons, List.findSome?_cons, hfirst]
    cases hg : g a with
    | some found => rfl
    | none =>
      apply ih hl
      intro b hb hnone
      apply h b (List.mem_cons_of_mem a hb)
      have hne : a ≠ b := fun heq => ha (heq ▸ hb)
      rw [List.takeWhile_cons, if_pos (decide_eq_true hne)]
      exact List.forall_mem_cons.mpr ⟨hg, hnone⟩

/-- A search among the elements that alone can be found. -/
theorem find?_filter_of_imp {p q : α → Bool} {l : List α} (h : ∀ a ∈ l, q a = true → p a = true) :
    (l.filter p).find? q = l.find? q := by
  rw [List.find?_filter]
  induction l with
  | nil => rfl
  | cons a l ih =>
    obtain ⟨ha, hl⟩ := List.forall_mem_cons.mp h
    rw [List.find?_cons, List.find?_cons, ih hl]
    cases hq : q a with
    | true => simp [ha hq]
    | false => simp

/-- Two texts that are split at their first separator. -/
theorem append_cons_inj_first {c : α} {x y z w : List α} (hx : c ∉ x) (hy : c ∉ y)
    (h : x ++ c :: z = y ++ c :: w) : x = y ∧ z = w := by
  induction x generalizing y with
  | nil =>
    cases y with
    | nil => exact ⟨rfl, (List.cons.inj h).2⟩
    | cons b y =>
      obtain ⟨rfl, -⟩ := List.cons.inj h
      exact absurd List.mem_cons_self hy
  | cons a x ih =>
    cases y with
    | nil =>
      obtain ⟨rfl, -⟩ := List.cons.inj h
      exact absurd List.mem_cons_self hx
    | cons b y =>
      obtain ⟨rfl, htail⟩ := List.cons.inj h
      obtain ⟨rfl, hrest⟩ := ih (fun hc => hx (List.mem_cons_of_mem _ hc))
        (fun hc => hy (List.mem_cons_of_mem _ hc)) htail
      exact ⟨rfl, hrest⟩

/-- Two texts that are split at their last separator. -/
theorem append_cons_inj_last {c : α} {x y z w : List α} (hz : c ∉ z) (hw : c ∉ w)
    (h : x ++ c :: z = y ++ c :: w) : x = y ∧ z = w := by
  have hreverse := congrArg List.reverse h
  simp only [List.reverse_append, List.reverse_cons, List.append_assoc, List.singleton_append]
    at hreverse
  obtain ⟨hlast, hfront⟩ := append_cons_inj_first (fun hc => hz (List.mem_reverse.mp hc))
    (fun hc => hw (List.mem_reverse.mp hc)) hreverse
  exact ⟨List.reverse_injective hfront, List.reverse_injective hlast⟩

/-- A list is split at an element that passes a test in one way only, if as many elements before it
pass the test. -/
theorem append_cons_inj_of_filter {p : α → Bool} {a : α} {front front' rest rest' : List α}
    (ha : p a = true) (h : front ++ a :: rest = front' ++ a :: rest')
    (hlength : (front.filter p).length = (front'.filter p).length) :
    front = front' ∧ rest = rest' := by
  induction front generalizing front' with
  | nil =>
    cases front' with
    | nil => exact ⟨rfl, (List.cons.inj h).2⟩
    | cons b front' =>
      obtain ⟨rfl, -⟩ := List.cons.inj h
      rw [List.filter_cons_of_pos ha] at hlength
      cases hlength
  | cons b front ih =>
    cases front' with
    | nil =>
      obtain ⟨rfl, -⟩ := List.cons.inj h
      rw [List.filter_cons_of_pos ha] at hlength
      cases hlength
    | cons c front' =>
      obtain ⟨rfl, htail⟩ := List.cons.inj h
      have hlength' : (front.filter p).length = (front'.filter p).length := by
        rw [List.filter_cons, List.filter_cons] at hlength
        split_ifs at hlength
        · exact Nat.succ.inj hlength
        · exact hlength
      obtain ⟨rfl, hrest⟩ := ih htail hlength'
      exact ⟨rfl, hrest⟩

theorem exists_of_mem_forall₂ {β : Type*} {r : α → β → Prop} {l : List α} {l' : List β}
    (h : List.Forall₂ r l l') {b : β} (hmem : b ∈ l') : ∃ a ∈ l, r a b := by
  induction h with
  | nil => cases hmem
  | cons hfirst _ ih =>
    rcases List.mem_cons.mp hmem with rfl | hmem
    · exact ⟨_, List.mem_cons_self, hfirst⟩
    · obtain ⟨a, ha, hrel⟩ := ih hmem
      exact ⟨a, List.mem_cons_of_mem _ ha, hrel⟩

theorem exists_append_of_forall₂ {β : Type*} {r : α → β → Prop} {l l' : List α} {m : List β}
    (h : List.Forall₂ r (l ++ l') m) :
    ∃ n n', m = n ++ n' ∧ List.Forall₂ r l n ∧ List.Forall₂ r l' n' := by
  induction l generalizing m with
  | nil => exact ⟨[], m, rfl, .nil, h⟩
  | cons a l ih =>
    obtain ⟨b, rest, hfirst, hrest, rfl⟩ := List.forall₂_cons_left_iff.mp h
    obtain ⟨n, n', rfl, hn, hn'⟩ := ih hrest
    exact ⟨b :: n, n', rfl, .cons hfirst hn, hn'⟩

theorem modify_append_cons (f : α → α) (l : List α) (a : α) (l' : List α) :
    (l ++ a :: l').modify l.length f = l ++ f a :: l' := by
  induction l with
  | nil => rfl
  | cons b l ih => exact congrArg (b :: ·) ih

end Lists

namespace Omission

variable {α : Type*}

/-- The first list is the second one without some elements that `p` holds of. -/
inductive Omits (p : α → Prop) : List α → List α → Prop where
  | nil : Omits p [] []
  | keep (a : α) {kept whole : List α} (h : Omits p kept whole) : Omits p (a :: kept) (a :: whole)
  | leave (a : α) {kept whole : List α} (ha : p a) (h : Omits p kept whole) :
    Omits p kept (a :: whole)

section Omits

variable {p : α → Prop} {kept kept' whole whole' : List α}

theorem Omits.refl (p : α → Prop) (l : List α) : Omits p l l := by
  induction l with
  | nil => exact .nil
  | cons a l ih => exact .keep a ih

theorem Omits.append (h : Omits p kept whole) (h' : Omits p kept' whole') :
    Omits p (kept ++ kept') (whole ++ whole') := by
  induction h with
  | nil => exact h'
  | keep a _ ih => exact .keep a ih
  | leave a ha _ ih => exact .leave a ha ih

theorem Omits.of_forall {l : List α} (h : ∀ a ∈ l, p a) : Omits p [] l := by
  induction l with
  | nil => exact .nil
  | cons a l ih =>
    obtain ⟨ha, hl⟩ := List.forall_mem_cons.mp h
    exact .leave a ha (ih hl)

theorem Omits.trans {middle : List α} (h : Omits p kept middle) (h' : Omits p middle whole) :
    Omits p kept whole := by
  induction h' generalizing kept with
  | nil => exact h
  | leave a ha _ ih => exact .leave a ha (ih h)
  | keep a _ ih =>
    cases h with
    | keep _ h => exact .keep a (ih h)
    | leave _ ha h => exact .leave a ha (ih h)

/-- Where nothing may be left out, nothing is. -/
theorem Omits.eq_of_forall (h : Omits p kept whole) (hp : ∀ a ∈ whole, ¬p a) : kept = whole := by
  induction h with
  | nil => rfl
  | keep a _ ih => rw [ih fun b hb => hp b (List.mem_cons_of_mem a hb)]
  | leave a ha _ _ => exact absurd ha (hp a List.mem_cons_self)

end Omits

end Omission

/-!
## Stable sorting

Stability is used as commutation with filters: what is kept of the sorted list is the kept part
sorted.
-/

namespace Sorting

variable {α : Type*} (r : α → α → Prop) [DecidableRel r] [IsTrans α r]

theorem filter_orderedInsert (p : α → Bool) (a : α) {l : List α} (hl : l.Pairwise r) :
    (l.orderedInsert r a).filter p =
      if p a then (l.filter p).orderedInsert r a else l.filter p := by
  induction l with
  | nil => cases hp : p a <;> simp [hp]
  | cons b l ih =>
    rw [List.pairwise_cons] at hl
    rw [List.orderedInsert_cons]
    split_ifs with hab hp hp
    · have hle : ∀ c ∈ (b :: l).filter p, r a c := by
        intro c hc
        rcases List.mem_cons.mp (List.mem_of_mem_filter hc) with rfl | hc
        · exact hab
        · exact IsTrans.trans _ _ _ hab (hl.1 c hc)
      rw [List.filter_cons_of_pos hp]
      cases h : (b :: l).filter p with
      | nil => rfl
      | cons c cs => rw [List.orderedInsert_cons, if_pos (hle c (by rw [h]; exact List.mem_cons_self))]
    · rw [List.filter_cons_of_neg hp]
    · cases hb : p b
      · rw [List.filter_cons_of_neg (by simp [hb]), List.filter_cons_of_neg (by simp [hb]), ih hl.2,
          if_pos hp]
      · rw [List.filter_cons_of_pos hb, List.filter_cons_of_pos hb, List.orderedInsert_cons,
          if_neg hab, ih hl.2, if_pos hp]
    · cases hb : p b
      · rw [List.filter_cons_of_neg (by simp [hb]), List.filter_cons_of_neg (by simp [hb]), ih hl.2,
          if_neg hp]
      · rw [List.filter_cons_of_pos hb, List.filter_cons_of_pos hb, ih hl.2, if_neg hp]

variable [Std.Total r]

/-- Sorting is stable. -/
theorem filter_insertionSort (p : α → Bool) (l : List α) :
    (l.insertionSort r).filter p = (l.filter p).insertionSort r := by
  induction l with
  | nil => rfl
  | cons a l ih =>
    rw [List.insertionSort_cons, filter_orderedInsert r p a (List.pairwise_insertionSort r l), ih]
    cases h : p a
    · rw [List.filter_cons_of_neg (by simp [h])]
      rfl
    · rw [List.filter_cons_of_pos h]
      rfl

variable {r}

omit [DecidableRel r] [IsTrans α r] [Std.Total r] in
/-- A sorted list in which no `p` element may follow one that fails `p`. -/
theorem eq_filter_append_filter {p : α → Bool} {l : List α} (hl : l.Pairwise r)
    (hlt : ∀ a ∈ l, ∀ b ∈ l, p a = true → p b = false → ¬ r b a) :
    l = l.filter p ++ l.filter fun a => !p a := by
  induction l with
  | nil => rfl
  | cons a l ih =>
    rw [List.pairwise_cons] at hl
    have ih := ih hl.2 fun b hb c hc =>
      hlt b (List.mem_cons_of_mem a hb) c (List.mem_cons_of_mem a hc)
    cases ha : p a
    · have hnone : l.filter p = [] := by
        refine List.filter_eq_nil_iff.mpr fun b hb hpb => ?_
        exact hlt b (List.mem_cons_of_mem a hb) a List.mem_cons_self hpb ha (hl.1 b hb)
      rw [hnone, List.nil_append] at ih
      simp [ha, hnone, ← ih]
    · simp [ha, ← ih]

/-- Two sorted runs, the first before the second, however they are interleaved. -/
theorem insertionSort_eq_append {p : α → Bool} {l : List α} (hp : (l.filter p).Pairwise r)
    (hn : (l.filter fun a => !p a).Pairwise r)
    (hlt : ∀ a ∈ l, ∀ b ∈ l, p a = true → p b = false → ¬ r b a) :
    l.insertionSort r = l.filter p ++ l.filter fun a => !p a := by
  have hmem : ∀ a, a ∈ l.insertionSort r → a ∈ l := fun a => (List.mem_insertionSort r).mp
  have h := eq_filter_append_filter (List.pairwise_insertionSort r l)
    fun a ha b hb => hlt a (hmem a ha) b (hmem b hb)
  rw [filter_insertionSort, filter_insertionSort, hp.insertionSort_eq, hn.insertionSort_eq] at h
  exact h

end Sorting
