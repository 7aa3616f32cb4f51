import Mathlib.Data.List.Forall2

/-!
# Results of functions that throw
-/

namespace Results

universe u v

theorem bind_eq_ok {ε : Type u} {α β : Type v} {x : Except ε α} {f : α → Except ε β} {b : β} :
    (x >>= f) = .ok b ↔ ∃ a, x = .ok a ∧ f a = .ok b := by
  cases x with
  | error e => simp [bind, Except.bind]
  | ok a => simp [bind, Except.bind]

theorem map_eq_ok {ε : Type u} {α β : Type v} {x : Except ε α} {f : α → β} {b : β} :
    x.map f = .ok b ↔ ∃ a, x = .ok a ∧ f a = b := by
  cases x with
  | error e => simp [Except.map]
  | ok a => simp [Except.map]

section Map

variable {ε : Type u} {α β : Type v} {f : α → Except ε β}

theorem mapM_cons_eq_ok {a : α} {l : List α} {l' : List β} :
    (a :: l).mapM f = .ok l' ↔ ∃ b bs, f a = .ok b ∧ l.mapM f = .ok bs ∧ l' = b :: bs := by
  rw [List.mapM_cons, bind_eq_ok]
  constructor
  · rintro ⟨b, hb, h⟩
    obtain ⟨bs, hbs, h⟩ := bind_eq_ok.mp h
    exact ⟨b, bs, hb, hbs, (Except.ok.inj h).symm⟩
  · rintro ⟨b, bs, hb, hbs, rfl⟩
    exact ⟨b, hb, bind_eq_ok.mpr ⟨bs, hbs, rfl⟩⟩

/-- A map that returns has returned for every element. -/
theorem mapM_eq_ok_iff {l : List α} {l' : List β} :
    l.mapM f = .ok l' ↔ List.Forall₂ (fun a b => f a = .ok b) l l' := by
  induction l generalizing l' with
  | nil =>
    rw [List.forall₂_nil_left_iff]
    exact ⟨fun h => (Except.ok.inj h).symm, fun h => congrArg Except.ok h.symm⟩
  | cons a l ih =>
    rw [mapM_cons_eq_ok, List.forall₂_cons_left_iff]
    constructor
    · rintro ⟨b, bs, hb, hbs, rfl⟩
      exact ⟨b, bs, hb, ih.mp hbs, rfl⟩
    · rintro ⟨b, bs, hb, hbs, rfl⟩
      exact ⟨b, bs, hb, ih.mpr hbs, rfl⟩

theorem exists_mapM_iff {l : List α} :
    (∃ l', l.mapM f = .ok l') ↔ ∀ a ∈ l, ∃ b, f a = .ok b := by
  induction l with
  | nil => exact ⟨fun _ => List.forall_mem_nil _, fun _ => ⟨[], rfl⟩⟩
  | cons a l ih =>
    rw [List.forall_mem_cons, ← ih]
    constructor
    · rintro ⟨l', h⟩
      obtain ⟨b, bs, hb, hbs, -⟩ := mapM_cons_eq_ok.mp h
      exact ⟨⟨b, hb⟩, ⟨bs, hbs⟩⟩
    · rintro ⟨⟨b, hb⟩, ⟨bs, hbs⟩⟩
      exact ⟨b :: bs, mapM_cons_eq_ok.mpr ⟨b, bs, hb, hbs, rfl⟩⟩

theorem ok_of_mem_mapM {l : List α} {l' : List β} (h : l.mapM f = .ok l') {a : α} (ha : a ∈ l) :
    ∃ b, f a = .ok b := by
  induction l generalizing l' with
  | nil => cases ha
  | cons c l ih =>
    obtain ⟨b, bs, hb, hbs, rfl⟩ := mapM_cons_eq_ok.mp h
    rcases List.mem_cons.mp ha with rfl | ha
    · exact ⟨b, hb⟩
    · exact ih hbs ha

theorem exists_of_mem_mapM {l : List α} {l' : List β} (h : l.mapM f = .ok l') {b : β}
    (hb : b ∈ l') : ∃ a ∈ l, f a = .ok b := by
  induction l generalizing l' with
  | nil =>
    obtain rfl := Except.ok.inj h
    cases hb
  | cons a l ih =>
    obtain ⟨c, cs, hc, hcs, rfl⟩ := mapM_cons_eq_ok.mp h
    rcases List.mem_cons.mp hb with rfl | hb
    · exact ⟨a, List.mem_cons_self, hc⟩
    · obtain ⟨a', ha', he⟩ := ih hcs hb
      exact ⟨a', List.mem_cons_of_mem a ha', he⟩

end Map

/-- A map that returns every element as it is, where it returns. -/
theorem mapM_eq_ok_self {ε : Type u} {α : Type v} {f : α → Except ε α} {l l' : List α}
    (h : l.mapM f = .ok l') (hf : ∀ a ∈ l, ∀ b, f a = .ok b → b = a) : l' = l := by
  induction l generalizing l' with
  | nil => exact (Except.ok.inj h).symm
  | cons a l ih =>
    obtain ⟨b, bs, hb, hbs, rfl⟩ := mapM_cons_eq_ok.mp h
    rw [hf a List.mem_cons_self b hb, ih hbs fun c hc => hf c (List.mem_cons_of_mem a hc)]

section Stateful

variable {ε σ α β : Type} {x : ExceptT ε (StateM σ) α} {f : α → ExceptT ε (StateM σ) β}
  {s s' : σ}

theorem run_bind_ok {a : α} (h : x s = (.ok a, s')) : (x >>= f) s = f a s' := by
  show (StateT.bind x (ExceptT.bindCont f)) s = f a s'
  simp only [StateT.bind, h]
  rfl

theorem run_bind_error {e : ε} (h : x s = (.error e, s')) : (x >>= f) s = (.error e, s') := by
  show (StateT.bind x (ExceptT.bindCont f)) s = _
  simp only [StateT.bind, h]
  rfl

theorem run_liftExcept (r : Except ε α) :
    (liftExcept r : ExceptT ε (StateM σ) α) s = (r, s) := by
  cases r <;> rfl

end Stateful

end Results
