import Mathlib.Data.List.Basic

/-!
# Peeling

Values that a partial function takes layers off, one at a time.
-/

namespace Peeling

variable {α β : Type*} {peel peel' : α → Option (β × α)}

/-- The layers that come off on the way from one value to another. -/
inductive Chain (peel : α → Option (β × α)) : α → List β → α → Prop
  | nil (a : α) : Chain peel a [] a
  | cons {a b c d} {layers : List β} (h : peel a = some (b, c)) (rest : Chain peel c layers d) :
      Chain peel a (b :: layers) d

theorem Chain.single {a c : α} {b : β} (h : peel a = some (b, c)) : Chain peel a [b] c :=
  .cons h (.nil c)

theorem Chain.append {a c d : α} {bs bs' : List β} (h : Chain peel a bs c)
    (h' : Chain peel c bs' d) : Chain peel a (bs ++ bs') d := by
  induction h with
  | nil => exact h'
  | cons hpeel _ ih => exact .cons hpeel (ih h')

theorem Chain.mono (himp : ∀ a b c, peel a = some (b, c) → peel' a = some (b, c)) {a c : α}
    {bs : List β} (h : Chain peel a bs c) : Chain peel' a bs c := by
  induction h with
  | nil => exact .nil _
  | cons hpeel _ ih => exact .cons (himp _ _ _ hpeel) ih

/-- No chain is longer than one to a value without layers. -/
theorem Chain.length_le {a c d : α} {bs bs' : List β} (h : Chain peel a bs c)
    (hbare : peel c = none) (h' : Chain peel a bs' d) : bs'.length ≤ bs.length := by
  induction h generalizing bs' with
  | nil =>
    cases h' with
    | nil => exact Nat.le_refl _
    | cons hpeel _ =>
      rw [hbare] at hpeel
      cases hpeel
  | cons hpeel _ ih =>
    cases h' with
    | nil => exact Nat.zero_le _
    | cons hpeel' rest' =>
      obtain ⟨rfl, rfl⟩ := Prod.mk.inj (Option.some.inj (hpeel.symm.trans hpeel'))
      exact Nat.succ_le_succ (ih hbare rest')

end Peeling
