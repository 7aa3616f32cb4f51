import Flashclaw.Lib.Ranges
import Mathlib.Data.List.Perm.Basic

/-!
# Nested marks

Stretches of a line of positions, each with what is written in front of it and behind it.  A
writer goes from position to position with a stack of the stretches it is in, and leaves a
stretch only when it is on top.
-/

namespace Nesting

variable {α : Type*}

structure Mark (α : Type*) extends Ranges.Range where
  front : List α
  back : List α

/-- No mark of the list crosses another one. -/
def Laminar (marks : List (Mark α)) : Prop :=
  ∀ a ∈ marks, ∀ b ∈ marks, ¬a.toRange.Crosses b.toRange

section Written

variable {leaf : ℕ → ℕ → List α} {a b c : ℕ} {marks more stack : List (Mark α)}
  {out rest : List α}

/-- What stands between two positions: leaves, and marks around what stands inside them.  The
marks are in the order in which they are opened. -/
inductive Nested (leaf : ℕ → ℕ → List α) : ℕ → ℕ → List (Mark α) → List α → Prop where
  | nil (a : ℕ) : Nested leaf a a [] []
  | leaf {a b c : ℕ} {marks : List (Mark α)} {out : List α} (hlt : a < b)
    (h : Nested leaf b c marks out) : Nested leaf a c marks (leaf a b ++ out)
  | mark (mark : Mark α) {c : ℕ} {inner marks : List (Mark α)} {body out : List α}
    (hinner : Nested leaf mark.start mark.stop inner body) (h : Nested leaf mark.stop c marks out) :
    Nested leaf mark.start c (mark :: inner ++ marks) (mark.front ++ body ++ mark.back ++ out)

/-- What is written up to a position in the midst of marks: those on the stack are open, the
innermost one first. -/
inductive Pending (leaf : ℕ → ℕ → List α) (a : ℕ) :
    ℕ → List (Mark α) → List (Mark α) → List α → Prop where
  | done {b : ℕ} {marks : List (Mark α)} {out : List α} (h : Nested leaf a b marks out) :
    Pending leaf a b [] marks out
  | under (mark : Mark α) {b : ℕ} {stack marks inner : List (Mark α)} {out body : List α}
    (h : Pending leaf a mark.start stack marks out) (hinner : Nested leaf mark.start b inner body) :
    Pending leaf a b (mark :: stack) (marks ++ mark :: inner) (out ++ mark.front ++ body)

theorem Nested.append (h : Nested leaf a b marks out) (h' : Nested leaf b c more rest) :
    Nested leaf a c (marks ++ more) (out ++ rest) := by
  induction h with
  | nil => exact h'
  | leaf hlt _ ih =>
    rw [List.append_assoc]
    exact .leaf hlt (ih h')
  | mark mark hinner _ _ ih =>
    rw [List.append_assoc, List.append_assoc (_ ++ _ ++ _)]
    exact .mark mark hinner (ih h')

theorem Nested.le (h : Nested leaf a b marks out) : a ≤ b := by
  induction h with
  | nil => exact Nat.le_refl _
  | leaf hlt _ ih => exact hlt.le.trans ih
  | mark _ _ _ ihinner ih => exact ihinner.trans ih

theorem Nested.bounds (h : Nested leaf a b marks out) :
    ∀ mark ∈ marks, a ≤ mark.start ∧ mark.stop ≤ b := by
  induction h with
  | nil => exact fun _ hmark => (List.not_mem_nil hmark).elim
  | leaf hlt _ ih => exact fun mark hmark => ⟨hlt.le.trans (ih mark hmark).1, (ih mark hmark).2⟩
  | mark mark hinner h ihinner ih =>
    intro other hother
    rcases List.mem_append.mp hother with hother | hother
    · rcases List.mem_cons.mp hother with rfl | hother
      · exact ⟨Nat.le_refl _, h.le⟩
      · exact ⟨(ihinner other hother).1, (ihinner other hother).2.trans h.le⟩
    · exact ⟨hinner.le.trans (ih other hother).1, (ih other hother).2⟩

/-- Marks that are written one inside or behind the other do not cross. -/
theorem Nested.laminar (h : Nested leaf a b marks out) : Laminar marks := by
  induction h with
  | nil => exact fun _ hmark => (List.not_mem_nil hmark).elim
  | leaf _ _ ih => exact ih
  | mark mark hinner h ihinner ih =>
    -- what is in the mark is inside its positions, and what is behind it is outside
    have hin := List.forall_mem_cons.mpr ⟨⟨Nat.le_refl mark.start, Nat.le_refl mark.stop⟩,
      hinner.bounds⟩
    have hbehind := h.bounds
    intro x hx y hy hcrosses
    obtain ⟨hstart, hinside, hstop⟩ := hcrosses
    rcases List.mem_append.mp hx with hx | hx <;> rcases List.mem_append.mp hy with hy | hy
    · rcases List.mem_cons.mp hx with rfl | hx' <;> rcases List.mem_cons.mp hy with rfl | hy'
      · omega
      · exact absurd (hin y hy).2 (by omega)
      · exact absurd (hin x hx).1 (by omega)
      · exact ihinner x hx' y hy' ⟨hstart, hinside, hstop⟩
    · have := (hin x hx).2
      have := (hbehind y hy).1
      omega
    · have := (hbehind x hx).1
      have := (hin y hy).2
      omega
    · exact ih x hx y hy ⟨hstart, hinside, hstop⟩

theorem Pending.append (h : Pending leaf a b stack marks out) (h' : Nested leaf b c more rest) :
    Pending leaf a c stack (marks ++ more) (out ++ rest) := by
  cases h with
  | done h => exact .done (h.append h')
  | under mark h hinner =>
    rw [List.append_assoc, List.append_assoc (_ ++ _)]
    exact .under mark h (hinner.append h')

/-- Nothing is written at one position without marks. -/
theorem Nested.eq_nil (h : Nested leaf a b marks out) (hmarks : marks = []) (hle : b ≤ a) :
    out = [] := by
  cases h with
  | nil => rfl
  | leaf hlt h => exact absurd h.le (by omega)
  | mark => exact absurd hmarks (List.cons_ne_nil _ _)

theorem Pending.eq_nil (h : Pending leaf a b stack marks out) (hmarks : marks = []) (hle : b ≤ a) :
    out = [] := by
  cases h with
  | done h => exact h.eq_nil hmarks hle
  | under => exact absurd hmarks (List.append_ne_nil_of_right_ne_nil _ (List.cons_ne_nil _ _))

/-- Text is written. -/
theorem Pending.text (h : Pending leaf a b stack marks out) (hlt : b < c) :
    Pending leaf a c stack marks (out ++ leaf b c) := by
  have h' := h.append (.leaf hlt (.nil c))
  rw [List.append_nil, List.append_nil] at h'
  exact h'

/-- A mark is opened. -/
theorem Pending.push {mark : Mark α} (h : Pending leaf a mark.start stack marks out) :
    Pending leaf a mark.start (mark :: stack) (marks ++ [mark]) (out ++ mark.front) := by
  have h' := Pending.under mark h (.nil _)
  rw [List.append_nil] at h'
  exact h'

/-- The innermost mark is closed. -/
theorem Pending.pop {mark : Mark α} (h : Pending leaf a mark.stop (mark :: stack) marks out) :
    Pending leaf a mark.stop stack marks (out ++ mark.back) := by
  cases h with
  | under _ h hinner =>
    have h' := h.append (.mark mark hinner (.nil mark.stop))
    rw [List.append_nil, List.append_nil, ← List.append_assoc, ← List.append_assoc] at h'
    exact h'

end Written

/-- The marks that are open behind some positions, for the marks that are opened at each. -/
def leftOpen (opening : ℕ → List (Mark α)) : List ℕ → List (Mark α) → List (Mark α)
  | [], stack => stack
  | pos :: points, stack =>
    leftOpen opening points
      ((opening pos).reverse ++ stack.dropWhile fun mark => mark.stop = pos)

/-- What is known of a stack in front of some positions. -/
structure Stacked (marks : List (Mark α)) (points : List ℕ) (stack : List (Mark α)) : Prop where
  of : ∀ mark ∈ stack, mark ∈ marks
  stops : ∀ mark ∈ stack, mark.stop ∈ points
  starts : ∀ mark ∈ stack, ∀ pos ∈ points, mark.start < pos
  inner : stack.Pairwise fun inner outer => inner.stop ≤ outer.stop

/-- What is opened at a position: marks that start there and end at a later one, the outermost
first. -/
structure Opens (marks : List (Mark α)) (points : List ℕ) (pos : ℕ) (opened : List (Mark α)) :
    Prop where
  of : ∀ mark ∈ opened, mark ∈ marks
  start : ∀ mark ∈ opened, mark.start = pos
  stops : ∀ mark ∈ opened, mark.stop ∈ points
  outer : opened.Pairwise fun outer inner => inner.stop ≤ outer.stop

section LeftOpen

variable {marks : List (Mark α)} {points : List ℕ} {stack : List (Mark α)} {pos : ℕ}

/-- The marks that end at a position are on top. -/
theorem Stacked.closed (h : Stacked marks (pos :: points) stack)
    (hpoints : (pos :: points).Pairwise (· < ·)) :
    ∀ mark ∈ stack.dropWhile fun mark => mark.stop = pos, mark.stop ∈ points ∧ pos < mark.stop := by
  have hle : ∀ mark ∈ stack, pos ≤ mark.stop := by
    intro mark hmark
    rcases List.mem_cons.mp (h.stops mark hmark) with heq | hmem
    · exact heq.ge
    · exact ((List.pairwise_cons.mp hpoints).1 mark.stop hmem).le
  have hinner := h.inner
  have hstops := h.stops
  clear h
  induction stack with
  | nil => exact fun _ hmark => (List.not_mem_nil hmark).elim
  | cons top stack ih =>
    obtain ⟨htop, hinner⟩ := List.pairwise_cons.mp hinner
    obtain ⟨hlestop, hle⟩ := List.forall_mem_cons.mp hle
    by_cases hpos : top.stop = pos
    · rw [List.dropWhile_cons, if_pos (decide_eq_true hpos)]
      exact ih hle hinner (List.forall_mem_cons.mp hstops).2
    · rw [List.dropWhile_cons, if_neg (by simpa using hpos)]
      intro mark hmark
      have hlt : pos < mark.stop := by
        rcases List.mem_cons.mp hmark with rfl | hmark
        · omega
        · have := htop mark hmark
          omega
      exact ⟨(List.mem_cons.mp (hstops mark hmark)).resolve_left hlt.ne', hlt⟩

theorem Stacked.step (h : Stacked marks (pos :: points) stack)
    (hpoints : (pos :: points).Pairwise (· < ·)) (hlaminar : Laminar marks)
    {opened : List (Mark α)} (hopened : Opens marks points pos opened) :
    Stacked marks points (opened.reverse ++ stack.dropWhile fun mark => mark.stop = pos) := by
  have hsub : ∀ {mark}, mark ∈ stack.dropWhile (fun mark => mark.stop = pos) → mark ∈ stack :=
    fun hmark => (List.dropWhile_suffix _).subset hmark
  have hclosed := h.closed hpoints
  have hlt := (List.pairwise_cons.mp hpoints).1
  constructor
  · intro mark hmark
    rcases List.mem_append.mp hmark with hmark | hmark
    · exact hopened.of mark (List.mem_reverse.mp hmark)
    · exact h.of mark (hsub hmark)
  · intro mark hmark
    rcases List.mem_append.mp hmark with hmark | hmark
    · exact hopened.stops mark (List.mem_reverse.mp hmark)
    · exact (hclosed mark hmark).1
  · intro mark hmark next hnext
    rcases List.mem_append.mp hmark with hmark | hmark
    · rw [hopened.start mark (List.mem_reverse.mp hmark)]
      exact hlt next hnext
    · exact h.starts mark (hsub hmark) next (List.mem_cons_of_mem pos hnext)
  · rw [List.pairwise_append]
    refine ⟨List.pairwise_reverse.mpr hopened.outer, h.inner.sublist (List.dropWhile_suffix _).sublist,
      ?_⟩
    -- a mark that is opened inside another one ends inside of it
    intro inner hinner outer houter
    have hinner := List.mem_reverse.mp hinner
    have hstart := hopened.start inner hinner
    have hcrosses := hlaminar outer (h.of outer (hsub houter)) inner (hopened.of inner hinner)
    by_contra hstop
    apply hcrosses
    rw [Ranges.Range.Crosses, hstart]
    exact ⟨h.starts outer (hsub houter) pos List.mem_cons_self, (hclosed outer houter).2, by omega⟩

/-- Marks that do not cross are all closed. -/
theorem Stacked.leftOpen_eq_nil {opening : ℕ → List (Mark α)} (h : Stacked marks points stack)
    (hpoints : points.Pairwise (· < ·)) (hlaminar : Laminar marks)
    (hopening : ∀ pos ∈ points, Opens marks (points.filter (pos < ·)) pos (opening pos)) :
    leftOpen opening points stack = [] := by
  induction points generalizing stack with
  | nil =>
    rw [leftOpen, List.eq_nil_iff_forall_not_mem]
    exact fun mark hmark => List.not_mem_nil (h.stops mark hmark)
  | cons pos points ih =>
    obtain ⟨hlt, hrest⟩ := List.pairwise_cons.mp hpoints
    have hpos : (pos :: points).filter (pos < ·) = points := by
      rw [List.filter_cons_of_neg (by simp)]
      exact List.filter_eq_self.mpr fun next hnext => decide_eq_true (hlt next hnext)
    rw [leftOpen]
    apply ih
    · apply h.step hpoints hlaminar
      have hopens := hopening pos List.mem_cons_self
      rwa [hpos] at hopens
    · exact hrest
    · intro next hnext
      have hopens := hopening next (List.mem_cons_of_mem pos hnext)
      rwa [List.filter_cons_of_neg (by simpa using (hlt next hnext).le)] at hopens

end LeftOpen

/-- Elements that are taken by a key, one key after the other. -/
theorem flatMap_filter_perm {β : Type*} (key : β → ℕ) (l : List β) {points : List ℕ}
    (hpoints : points.Nodup) (hmem : ∀ x ∈ l, key x ∈ points) :
    (points.flatMap fun pos => l.filter fun x => key x = pos).Perm l := by
  induction points generalizing l with
  | nil =>
    have hnil : l = [] := List.eq_nil_iff_forall_not_mem.mpr fun x hx => List.not_mem_nil (hmem x hx)
    rw [hnil]
    exact .nil
  | cons pos points ih =>
    obtain ⟨hpos, hpoints⟩ := List.nodup_cons.mp hpoints
    have hrest := ih (l.filter fun x => !decide (key x = pos)) hpoints (by
      intro x hx
      obtain ⟨hx, hne⟩ := List.mem_filter.mp hx
      exact (List.mem_cons.mp (hmem x hx)).resolve_left (by simpa using hne))
    have hsame : (points.flatMap fun next => (l.filter fun x => !decide (key x = pos)).filter
        fun x => key x = next) = points.flatMap fun next => l.filter fun x => key x = next := by
      apply List.flatMap_congr
      intro next hnext
      rw [List.filter_filter]
      apply List.filter_congr
      intro x _
      by_cases hx : key x = next
      · have hne : next ≠ pos := fun heq => hpos (heq ▸ hnext)
        simp [hx, hne]
      · simp [hx]
    rw [hsame] at hrest
    rw [List.flatMap_cons]
    exact (hrest.append_left _).trans (List.filter_append_perm _ l)

end Nesting
