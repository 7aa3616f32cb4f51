import Mathlib.Data.List.Basic

/-!
# Consumers of a text that comes in chunks

A consumer takes a chunk and is either not done, or done with a remainder. If what it makes
of a text is what it makes of the text in two pieces, the cuts do not matter.
-/

namespace Chunks

variable {σ α : Type*}

inductive Outcome (σ α : Type*) where
  | incomplete (state : σ)
  | complete (suffix : List α)

def Outcome.map {τ : Type*} (f : σ → τ) : Outcome σ α → Outcome τ α
  | .incomplete state => .incomplete (f state)
  | .complete suffix => .complete suffix

/-- What follows goes to the consumer, or belongs to the remainder. -/
def Outcome.feed (consume : σ → List α → Outcome σ α) : Outcome σ α → List α → Outcome σ α
  | .incomplete state, chunk => consume state chunk
  | .complete suffix, chunk => .complete (suffix ++ chunk)

/-- The chunks one by one, until the consumer is done. -/
def feedAll (consume : σ → List α → Outcome σ α) : σ → List (List α) → Outcome σ α
  | state, [] => .incomplete state
  | state, chunk :: chunks =>
    match consume state chunk with
    | .incomplete state' => feedAll consume state' chunks
    | .complete suffix => .complete (suffix ++ chunks.flatten)

/-- The same outcome, with remainders that `view` does not tell apart. -/
def Agree (view : List α → List α) : Outcome σ α → Outcome σ α → Prop
  | .incomplete state, .incomplete state' => state = state'
  | .complete suffix, .complete suffix' => view suffix = view suffix'
  | _, _ => False

section Agree

variable {view : List α → List α} {o o' o'' : Outcome σ α}

theorem Agree.refl (o : Outcome σ α) : Agree view o o := by
  cases o <;> exact rfl

theorem Agree.symm (h : Agree view o o') : Agree view o' o := by
  cases o <;> cases o'
  · exact Eq.symm h
  · exact h
  · exact h
  · exact Eq.symm h

theorem Agree.trans (h : Agree view o o') (h' : Agree view o' o'') : Agree view o o'' := by
  cases o <;> cases o' <;> cases o''
  case incomplete.incomplete.incomplete => exact Eq.trans h h'
  case complete.complete.complete => exact Eq.trans h h'
  all_goals first | exact h.elim | exact h'.elim

end Agree

theorem Agree.map {τ : Type*} {view : List α → List α} {o o' : Outcome σ α} (f : σ → τ)
    (h : Agree view o o') : Agree view (o.map f) (o'.map f) := by
  cases o <;> cases o'
  · exact congrArg f h
  · exact h
  · exact h
  · exact h

theorem Outcome.feed_map {τ : Type*} {consume : σ → List α → Outcome σ α}
    {consume' : τ → List α → Outcome τ α} {f : σ → τ} {chunk : List α}
    (h : ∀ state, consume' (f state) chunk = (consume state chunk).map f) (o : Outcome σ α) :
    (o.map f).feed consume' chunk = (o.feed consume chunk).map f := by
  cases o with
  | incomplete state => exact h state
  | complete suffix => rfl

theorem Outcome.of_map {τ : Type*} {f : σ → τ} {o : Outcome σ α} {state : τ}
    (h : o.map f = .incomplete state) : ∃ inner, o = .incomplete inner ∧ f inner = state := by
  cases o with
  | incomplete inner => exact ⟨inner, rfl, Outcome.incomplete.inj h⟩
  | complete suffix => cases h

/-- A text at once is the text in two pieces, from every state that fits. -/
structure Splits (view : List α → List α) (Fits : σ → Prop)
    (consume : σ → List α → Outcome σ α) : Prop where
  agree : ∀ state, Fits state → ∀ a b,
    Agree view (consume state (a ++ b)) ((consume state a).feed consume b)
  fits : ∀ state, Fits state → ∀ a state', consume state a = .incomplete state' → Fits state'

section Splits

variable {view : List α → List α} {Fits : σ → Prop} {consume : σ → List α → Outcome σ α}

theorem Splits.agree_feedAll (h : Splits view Fits consume) {state : σ} (hstate : Fits state)
    {chunks : List (List α)} (hne : chunks ≠ []) :
    Agree view (consume state chunks.flatten) (feedAll consume state chunks) := by
  induction chunks generalizing state with
  | nil => exact absurd rfl hne
  | cons chunk chunks ih =>
    rw [feedAll]
    cases chunks with
    | nil =>
      rw [List.flatten_singleton]
      cases consume state chunk with
      | incomplete state' => exact .refl _
      | complete suffix =>
        show Agree view _ (.complete (suffix ++ []))
        rw [List.append_nil]
        exact .refl _
    | cons next chunks =>
      have hsplit := h.agree state hstate chunk (next :: chunks).flatten
      rw [← List.flatten_cons] at hsplit
      cases hchunk : consume state chunk with
      | incomplete state' =>
        rw [hchunk] at hsplit
        exact hsplit.trans (ih (h.fits state hstate chunk state' hchunk) (List.cons_ne_nil _ _))
      | complete suffix =>
        rw [hchunk] at hsplit
        exact hsplit

/-- A consumer inside of another one, which does nothing else. -/
theorem Splits.agree_map {τ : Type*} {consume' : τ → List α → Outcome τ α} {f : σ → τ}
    (h : Splits view Fits consume)
    (hinside : ∀ state chunk, consume' (f state) chunk = (consume state chunk).map f)
    {state : σ} (hstate : Fits state) (a b : List α) :
    Agree view ((consume state (a ++ b)).map f)
      (((consume state a).map f).feed consume' b) := by
  rw [Outcome.feed_map (fun state => hinside state b)]
  exact (h.agree state hstate a b).map f

/-- Two cuts of one text lead to the same outcome. -/
theorem Splits.agree_of_flatten_eq (h : Splits view Fits consume) {state : σ}
    (hstate : Fits state) {chunks chunks' : List (List α)} (hne : chunks ≠ [])
    (hne' : chunks' ≠ []) (hsame : chunks.flatten = chunks'.flatten) :
    Agree view (feedAll consume state chunks) (feedAll consume state chunks') := by
  apply (h.agree_feedAll hstate hne).symm.trans
  rw [hsame]
  exact h.agree_feedAll hstate hne'

end Splits

end Chunks
