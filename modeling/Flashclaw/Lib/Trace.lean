import Flashclaw.Lib.Results

/-!
# Computations that log what they call

A computation calls operations on a state it knows nothing of, and every call
is logged with its result.  `Spec` says what a computation logs and returns,
whatever the operations do.
-/

structure World (σ event : Type) where
  state : σ
  log : List event

abbrev Traced (err σ event α : Type) := ExceptT err (StateM (World σ event)) α

namespace Traced

open Results

variable {err σ event α β : Type}

/-- A call of an operation on the state, logged with its result. -/
def call (entry : Except err α → event) (operation : ExceptT err (StateM σ) α) :
    Traced err σ event α :=
  fun w => ((operation w.state).1, ⟨(operation w.state).2, w.log ++ [entry (operation w.state).1]⟩)

/-- The result of a computation, also where it throws. -/
def attempt (x : Traced err σ event α) : Traced err σ event (Except err α) :=
  fun w => (.ok (x w).1, (x w).2)

/-- Whatever the world, the computation logs events and has a result that `p` relates. -/
def Spec (x : Traced err σ event α) (p : List event → Except err α → Prop) : Prop :=
  ∀ w, ∃ events, (x w).2.log = w.log ++ events ∧ p events (x w).1

theorem Spec.mono {x : Traced err σ event α} {p q : List event → Except err α → Prop}
    (h : Spec x p) (himp : ∀ events r, p events r → q events r) : Spec x q := by
  intro w
  obtain ⟨events, hlog, hp⟩ := h w
  exact ⟨events, hlog, himp events _ hp⟩

theorem Spec.pure {a : α} {p : List event → Except err α → Prop} (h : p [] (.ok a)) :
    Spec (Pure.pure a : Traced err σ event α) p :=
  fun _ => ⟨[], (List.append_nil _).symm, h⟩

theorem Spec.throw {e : err} {p : List event → Except err α → Prop} (h : p [] (.error e)) :
    Spec (throw e : Traced err σ event α) p :=
  fun _ => ⟨[], (List.append_nil _).symm, h⟩

theorem Spec.lift {r : Except err α} {p : List event → Except err α → Prop} (h : p [] r) :
    Spec (liftExcept r : Traced err σ event α) p := by
  intro w
  rw [run_liftExcept]
  exact ⟨[], (List.append_nil _).symm, h⟩

theorem Spec.call {entry : Except err α → event} {operation : ExceptT err (StateM σ) α}
    {p : List event → Except err α → Prop} (h : ∀ r, p [entry r] r) :
    Spec (call entry operation) p :=
  fun _ => ⟨_, rfl, h _⟩

theorem Spec.attempt {x : Traced err σ event α} {p : List event → Except err (Except err α) → Prop}
    (h : Spec x fun events r => p events (.ok r)) : Spec (attempt x) p :=
  h

/-- What is logged is the same for every relation. -/
theorem Spec.and {x : Traced err σ event α} {p q : List event → Except err α → Prop}
    (hp : Spec x p) (hq : Spec x q) : Spec x fun events r => p events r ∧ q events r := by
  intro w
  obtain ⟨events, hlog, h⟩ := hp w
  obtain ⟨events', hlog', h'⟩ := hq w
  obtain rfl := List.append_cancel_left (hlog.symm.trans hlog')
  exact ⟨events, hlog, h, h'⟩

/-- What is logged before and after a bind is logged in this order. -/
theorem Spec.bind {x : Traced err σ event α} {f : α → Traced err σ event β}
    {p : List event → Except err α → Prop} {q : List event → Except err β → Prop} (hx : Spec x p)
    (hf : ∀ events a, p events (.ok a) → Spec (f a) fun events' r => q (events ++ events') r)
    (herror : ∀ events e, p events (.error e) → q events (.error e)) : Spec (x >>= f) q := by
  intro w
  obtain ⟨events, hlog, hp⟩ := hx w
  cases hrun : x w with
  | mk r w' =>
    rw [hrun] at hlog hp
    cases r with
    | error e =>
      rw [run_bind_error hrun]
      exact ⟨events, hlog, herror events e hp⟩
    | ok a =>
      rw [run_bind_ok hrun]
      obtain ⟨events', hlog', hq⟩ := hf events a hp w'
      refine ⟨events ++ events', ?_, hq⟩
      rw [hlog', hlog, List.append_assoc]

/-- Every event that the computation logs satisfies `p`. -/
def Emits (x : Traced err σ event α) (p : event → Prop) : Prop :=
  Spec x fun events _ => ∀ e ∈ events, p e

section Emits

variable {p : event → Prop}

theorem Emits.pure (a : α) : Emits (Pure.pure a : Traced err σ event α) p :=
  Spec.pure (List.forall_mem_nil p)

theorem Emits.throw (e : err) : Emits (throw e : Traced err σ event α) p :=
  Spec.throw (List.forall_mem_nil p)

theorem Emits.lift (r : Except err α) : Emits (liftExcept r : Traced err σ event α) p :=
  Spec.lift (List.forall_mem_nil p)

theorem Emits.call {entry : Except err α → event} {operation : ExceptT err (StateM σ) α}
    (h : ∀ r, p (entry r)) : Emits (Traced.call entry operation) p :=
  Spec.call fun r => by simpa using h r

theorem Emits.attempt {x : Traced err σ event α} (h : Emits x p) : Emits (Traced.attempt x) p :=
  Spec.attempt h

theorem Emits.bind {x : Traced err σ event α} {f : α → Traced err σ event β} (hx : Emits x p)
    (hf : ∀ a, Emits (f a) p) : Emits (x >>= f) p := by
  apply Spec.bind hx
  · intro events a h
    exact (hf a).mono fun events' _ h' => List.forall_mem_append.mpr ⟨h, h'⟩
  · intro events e h
    exact h

theorem Emits.lift_ok {a : α} {f : α → Traced err σ event β} (h : Emits (f a) p) :
    Emits (liftExcept (.ok a : Except err α) >>= f) p := by
  intro w
  rw [run_bind_ok (run_liftExcept _)]
  exact h w

end Emits

/-- From `w` on, the computation ends with a log that starts like this. -/
def LogStarts (x : Traced err σ event α) (w : World σ event)
    (log : List event) : Prop :=
  log <+: (x w).2.log

section LogStarts

variable {x : Traced err σ event α} {f : α → Traced err σ event β}
  {w : World σ event} {log : List event}

theorem LogStarts.of_spec (h : Spec x fun _ _ => True) : LogStarts x w w.log := by
  obtain ⟨events, hlog, -⟩ := h w
  exact ⟨events, hlog.symm⟩

theorem LogStarts.bind (h : LogStarts x w log) (hf : ∀ a, Spec (f a) fun _ _ => True) :
    LogStarts (x >>= f) w log := by
  unfold LogStarts at h ⊢
  cases hrun : x w with
  | mk r w' =>
    rw [hrun] at h
    cases r with
    | error e =>
      rw [run_bind_error hrun]
      exact h
    | ok a =>
      rw [run_bind_ok hrun]
      exact h.trans (LogStarts.of_spec (hf a))

end LogStarts

end Traced
