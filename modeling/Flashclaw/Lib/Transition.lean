import Mathlib.Data.List.Basic

/-!
# Labelled transition systems

Machines whose steps are chosen by labels and may be refused.  `Run` lists the
labels of a run in order and can be restricted to steps that satisfy a side
condition; `Reachable` forgets both.
-/

structure TransitionSystem (σ α : Type*) where
  start : σ
  step : σ → α → Option σ

namespace TransitionSystem

variable {σ α : Type*} (T : TransitionSystem σ α)

/-- A run from the start whose every step satisfies `ok`. -/
inductive Run (ok : σ → α → Prop) : List α → σ → Prop
  | start : Run ok [] T.start
  | step {ls s l s'} (run : Run ok ls s) (hok : ok s l) (hs : T.step s l = some s') :
      Run ok (ls ++ [l]) s'

def Reachable (s : σ) : Prop := ∃ ls, T.Run (fun _ _ => True) ls s

variable {T}

theorem Run.mono {ok ok' : σ → α → Prop} (h : ∀ s l, ok s l → ok' s l) {ls : List α} {s : σ}
    (run : T.Run ok ls s) : T.Run ok' ls s := by
  induction run with
  | start => exact .start
  | step _ hok hs ih => exact ih.step (h _ _ hok) hs

theorem Run.reachable {ok : σ → α → Prop} {ls : List α} {s : σ} (run : T.Run ok ls s) :
    T.Reachable s :=
  ⟨ls, run.mono fun _ _ _ => trivial⟩

/-- A property of the start that every admitted step preserves holds along every run. -/
theorem Run.invariant {ok : σ → α → Prop} {P : σ → Prop} (h0 : P T.start)
    (hs : ∀ s l s', P s → ok s l → T.step s l = some s' → P s') {ls : List α} {s : σ}
    (run : T.Run ok ls s) : P s := by
  induction run with
  | start => exact h0
  | step _ hok hstep ih => exact hs _ _ _ ih hok hstep

theorem Reachable.invariant {P : σ → Prop} (h0 : P T.start)
    (hs : ∀ s l s', P s → T.step s l = some s' → P s') {s : σ} (h : T.Reachable s) : P s := by
  obtain ⟨ls, run⟩ := h
  exact run.invariant h0 fun s l s' hp _ => hs s l s' hp

theorem Reachable.start : T.Reachable T.start := ⟨[], .start⟩

theorem Reachable.step {s s' : σ} {l : α} (h : T.Reachable s) (hs : T.step s l = some s') :
    T.Reachable s' := by
  obtain ⟨ls, run⟩ := h
  exact ⟨ls ++ [l], run.step trivial hs⟩

variable (T) in
/-- Running a whole label list, refused as soon as one label is. -/
def exec : σ → List α → Option σ
  | s, [] => some s
  | s, l :: ls => (T.step s l).bind fun s' => exec s' ls

theorem Reachable.exec {s s' : σ} {ls : List α} (h : T.Reachable s) (he : T.exec s ls = some s') :
    T.Reachable s' := by
  induction ls generalizing s with
  | nil => cases he; exact h
  | cons l ls ih =>
    obtain ⟨t, ht, he'⟩ := Option.bind_eq_some_iff.mp he
    exact ih (h.step ht) he'

theorem exists_reachable_of_exec {p : σ → Bool} {ls : List α}
    (h : (T.exec T.start ls).any p = true) : ∃ s, T.Reachable s ∧ p s = true := by
  obtain ⟨s, hs, hp⟩ := (Option.any_eq_true p _).mp h
  exact ⟨s, Reachable.start.exec hs, hp⟩

theorem Run.append_exec {ls ls' : List α} {s s' : σ} (run : T.Run (fun _ _ => True) ls s)
    (h : T.exec s ls' = some s') : T.Run (fun _ _ => True) (ls ++ ls') s' := by
  induction ls' generalizing ls s with
  | nil =>
    obtain rfl := Option.some.inj h
    simpa using run
  | cons l ls' ih =>
    obtain ⟨t, ht, h⟩ := Option.bind_eq_some_iff.mp h
    rw [List.append_cons]
    exact ih (run.step trivial ht) h

theorem exists_run_of_exec (p : σ → Bool) (ls : List α) (h : (T.exec T.start ls).any p = true) :
    ∃ s, T.Run (fun _ _ => True) ls s ∧ p s = true := by
  obtain ⟨s, hs, hp⟩ := (Option.any_eq_true p _).mp h
  exact ⟨s, Run.start.append_exec hs, hp⟩

theorem Run.of_concat {ok : σ → α → Prop} {ls : List α} {l : α} {s' : σ}
    (run : T.Run ok (ls ++ [l]) s') : ∃ s, T.Run ok ls s ∧ ok s l ∧ T.step s l = some s' := by
  generalize hls : ls ++ [l] = ls' at run
  cases run with
  | start => simp at hls
  | step run hok hs =>
    obtain ⟨rfl, rfl⟩ := List.append_inj' hls rfl |>.imp id List.singleton_inj.mp
    exact ⟨_, run, hok, hs⟩

/-- A run goes through a state for each of its prefixes. -/
theorem Run.of_append {ok : σ → α → Prop} {ls ls' : List α} {s' : σ}
    (run : T.Run ok (ls ++ ls') s') : ∃ s, T.Run ok ls s ∧ T.exec s ls' = some s' := by
  induction ls' generalizing ls with
  | nil => exact ⟨s', by simpa using run, rfl⟩
  | cons l ls' ih =>
    rw [List.append_cons] at run
    obtain ⟨s₁, run₁, hexec⟩ := ih run
    obtain ⟨s, run, -, hs⟩ := run₁.of_concat
    exact ⟨s, run, Option.bind_eq_some_iff.mpr ⟨s₁, hs, hexec⟩⟩

theorem exec_concat (s : σ) (ls : List α) (l : α) :
    T.exec s (ls ++ [l]) = (T.exec s ls).bind fun s' => T.step s' l := by
  induction ls generalizing s with
  | nil => cases h : T.step s l <;> simp [exec, h]
  | cons l' ls ih =>
    simp only [List.cons_append, exec]
    cases h : T.step s l' with
    | none => rfl
    | some t => exact ih t

theorem Run.exec {ok : σ → α → Prop} {ls : List α} {s : σ} (run : T.Run ok ls s) :
    T.exec T.start ls = some s := by
  induction run with
  | start => rfl
  | step _ _ hs ih => rw [exec_concat, ih, Option.bind_some, hs]

variable (T) in
/-- `exec` that also refuses the steps failing a test. -/
def execOk (ok : σ → α → Bool) : σ → List α → Option σ
  | s, [] => some s
  | s, l :: ls => if ok s l then (T.step s l).bind fun s' => execOk ok s' ls else none

theorem execOk_concat {ok : σ → α → Bool} {s t s' : σ} (ls : List α) {l : α}
    (h : T.execOk ok s ls = some t) (hok : ok t l = true) (hs : T.step t l = some s') :
    T.execOk ok s (ls ++ [l]) = some s' := by
  induction ls generalizing s with
  | nil =>
    obtain rfl := Option.some.inj h
    show (if ok s l then (T.step s l).bind fun s' => T.execOk ok s' [] else none) = some s'
    rw [if_pos hok, hs]
    rfl
  | cons l' ls ih =>
    simp only [List.cons_append, execOk] at h ⊢
    split_ifs at h with hl
    obtain ⟨u, hu, h⟩ := Option.bind_eq_some_iff.mp h
    rw [if_pos hl, hu]
    exact ih h

theorem Run.append_execOk {ok : σ → α → Bool} {pre ls : List α} {s s' : σ}
    (run : T.Run (fun s l => ok s l = true) pre s) (h : T.execOk ok s ls = some s') :
    T.Run (fun s l => ok s l = true) (pre ++ ls) s' := by
  induction ls generalizing pre s with
  | nil => cases h; simpa using run
  | cons l ls ih =>
    simp only [execOk] at h
    split_ifs at h with hl
    obtain ⟨t, ht, h'⟩ := Option.bind_eq_some_iff.mp h
    simpa using ih (run.step hl ht) h'

theorem Run.of_execOk {ok : σ → α → Bool} {ls : List α} {s : σ}
    (h : T.execOk ok T.start ls = some s) : T.Run (fun s l => ok s l = true) ls s :=
  Run.append_execOk .start h

end TransitionSystem
