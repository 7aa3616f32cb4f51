import Mathlib.Data.List.Induction

/-!
# Provenance of rights

A machine driven by requests, and one entry of its state that may hold a
right.  If no request but a granting one gives the entry more than it held
before, then what it holds goes back to a granting request, with the entry
there ever since.
-/

namespace Provenance

variable {σ κ ν : Type*}

/-- The state after a list of requests. -/
def run (step : σ → κ → σ) (start : σ) (requests : List κ) : σ := requests.foldl step start

theorem run_concat (step : σ → κ → σ) (start : σ) (requests : List κ) (request : κ) :
    run step start (requests ++ [request]) = step (run step start requests) request := by
  simp [run]

theorem run_invariant {step : σ → κ → σ} {start : σ} {P : σ → Prop} (h0 : P start)
    (hs : ∀ s request, P s → P (step s request)) (requests : List κ) :
    P (run step start requests) := by
  induction requests using List.reverseRecOn with
  | nil => exact h0
  | append_singleton requests request ih =>
    rw [run_concat]
    exact hs _ _ ih

/-- No right without a grant: `le u v` says that `v` holds no more than `u`. -/
structure Confined (step : σ → κ → σ) (start : σ) (view : σ → Option ν) (held : ν → Prop)
    (grants : σ → κ → Prop) (le : ν → ν → Prop) : Prop where
  trans : ∀ u v w, le u v → le v w → le u w
  fresh : ∀ v, view start = some v → ¬ held v
  confined : ∀ requests request v, view (step (run step start requests) request) = some v → held v →
    grants (run step start requests) request ∧ le v v ∨
      ∃ u, view (run step start requests) = some u ∧ held u ∧ le u v

/-- The granting request behind what an entry holds. -/
structure Granted (step : σ → κ → σ) (start : σ) (view : σ → Option ν)
    (grants : σ → κ → Prop) (le : ν → ν → Prop) (requests : List κ) (v : ν) (before : List κ)
    (request : κ) (rest : List κ) : Prop where
  split : requests = before ++ request :: rest
  granting : grants (run step start before) request
  le : ∃ u, view (run step start (before ++ [request])) = some u ∧ le u v
  kept : ∀ mid, mid <+: rest → (view (run step start (before ++ request :: mid))).isSome

theorem Confined.granted {step : σ → κ → σ} {start : σ} {view : σ → Option ν} {held : ν → Prop}
    {grants : σ → κ → Prop} {le : ν → ν → Prop} (h : Confined step start view held grants le)
    (requests : List κ) {v : ν} (hv : view (run step start requests) = some v) (hheld : held v) :
    ∃ before request rest,
      Granted step start view grants le requests v before request rest := by
  induction requests using List.reverseRecOn generalizing v with
  | nil => exact absurd hheld (h.fresh v hv)
  | append_singleton requests request ih =>
    have hview := hv
    rw [run_concat] at hv
    rcases h.confined requests request v hv hheld with ⟨hgrants, hle⟩ | ⟨u, hu, huheld, huv⟩
    · refine ⟨requests, request, [], rfl, hgrants, ⟨v, hview, hle⟩, ?_⟩
      intro mid hmid
      rw [List.prefix_nil.mp hmid, hview]
      rfl
    · obtain ⟨before, granting, rest, hsplit, hgrants, ⟨g, hg, hgu⟩, hkept⟩ := ih hu huheld
      refine ⟨before, granting, rest ++ [request], by simp [hsplit], hgrants,
        ⟨g, hg, h.trans g u v hgu huv⟩, ?_⟩
      intro mid hmid
      rcases List.prefix_concat_iff.mp hmid with rfl | hmid
      · rw [← List.cons_append, ← List.append_assoc, ← hsplit, hview]
        rfl
      · exact hkept mid hmid

end Provenance
