import Flashclaw.Lib.Peeling
import Flashclaw.Exec.Unwrapped

/-!
# Exec wrappers: soundness of the trust plan

A plan that is not blocked has taken transparent layers off, no more than the
depth allows, down to a command that is no wrapper.
-/

namespace Flashclaw.Exec

open Utf16 Peeling

inductive WrapperKind where
  | dispatch
  | carrier
  | multiplexer
deriving DecidableEq

/-- A wrapper that was taken off, and the argv it was the wrapper of. -/
structure Layer where
  kind : WrapperKind
  wrapper : Utf16
  argv : List Utf16

section Layers

variable (rt : Runtime) (platform : Utf16)

/-- What the first unwrapper that knows the wrapper takes off. -/
def peelWrapper (argv : List Utf16) : Option (Layer × List Utf16) :=
  match unwrapKnownDispatchWrapperInvocation rt argv platform with
  | .blocked _ => none
  | .unwrapped wrapper next => some (⟨.dispatch, wrapper, argv⟩, next)
  | .notWrapper =>
    match unwrapTransparentShellArgvCarrierInvocation rt argv platform with
    | .blocked _ => none
    | .unwrapped wrapper next => some (⟨.carrier, wrapper, argv⟩, next)
    | .notWrapper =>
      match unwrapKnownShellMultiplexerInvocation rt argv with
      | .blocked _ => none
      | .unwrapped wrapper next => some (⟨.multiplexer, wrapper, argv⟩, next)
      | .notWrapper => none

/-- Wrappers that mean no more than the command they dispatch to. -/
def isTransparent (layer : Layer) : Bool :=
  match layer.kind with
  | .dispatch => !isSemanticDispatchWrapperUsage rt layer.wrapper layer.argv platform
  | _ => true

def peelTransparent (argv : List Utf16) : Option (Layer × List Utf16) :=
  (peelWrapper rt platform argv).filter fun peeled => isTransparent rt platform peeled.1

/-- None of the unwrappers blocks or unwraps the argv. -/
structure IsBare (argv : List Utf16) : Prop where
  dispatch : unwrapKnownDispatchWrapperInvocation rt argv platform = .notWrapper
  carrier : unwrapTransparentShellArgvCarrierInvocation rt argv platform = .notWrapper
  multiplexer : unwrapKnownShellMultiplexerInvocation rt argv = .notWrapper

end Layers

/-- What policy looks at: the first multiplexer, or else the command. -/
def policyTarget (layers : List Layer) (last : List Utf16) : List Utf16 :=
  ((layers.find? fun layer => layer.kind = .multiplexer).map (·.argv)).getD last

section Sound

variable {rt : Runtime} {platform : Utf16}

theorem IsBare.peel_eq_none {argv : List Utf16} (h : IsBare rt platform argv) :
    peelWrapper rt platform argv = none := by
  rw [peelWrapper, h.dispatch, h.carrier, h.multiplexer]

theorem peelWrapper_of_transparent {argv next : List Utf16} {layer : Layer}
    (h : peelTransparent rt platform argv = some (layer, next)) :
    peelWrapper rt platform argv = some (layer, next) :=
  (Option.filter_eq_some_iff.mp h).1

section Steps

variable {argv next : List Utf16} {wrapper : Utf16}

theorem peelTransparent_dispatch
    (h : unwrapKnownDispatchWrapperInvocation rt argv platform = .unwrapped wrapper next)
    (hplain : isSemanticDispatchWrapperUsage rt wrapper argv platform = false) :
    peelTransparent rt platform argv = some (⟨.dispatch, wrapper, argv⟩, next) := by
  rw [peelTransparent, peelWrapper, h, Option.filter_some, if_pos]
  show (!_) = true
  rw [hplain]
  rfl

variable (hdispatch : unwrapKnownDispatchWrapperInvocation rt argv platform = .notWrapper)
include hdispatch

theorem peelTransparent_carrier
    (h : unwrapTransparentShellArgvCarrierInvocation rt argv platform = .unwrapped wrapper next) :
    peelTransparent rt platform argv = some (⟨.carrier, wrapper, argv⟩, next) := by
  rw [peelTransparent, peelWrapper, hdispatch, h]
  rfl

theorem peelTransparent_multiplexer
    (hcarrier : unwrapTransparentShellArgvCarrierInvocation rt argv platform = .notWrapper)
    (h : unwrapKnownShellMultiplexerInvocation rt argv = .unwrapped wrapper next) :
    peelTransparent rt platform argv = some (⟨.multiplexer, wrapper, argv⟩, next) := by
  rw [peelTransparent, peelWrapper, hdispatch, hcarrier, h]
  rfl

end Steps

/-- What the inner loop has done when it has blocked nothing. -/
structure Dispatched (rt : Runtime) (platform : Utf16) (current : List Utf16) (layers : List Layer)
    (last : List Utf16) : Prop where
  chain : Chain (peelTransparent rt platform) current layers last
  kinds : ∀ layer ∈ layers, layer.kind = .dispatch

theorem dispatchLoop_ok {depths : ℕ} {current wrappers last wrappers' : List Utf16}
    (h : dispatchLoop rt platform depths current wrappers = .ok (last, wrappers')) :
    ∃ layers, Dispatched rt platform current layers last ∧
      wrappers' = wrappers ++ layers.map (·.wrapper) ∧ layers.length ≤ depths ∧
      (layers.length < depths →
        unwrapKnownDispatchWrapperInvocation rt last platform = .notWrapper) := by
  induction depths generalizing current wrappers with
  | zero =>
    cases h
    exact ⟨[], ⟨.nil _, by simp⟩, by simp, Nat.le_refl 0, fun h => absurd h (Nat.lt_irrefl 0)⟩
  | succ depths ih =>
    rw [dispatchLoop] at h
    split at h
    · cases h
    · rename_i hnot
      cases h
      exact ⟨[], ⟨.nil _, by simp⟩, by simp, Nat.zero_le _, fun _ => hnot⟩
    · rename_i wrapper argv hunwrapped
      rw [if_neg (dispatch_unwrapped_ne_nil hunwrapped)] at h
      split at h
      · cases h
      · rename_i hplain
        obtain ⟨layers, hlayers, hwrappers, hlength, hbare⟩ := ih h
        have hpeel := peelTransparent_dispatch hunwrapped (Bool.eq_false_iff.mpr hplain)
        refine ⟨⟨.dispatch, wrapper, current⟩ :: layers, ⟨.cons hpeel hlayers.chain, ?_⟩, ?_, ?_, ?_⟩
        · rintro layer (_ | ⟨_, hmem⟩)
          · rfl
          · exact hlayers.kinds layer hmem
        · rw [hwrappers, List.map_cons, List.append_assoc, List.singleton_append]
        · exact Nat.succ_le_succ hlength
        · intro hlt
          exact hbare (Nat.lt_of_succ_lt_succ hlt)

theorem dispatchLoop_error {depths : ℕ} {current wrappers : List Utf16}
    {plan : DispatchWrapperTrustPlan}
    (h : dispatchLoop rt platform depths current wrappers = .error plan) :
    plan.policyBlocked = true := by
  induction depths generalizing current wrappers with
  | zero => cases h
  | succ depths ih =>
    rw [dispatchLoop] at h
    split at h
    · cases h
      rfl
    · cases h
    · split at h
      · cases h
      · split at h
        · cases h
          rfl
        · exact ih h

/-- A dispatch plan that is not blocked leaves no dispatch wrapper. -/
theorem dispatchPlan_ok {current : List Utf16} {maxDepth : ℕ}
    (h : (resolveDispatchWrapperTrustPlan rt current maxDepth platform).policyBlocked = false) :
    ∃ layers, Dispatched rt platform current layers
        (resolveDispatchWrapperTrustPlan rt current maxDepth platform).argv ∧
      (resolveDispatchWrapperTrustPlan rt current maxDepth platform).wrappers =
        layers.map (·.wrapper) ∧
      layers.length ≤ maxDepth ∧
      unwrapKnownDispatchWrapperInvocation rt
        (resolveDispatchWrapperTrustPlan rt current maxDepth platform).argv platform =
          .notWrapper := by
  unfold resolveDispatchWrapperTrustPlan at h ⊢
  cases hloop : dispatchLoop rt platform maxDepth current [] with
  | error plan =>
    rw [hloop] at h
    rw [dispatchLoop_error hloop] at h
    cases h
  | ok loop =>
    obtain ⟨last, wrappers⟩ := loop
    obtain ⟨layers, hlayers, rfl, hlength, hbare⟩ := dispatchLoop_ok hloop
    rw [hloop] at h
    dsimp only at h ⊢
    split
    · rename_i hfull
      rw [if_pos hfull] at h
      cases hoverflow : unwrapKnownDispatchWrapperInvocation rt last platform with
      | notWrapper => exact ⟨layers, hlayers, rfl, hlength, hoverflow⟩
      | blocked wrapper =>
        rw [hoverflow] at h
        cases h
      | unwrapped wrapper argv =>
        rw [hoverflow] at h
        cases h
    · rename_i hroom
      refine ⟨layers, hlayers, rfl, hlength, hbare ?_⟩
      rw [List.nil_append, List.length_map] at hroom
      omega

/-- The variables of the loop agree with the layers that are off. -/
structure PlanInvariant (rt : Runtime) (platform : Utf16) (argv : List Utf16) (maxDepth : ℕ)
    (s : PlanState) (layers : List Layer) : Prop where
  chain : Chain (peelTransparent rt platform) argv layers s.current
  wrapperChain : s.wrapperChain = layers.map (·.wrapper)
  sawShellMultiplexer : s.sawShellMultiplexer = layers.any fun layer => layer.kind = .multiplexer
  policyArgv : s.policyArgv = policyTarget layers s.current
  length_le : layers.length ≤ maxDepth

theorem policyTarget_append (layers layers' : List Layer) (last : List Utf16) :
    policyTarget (layers ++ layers') last =
      if layers.any fun layer => layer.kind = .multiplexer then policyTarget layers last
      else policyTarget layers' last := by
  rw [policyTarget, List.find?_append]
  split
  · rename_i h
    obtain ⟨layer, hlayer, hkind⟩ := List.any_eq_true.mp h
    have hsome : (layers.find? fun layer => layer.kind = .multiplexer).isSome = true :=
      List.find?_isSome.mpr ⟨layer, hlayer, hkind⟩
    obtain ⟨found, hfound⟩ := Option.isSome_iff_exists.mp hsome
    rw [policyTarget, hfound]
    rfl
  · rename_i h
    have hnone : (layers.find? fun layer => layer.kind = .multiplexer) = none := by
      rw [List.find?_eq_none]
      intro layer hlayer hkind
      exact h (List.any_eq_true.mpr ⟨layer, hlayer, hkind⟩)
    rw [hnone, Option.none_or, policyTarget]

theorem policyTarget_of_any {layers : List Layer}
    (h : (layers.any fun layer => layer.kind = .multiplexer) = true) (last last' : List Utf16) :
    policyTarget layers last = policyTarget layers last' := by
  obtain ⟨layer, hlayer, hkind⟩ := List.any_eq_true.mp h
  have hsome : (layers.find? fun layer => layer.kind = .multiplexer).isSome = true :=
    List.find?_isSome.mpr ⟨layer, hlayer, hkind⟩
  obtain ⟨found, hfound⟩ := Option.isSome_iff_exists.mp hsome
  rw [policyTarget, policyTarget, hfound]
  rfl

theorem policyTarget_of_no_multiplexer {layers : List Layer}
    (h : ∀ layer ∈ layers, layer.kind ≠ .multiplexer) (last : List Utf16) :
    policyTarget layers last = last := by
  have hnone : (layers.find? fun layer => layer.kind = .multiplexer) = none := by
    rw [List.find?_eq_none]
    intro layer hlayer hkind
    exact h layer hlayer (of_decide_eq_true hkind)
  rw [policyTarget, hnone]
  rfl

section Loop

variable {argv : List Utf16} {maxDepth : ℕ} {s s' : PlanState} {layers : List Layer}

/-- Taking off layers that policy looks through. -/
theorem PlanInvariant.peel (h : PlanInvariant rt platform argv maxDepth s layers)
    {layers' : List Layer} {next : List Utf16}
    (hchain : Chain (peelTransparent rt platform) s.current layers' next)
    (hkinds : ∀ layer ∈ layers', layer.kind ≠ .multiplexer)
    (hlength : layers.length + layers'.length ≤ maxDepth) :
    PlanInvariant rt platform argv maxDepth (s.peel (layers'.map (·.wrapper)) next)
      (layers ++ layers') := by
  have hnone : (layers'.any fun layer => layer.kind = .multiplexer) = false := by
    rw [List.any_eq_false]
    intro layer hlayer hkind
    exact hkinds layer hlayer (of_decide_eq_true hkind)
  refine ⟨h.chain.append hchain, ?_, ?_, ?_, ?_⟩
  · rw [List.map_append, ← h.wrapperChain]
    rfl
  · rw [List.any_append, hnone, Bool.or_false, ← h.sawShellMultiplexer]
    rfl
  · rw [policyTarget_append, ← h.sawShellMultiplexer, policyTarget_of_no_multiplexer hkinds]
    show (if s.sawShellMultiplexer then s.policyArgv else next) = _
    split
    · rename_i hsaw
      rw [h.sawShellMultiplexer] at hsaw
      rw [h.policyArgv]
      exact policyTarget_of_any hsaw _ _
    · rfl
  · rwa [List.length_append]

/-- Taking off a multiplexer. -/
theorem PlanInvariant.peelMultiplexer (h : PlanInvariant rt platform argv maxDepth s layers)
    {wrapper : Utf16} {next : List Utf16}
    (hpeel : peelTransparent rt platform s.current =
      some (⟨.multiplexer, wrapper, s.current⟩, next))
    (hlength : layers.length < maxDepth) :
    PlanInvariant rt platform argv maxDepth (s.peelMultiplexer wrapper next)
      (layers ++ [⟨.multiplexer, wrapper, s.current⟩]) := by
  refine ⟨h.chain.append (.single hpeel), ?_, ?_, ?_, ?_⟩
  · rw [List.map_append, ← h.wrapperChain]
    rfl
  · rw [List.any_append]
    simp only [List.any_cons, decide_true, Bool.true_or, Bool.or_true]
    rfl
  · rw [policyTarget_append, ← h.sawShellMultiplexer]
    show (if s.sawShellMultiplexer then s.policyArgv else s.current) = _
    split
    · rename_i hsaw
      rw [h.sawShellMultiplexer] at hsaw
      rw [h.policyArgv]
      exact policyTarget_of_any hsaw _ _
    · rfl
  · rw [List.length_append]
    exact hlength

/-- A pass takes off transparent layers, or finds none. -/
theorem planPass_ok (h : PlanInvariant rt platform argv maxDepth s layers)
    (hroom : s.wrapperChain.length < maxDepth) {next : Option PlanState}
    (hpass : planPass rt maxDepth platform s = .ok next) :
    (next = none ∧ IsBare rt platform s.current) ∨
      ∃ s' layers', next = some s' ∧ PlanInvariant rt platform argv maxDepth s' layers' ∧
        s.wrapperChain.length < s'.wrapperChain.length := by
  have hlength : s.wrapperChain.length = layers.length := by rw [h.wrapperChain, List.length_map]
  unfold planPass at hpass
  dsimp only at hpass
  split at hpass
  · cases hpass
  · rename_i hblocked
    obtain ⟨dispatched, hdispatched, hwrappers, hbudget, hbare⟩ :=
      dispatchPlan_ok (Bool.eq_false_iff.mpr hblocked)
    split at hpass
    · -- dispatch wrappers are peeled first
      rename_i hne
      cases hpass
      right
      rw [hwrappers, ne_eq, List.map_eq_nil_iff] at hne
      have hpos := List.length_pos_of_ne_nil hne
      refine ⟨_, layers ++ dispatched, rfl, ?_, ?_⟩
      · rw [hwrappers]
        apply h.peel hdispatched.chain
        · intro layer hlayer
          rw [hdispatched.kinds layer hlayer]
          decide
        · omega
      · show _ < (s.wrapperChain ++ _).length
        rw [hwrappers, List.length_append, List.length_map]
        omega
    · rename_i hnil
      rw [hwrappers, ne_eq, not_not, List.map_eq_nil_iff] at hnil
      subst hnil
      have hdispatch :
          unwrapKnownDispatchWrapperInvocation rt s.current platform = .notWrapper := by
        generalize (resolveDispatchWrapperTrustPlan rt s.current
          (maxDepth - s.wrapperChain.length) platform).argv = last at hdispatched hbare
        cases hdispatched.chain
        exact hbare
      split at hpass
      · cases hpass
      · -- then one carrier
        rename_i wrapper next hcarrier
        cases hpass
        right
        refine ⟨_, _, rfl, h.peel (.single (peelTransparent_carrier hdispatch hcarrier)) ?_ ?_, ?_⟩
        · intro layer hlayer hkind
          rw [List.mem_singleton.mp hlayer] at hkind
          cases hkind
        · rw [List.length_singleton]
          omega
        · show _ < (s.wrapperChain ++ [wrapper]).length
          rw [List.length_append]
          exact Nat.lt_succ_self _
      · rename_i hcarrier
        split at hpass
        · cases hpass
        · -- then one shell multiplexer
          rename_i wrapper next hmultiplexer
          cases hpass
          right
          refine ⟨_, _, rfl,
            h.peelMultiplexer (peelTransparent_multiplexer hdispatch hcarrier hmultiplexer) ?_, ?_⟩
          · omega
          · show _ < (s.wrapperChain ++ [wrapper]).length
            rw [List.length_append]
            exact Nat.lt_succ_self _
        · rename_i hmultiplexer
          cases hpass
          exact .inl ⟨rfl, hdispatch, hcarrier, hmultiplexer⟩

/-- The loop stops at a bare command, or with its depth used up. -/
theorem planLoop_ok {depths : ℕ} (h : PlanInvariant rt platform argv maxDepth s layers)
    (hroom : s.wrapperChain.length < maxDepth)
    (hdepths : maxDepth ≤ s.wrapperChain.length + depths)
    (hloop : planLoop rt maxDepth platform depths s = .ok s') :
    ∃ layers', PlanInvariant rt platform argv maxDepth s' layers' ∧
      (maxDepth ≤ s'.wrapperChain.length ∨ IsBare rt platform s'.current) := by
  induction depths generalizing s layers with
  | zero => omega
  | succ depths ih =>
    rw [planLoop] at hloop
    split at hloop
    · cases hloop
    · rename_i hpass
      cases hloop
      obtain ⟨-, hbare⟩ | ⟨_, _, hnext, -⟩ := planPass_ok h hroom hpass
      · exact ⟨layers, h, .inr hbare⟩
      · cases hnext
    · rename_i s₁ hpass
      obtain ⟨hnext, -⟩ | ⟨_, layers₁, hnext, h₁, hgrow⟩ := planPass_ok h hroom hpass
      · cases hnext
      · cases hnext
        split at hloop
        · rename_i hfull
          cases hloop
          exact ⟨layers₁, h₁, .inl hfull⟩
        · exact ih h₁ (by omega) (by omega) hloop

end Loop

theorem overflowWrapper_eq_none {argv : List Utf16} (h : overflowWrapper rt platform argv = none) :
    IsBare rt platform argv := by
  unfold overflowWrapper at h
  split at h
  · cases h
  · cases h
  · rename_i hdispatch
    split at h
    · cases h
    · cases h
    · rename_i hcarrier
      split at h
      · cases h
      · cases h
      · rename_i hmultiplexer
        exact ⟨hdispatch, hcarrier, hmultiplexer⟩

theorem planPass_error {maxDepth : ℕ} {s : PlanState} {plan : ExecWrapperTrustPlan}
    (h : planPass rt maxDepth platform s = .error plan) : plan.policyBlocked = true := by
  unfold planPass at h
  dsimp only at h
  split at h
  · cases h
    rfl
  · split at h
    · cases h
    · split at h
      · cases h
        rfl
      · cases h
      · split at h
        · cases h
          rfl
        · cases h
        · cases h

theorem planLoop_error {maxDepth depths : ℕ} {s : PlanState} {plan : ExecWrapperTrustPlan}
    (h : planLoop rt maxDepth platform depths s = .error plan) : plan.policyBlocked = true := by
  induction depths generalizing s with
  | zero => cases h
  | succ depths ih =>
    rw [planLoop] at h
    split at h
    · rename_i hpass
      cases h
      exact planPass_error hpass
    · cases h
    · split at h
      · cases h
      · exact ih h

/-- What a plan that is not blocked says of the argv that was planned. -/
structure Trusted (rt : Runtime) (platform : Utf16) (argv : List Utf16) (maxDepth : ℕ)
    (plan : ExecWrapperTrustPlan) : Prop where
  bare : IsBare rt platform plan.argv
  peeled : ∃ layers, Chain (peelTransparent rt platform) argv layers plan.argv ∧
    layers.length ≤ maxDepth ∧ plan.wrapperChain = layers.map (·.wrapper) ∧
    plan.policyArgv = policyTarget layers plan.argv
  again : resolveExecWrapperTrustPlan rt plan.argv maxDepth platform =
    finalizeExecWrapperTrustPlan rt plan.argv plan.argv [] false

/-- A bare command is planned as it is. -/
theorem resolve_of_bare {argv : List Utf16} {maxDepth : ℕ} (hdepth : 1 ≤ maxDepth)
    (h : IsBare rt platform argv) :
    resolveExecWrapperTrustPlan rt argv maxDepth platform =
      finalizeExecWrapperTrustPlan rt argv argv [] false := by
  obtain ⟨depths, rfl⟩ : ∃ n, maxDepth = n + 1 := ⟨maxDepth - 1, by omega⟩
  have hloop : dispatchLoop rt platform (depths + 1) argv [] = .ok (argv, []) := by
    rw [dispatchLoop, h.dispatch]
  have hplan : resolveDispatchWrapperTrustPlan rt argv (depths + 1) platform =
      ⟨argv, [], false, none⟩ := by
    rw [resolveDispatchWrapperTrustPlan, hloop]
    exact if_neg (Nat.not_succ_le_zero depths)
  have hpass : planPass rt (depths + 1) platform ⟨argv, argv, false, []⟩ = .ok none := by
    rw [planPass]
    simp only [List.length_nil, Nat.sub_zero, hplan, Bool.false_eq_true, if_false, ne_eq,
      not_true_eq_false, h.carrier, h.multiplexer]
  rw [resolveExecWrapperTrustPlan, planLoop, hpass]
  exact if_neg (Nat.not_succ_le_zero depths)

theorem trusted_of_not_blocked {argv : List Utf16} {maxDepth : ℕ} (hdepth : 1 ≤ maxDepth)
    (h : (resolveExecWrapperTrustPlan rt argv maxDepth platform).policyBlocked = false) :
    Trusted rt platform argv maxDepth (resolveExecWrapperTrustPlan rt argv maxDepth platform) := by
  have hstart : PlanInvariant rt platform argv maxDepth ⟨argv, argv, false, []⟩ [] :=
    ⟨.nil _, rfl, rfl, rfl, Nat.zero_le _⟩
  have hfinished {s : PlanState} {layers : List Layer}
      (hs : PlanInvariant rt platform argv maxDepth s layers)
      (hbare : IsBare rt platform s.current) :
      Trusted rt platform argv maxDepth
        (finalizeExecWrapperTrustPlan rt s.current s.policyArgv s.wrapperChain false) :=
    ⟨hbare, ⟨layers, hs.chain, hs.length_le, hs.wrapperChain, hs.policyArgv⟩,
      resolve_of_bare hdepth hbare⟩
  unfold resolveExecWrapperTrustPlan at h ⊢
  cases hloop : planLoop rt maxDepth platform maxDepth ⟨argv, argv, false, []⟩ with
  | error plan =>
    rw [hloop] at h
    rw [planLoop_error hloop] at h
    cases h
  | ok s =>
    obtain ⟨layers, hs, hend⟩ := planLoop_ok hstart hdepth (Nat.le_add_left _ _) hloop
    rw [hloop] at h
    dsimp only at h ⊢
    split
    · rename_i hfull
      rw [if_pos hfull] at h
      cases hoverflow : overflowWrapper rt platform s.current with
      | none => exact hfinished hs (overflowWrapper_eq_none hoverflow)
      | some wrapper =>
        rw [hoverflow] at h
        cases h
    · rename_i hroom
      obtain hfull | hbare := hend
      · exact absurd hfull hroom
      · exact hfinished hs hbare

end Sound

/-- A plan that is not blocked is trusted, and one for more layers than the depth is blocked. -/
theorem resolveExecWrapperTrustPlan_sound (rt : Runtime) (platform : Utf16) (argv : List Utf16)
    (maxDepth : ℕ) (hdepth : 1 ≤ maxDepth) :
    ((resolveExecWrapperTrustPlan rt argv maxDepth platform).policyBlocked = false →
      Trusted rt platform argv maxDepth
        (resolveExecWrapperTrustPlan rt argv maxDepth platform)) ∧
    ∀ layers last, Chain (peelWrapper rt platform) argv layers last → maxDepth < layers.length →
      (resolveExecWrapperTrustPlan rt argv maxDepth platform).policyBlocked = true := by
  refine ⟨trusted_of_not_blocked hdepth, ?_⟩
  intro layers last hchain hlong
  by_contra hblocked
  have htrusted := trusted_of_not_blocked hdepth (Bool.eq_false_iff.mpr hblocked)
  obtain ⟨layers', hchain', hlength, -⟩ := htrusted.peeled
  have hmono := hchain'.mono fun _ _ _ => peelWrapper_of_transparent
  have hle := hmono.length_le htrusted.bare.peel_eq_none hchain
  omega

/-- A runtime for texts in lower case without directories. -/
def plainRuntime : Runtime := ⟨id, id, id, fun _ => none⟩

theorem resolveExecWrapperTrustPlan_sound_plain :
    Trusted plainRuntime (ofString "linux")
      [ofString "nice", ofString "-n", ofString "5", ofString "busybox", ofString "sh"] 4
      (resolveExecWrapperTrustPlan plainRuntime
        [ofString "nice", ofString "-n", ofString "5", ofString "busybox", ofString "sh"] 4
        (ofString "linux")) :=
  (resolveExecWrapperTrustPlan_sound plainRuntime (ofString "linux")
    [ofString "nice", ofString "-n", ofString "5", ofString "busybox", ofString "sh"] 4
    (by decide)).1 (by decide +kernel)

end Flashclaw.Exec
