import Flashclaw.Exec.TrustPlan

/-!
# Exec wrappers: what unwrapping leaves

Whatever is unwrapped leaves a command.
-/

namespace Flashclaw.Exec

open Utf16

section Unwrapped

variable {rt : Runtime}

theorem scanWrapperInvocation_ne_nil {σ : Type} {argv argv' : List Utf16} {separators : List String}
    {start : σ} {onToken : σ → Utf16 → Utf16 → WrapperScanDirective × σ}
    {adjustCommandIndex : ℕ → List Utf16 → Option ℕ}
    (h : scanWrapperInvocation rt argv separators start onToken adjustCommandIndex = some argv') :
    argv' ≠ [] := by
  obtain ⟨⟨index, expects⟩, -, h⟩ := Option.bind_eq_some_iff.mp h
  dsimp only at h
  split at h
  · cases h
  · obtain ⟨commandIndex, -, h⟩ := Option.bind_eq_some_iff.mp h
    split at h
    · cases h
    · rename_i hlt
      obtain rfl := Option.some.inj h
      rw [ne_eq, List.drop_eq_nil_iff]
      exact hlt

/-! ## `env` -/

/-- A prelude that carries a command: one that was split, or the rest of the arguments. -/
def Carries (parsed : ParsedEnvInvocationPrelude) (length : ℕ) : Prop :=
  match parsed.splitArgv with
  | some argv => argv ≠ []
  | none => parsed.commandIndex < length

theorem parseEnvLoop_carries {resolveEnvSplitPayload : Utf16 → List Utf16 → Option (List Utf16)}
    (hresolve : ∀ payload trailing argv, resolveEnvSplitPayload payload trailing = some argv →
      argv ≠ []) {args : List Utf16} {index : ℕ} {keys : List Utf16} {usesModifiers : Bool}
    {parsed : ParsedEnvInvocationPrelude}
    (h : parseEnvLoop resolveEnvSplitPayload index keys usesModifiers args = some parsed) :
    Carries parsed (index + args.length) := by
  induction hlength : args.length using Nat.strong_induction_on
    generalizing args index keys usesModifiers with
  | _ n ih =>
    cases args with
    | nil => cases h
    | cons token rest =>
      have hrest : rest.length < n := by
        rw [← hlength]
        exact Nat.lt_succ_self _
      have hn : n = rest.length + 1 := hlength.symm
      -- a round that goes on leaves fewer arguments and no higher end
      have hnext {index' : ℕ} {keys' : List Utf16} {uses' : Bool} {args' : List Utf16}
          (hshort : args'.length < n) (hindex : index' + args'.length ≤ index + n)
          (h' : parseEnvLoop resolveEnvSplitPayload index' keys' uses' args' = some parsed) :
          Carries parsed (index + n) := by
        have hcarries := ih _ hshort h' rfl
        unfold Carries at hcarries ⊢
        cases hsplit : parsed.splitArgv with
        | some argv =>
          rw [hsplit] at hcarries
          exact hcarries
        | none =>
          rw [hsplit] at hcarries
          dsimp only at hcarries ⊢
          omega
      rw [parseEnvLoop.eq_def] at h
      dsimp only at h
      split at h
      · cases h
      · split at h
        · exact hnext hrest (by omega) h
        · split at h
          · split at h
            · rename_i hne
              obtain rfl := Option.some.inj h
              have hpos : 0 < rest.length := List.length_pos_of_ne_nil hne
              show index + 1 < index + n
              omega
            · cases h
          · split at h
            · split at h
              · cases h
              · split at h
                · split at h
                  · obtain ⟨argv, hargv, rfl⟩ := Option.map_eq_some_iff.mp h
                    exact hresolve _ _ _ hargv
                  · obtain ⟨payload, -, h⟩ := Option.bind_eq_some_iff.mp h
                    obtain ⟨argv, hargv, rfl⟩ := Option.map_eq_some_iff.mp h
                    exact hresolve _ _ _ hargv
                · split at h
                  · split at h
                    · cases h
                    · rename_i hshort
                      rw [List.length_cons] at hrest hn
                      exact hnext (by omega) (by omega) h
                  · exact hnext hrest (by omega) h
            · obtain rfl := Option.some.inj h
              show index < index + n
              omega

theorem carried_ne_nil {parsed : ParsedEnvInvocationPrelude} {argv : List Utf16}
    (h : Carries parsed argv.length) : parsed.carried argv ≠ [] := by
  unfold Carries at h
  unfold ParsedEnvInvocationPrelude.carried
  split at h
  · rename_i hsplit
    rw [hsplit]
    exact h
  · rename_i hsplit
    rw [hsplit, Option.getD_none, ne_eq, List.drop_eq_nil_iff]
    omega

theorem parseEnvAt_carries {levels : ℕ} {argv : List Utf16} {parsed : ParsedEnvInvocationPrelude}
    (h : parseEnvAt rt levels argv = some parsed) : parsed.carried argv ≠ [] := by
  induction levels generalizing argv parsed with
  | zero => cases h
  | succ levels ih =>
    rw [parseEnvAt] at h
    split at h
    · cases h
    · apply carried_ne_nil
      have hcarries := parseEnvLoop_carries ?_ h
      · cases argv with
        | nil => cases h
        | cons arg args =>
          rw [List.tail_cons] at hcarries
          rwa [List.length_cons, Nat.add_comm]
      · intro payload trailing carried hcarried
        obtain ⟨innerArgv, -, hcarried⟩ := Option.bind_eq_some_iff.mp hcarried
        dsimp only at hcarried
        split at hcarried
        · cases hcarried
        · rename_i hne
          obtain rfl := Option.some.inj hcarried
          cases hparsed : parseEnvAt rt levels (ofString "env" :: (innerArgv ++ trailing)) with
          | none =>
            rw [Option.map_none, Option.getD_none]
            exact fun h => hne (List.append_eq_nil_iff.mp h).1
          | some inner =>
            rw [Option.map_some, Option.getD_some]
            exact ih hparsed

theorem unwrapEnvInvocation_ne_nil {argv argv' : List Utf16}
    (h : unwrapEnvInvocation rt argv = some argv') : argv' ≠ [] := by
  obtain ⟨parsed, hparsed, rfl⟩ := Option.map_eq_some_iff.mp h
  exact parseEnvAt_carries hparsed

/-- Every wrapper that is unwrapped leaves a command. -/
theorem spec_unwrap_ne_nil {spec : DispatchWrapperSpec} (hspec : spec ∈ DISPATCH_WRAPPER_SPECS rt)
    {unwrap : List Utf16 → Utf16 → Option (List Utf16)} (hunwrap : spec.unwrap = some unwrap)
    {argv argv' : List Utf16} {platform : Utf16} (h : unwrap argv platform = some argv') :
    argv' ≠ [] := by
  simp only [DISPATCH_WRAPPER_SPECS, opaqueSpec, List.mem_cons, List.not_mem_nil, or_false]
    at hspec
  rcases hspec with rfl | rfl | rfl | rfl | rfl | rfl | rfl | rfl | rfl | rfl | rfl | rfl | rfl |
    rfl | rfl | rfl | rfl | rfl
  all_goals cases hunwrap
  · dsimp only at h
    split at h
    · exact scanWrapperInvocation_ne_nil h
    · cases h
  · exact scanWrapperInvocation_ne_nil h
  · exact unwrapEnvInvocation_ne_nil h
  · exact scanWrapperInvocation_ne_nil h
  · exact scanWrapperInvocation_ne_nil h
  · exact scanWrapperInvocation_ne_nil h
  · exact scanWrapperInvocation_ne_nil h
  · unfold unwrapScriptInvocation at h
    split at h
    · cases h
    · exact scanWrapperInvocation_ne_nil h
  · exact scanWrapperInvocation_ne_nil h
  · exact scanWrapperInvocation_ne_nil h
  · exact scanWrapperInvocation_ne_nil h
  · dsimp only at h
    split at h
    · exact scanWrapperInvocation_ne_nil h
    · cases h

theorem dispatch_unwrapped_ne_nil {argv argv' : List Utf16} {platform wrapper : Utf16}
    (h : unwrapKnownDispatchWrapperInvocation rt argv platform = .unwrapped wrapper argv') :
    argv' ≠ [] := by
  unfold unwrapKnownDispatchWrapperInvocation at h
  split at h
  · cases h
  · dsimp only at h
    split at h
    · cases h
    · rename_i spec hspec
      split at h
      · cases h
      · rename_i unwrap hunwrap
        cases hargv : unwrap argv platform with
        | none =>
          rw [hargv] at h
          cases h
        | some left =>
          rw [hargv] at h
          cases h
          exact spec_unwrap_ne_nil (List.mem_of_find?_eq_some hspec) hunwrap hargv

end Unwrapped

end Flashclaw.Exec
