import Flashclaw.Board.Puts

/-!
# Boards: what a grant covers
-/

namespace Flashclaw.Board

variable {Props : Type}

open BoardLayout Lists Results

/-- The content a grant is for. -/
inductive GrantScope where
  | html (sha256 : String)
  | mcpApp (serverName : String) (interactive : Bool)
  | plugin
deriving DecidableEq

/-- The authority of a widget as a store has it. -/
structure Authority where
  grantState : GrantState
  declared : Option BoardWidgetDeclared
  scope : GrantScope
deriving DecidableEq

/-- The second authority declares no more than the first, for the same bytes or the same server. -/
def Authority.Covers (granted present : Authority) : Prop :=
  origins present.declared ⊆ origins granted.declared ∧
    tools present.declared ⊆ tools granted.declared ∧
    match present.scope with
    | .html sha256 => granted.scope = .html sha256
    | .mcpApp serverName interactive =>
      interactive = true ∧ ∃ earlier, granted.scope = .mcpApp serverName earlier
    | .plugin => False

theorem Authority.Covers.trans {a b c : Authority} (hab : a.Covers b) (hbc : b.Covers c) :
    a.Covers c := by
  obtain ⟨hao, hat, hascope⟩ := hab
  obtain ⟨hbo, hbt, hbscope⟩ := hbc
  refine ⟨List.Subset.trans hbo hao, List.Subset.trans hbt hat, ?_⟩
  cases hc : c.scope with
  | html sha256 =>
    rw [hc] at hbscope
    simpa [hbscope] using hascope
  | mcpApp serverName interactive =>
    rw [hc] at hbscope
    obtain ⟨hinteractive, earlier, hb⟩ := hbscope
    rw [hb] at hascope
    exact ⟨hinteractive, hascope.2⟩
  | plugin =>
    rw [hc] at hbscope
    exact hbscope

theorem subset_of_isSubset {requested granted : Option BoardWidgetDeclared}
    (h : boardDeclarationIsSubset requested granted) :
    origins requested ⊆ origins granted ∧ tools requested ⊆ tools granted := by
  simp only [boardDeclarationIsSubset, Bool.and_eq_true, List.all_eq_true, decide_eq_true_eq] at h
  exact ⟨fun o ho => h.1 o ho, fun t ht => h.2 t ht⟩

section Put

variable {host : Host Props} {prior : BoardLayout Props} {params : BoardWidgetPutParams Props}
  {context : PutContext} {tabId : String} {position : ℕ} {declared : Option BoardWidgetDeclared}

/-- A declaration that normalizes has a summary, if there is one. -/
theorem summary_isSome {declared normalized : Option BoardWidgetDeclared}
    (h : normalizeBoardWidgetDeclared host.parseUrl declared = .ok normalized) :
    (createBoardDeclaredSummary normalized).isSome = normalized.isSome := by
  obtain ⟨os, ts, -, -, hn⟩ := normalizeBoardWidgetDeclared_eq_ok h
  unfold createBoardDeclaredSummary
  rw [hn, origins_compactDeclared, tools_compactDeclared]
  split_ifs with hnone
  · rw [hnone.1, hnone.2]
    rfl
  · split
    · rename_i hlines
      simp only [List.append_eq_nil_iff, List.map_eq_nil_iff] at hlines
      exact absurd hlines hnone
    · rfl

theorem putDeclared_summary (h : putDeclared host params = .ok declared) :
    (createBoardDeclaredSummary declared).isSome = declared.isSome := by
  unfold putDeclared at h
  split at h
  · rw [← Except.ok.inj h]
    rfl
  · exact summary_isSome h

theorem inserted_field {β : Type*} (f : BoardWidget Props → β)
    (hf : ∀ target source : BoardWidget Props, f (target.assign source) = f source)
    (widget : BoardWidget Props) : f (inserted prior widget) = f widget := by
  unfold inserted
  split
  · exact hf _ _
  · rfl

/-- A field that `Object.assign` overwrites, on the widget a put leaves. -/
theorem putResult_field {β : Type*} (f : BoardWidget Props → β)
    (hf : ∀ target source : BoardWidget Props, f (target.assign source) = f source)
    (hc : ∀ widget : BoardWidget Props, f widget.clearDeclared = f widget) :
    f (putResult host prior params tabId position declared context) =
      f (putWidgetValue host params tabId (prior.widgets.find? (·.name = params.name)) position
        declared context) := by
  unfold putResult
  simp only
  split_ifs
  · exact inserted_field f hf _
  · rw [hc, inserted_field f hf]

theorem putResult_contentKind :
    (putResult host prior params tabId position declared context).contentKind =
      params.content.kind :=
  putResult_field (·.contentKind) (fun _ _ => rfl) fun _ => rfl

theorem putResult_grantState :
    (putResult host prior params tabId position declared context).grantState =
      putGrantState params.content declared (preservesGrant host params.content declared
        (prior.widgets.find? (·.name = params.name)) context) :=
  putResult_field (·.grantState) (fun _ _ => rfl) fun _ => rfl

theorem putResult_declared (h : putDeclared host params = .ok declared) :
    (putResult host prior params tabId position declared context).declared = declared := by
  have hsummary := putDeclared_summary h
  unfold putResult
  simp only
  cases declared with
  | none => rfl
  | some d =>
    rw [if_pos (by rw [hsummary, Option.isSome_some])]
    unfold inserted
    split <;> rfl

theorem putResult_declaredSummary :
    (putResult host prior params tabId position declared context).declaredSummary =
      createBoardDeclaredSummary declared := by
  have hvalue : ∀ existing, (putWidgetValue host params tabId existing position declared
      context).declaredSummary = createBoardDeclaredSummary declared := fun _ => rfl
  unfold putResult
  simp only
  split_ifs with hsome
  · obtain ⟨lines, hlines⟩ := Option.isSome_iff_exists.mp hsome
    unfold inserted
    split
    · change Option.or _ _ = _
      rw [hvalue, hlines]
      rfl
    · exact hvalue _
  · rw [Option.not_isSome_iff_eq_none.mp hsome]
    rfl

/-- Only an interactive app is left with a grant to decide on. -/
theorem interactive_of_putResult {descriptor : BoardMcpAppDescriptor} {interactive : Bool}
    (hcontent : params.content = .mcpApp descriptor interactive)
    (h : (putResult host prior params tabId position declared context).grantState ≠ .none) :
    interactive = true := by
  rw [putResult_grantState, hcontent] at h
  by_contra hinteractive
  simp [putGrantState, preservesGrant, hinteractive] at h

/-- The content a put may keep granted: the granted HTML, an interactive app. -/
def ContentKept (host : Host Props) (content : BoardWidgetContent Props)
    (grantedSha256 : Option String) : Prop :=
  match content with
  | .html html => grantedSha256 = some (host.sha256 html)
  | .mcpApp _ interactive => interactive = true
  | .plugin _ _ => False

/-- A put that leaves a widget granted found it granted, and covering what it puts. -/
theorem granted_of_putResult
    (h : (putResult host prior params tabId position declared context).grantState = .granted) :
    context.grantScopeMatches = true ∧
      (∃ existing, prior.widgets.find? (·.name = params.name) = some existing ∧
        existing.grantState = .granted ∧
          boardDeclarationIsSubset declared existing.declared = true) ∧
      ContentKept host params.content context.grantedSha256 := by
  rw [putResult_grantState] at h
  have hpreserves : preservesGrant host params.content declared
      (prior.widgets.find? (·.name = params.name)) context = true := by
    unfold putGrantState at h
    split at h
    · cases h
    · split_ifs at h
      assumption
    · split_ifs at h
      assumption
  simp only [preservesGrant, Bool.and_eq_true, decide_eq_true_eq] at hpreserves
  obtain ⟨⟨⟨⟨⟨-, hscope⟩, hinteractive⟩, hgranted⟩, hsha⟩, hsubset⟩ := hpreserves
  refine ⟨hscope, ?_, ?_⟩
  · obtain ⟨existing, hexisting, hstate⟩ := Option.map_eq_some_iff.mp hgranted
    rw [hexisting] at hsubset
    exact ⟨existing, hexisting, hstate, hsubset⟩
  · unfold ContentKept
    cases hcontent : params.content with
    | html html => simpa [hcontent] using hsha
    | mcpApp descriptor interactive => simpa [hcontent] using hinteractive
    | plugin pluginKind props =>
      rw [hcontent] at h
      cases h

end Put

end Flashclaw.Board
