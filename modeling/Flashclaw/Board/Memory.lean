import Flashclaw.Board.Authority

/-!
# Boards: the in-memory store, invariant and authority
-/

namespace Flashclaw.Board

variable {Props : Type}

open BoardLayout Lists Results

/-- The document that belongs to a widget. -/
def DocumentOk (host : Host Props) (widget : BoardWidget Props) :
    Option BoardWidgetDocument → Prop
  | some (.html document) => widget.contentKind = .html ∧
      document.sha256 = host.sha256 document.html ∧ document.grantState = widget.grantState
  | some (.mcpApp document) => widget.contentKind = .mcpApp ∧
      (widget.grantState ≠ .none → document.interactive = true)
  | none => widget.contentKind = .plugin ∧ widget.grantState = .none

/-- The invariant of a stored board. -/
structure BoardOk (host : Host Props) (sessionKey : String) (board : StoredBoard Props) :
    Prop where
  sessionKey : board.snapshot.sessionKey = sessionKey
  settled : board.snapshot.toBoardLayout.Settled
  width : board.snapshot.widgets.length ≤ boardMaxWidgets
  tabs : board.snapshot.tabs ≠ []
  documents : ∀ widget ∈ board.snapshot.widgets,
    DocumentOk host widget (board.documents.get? widget.name)

/-- The invariant of the in-memory store. -/
def MemoryOk (host : Host Props) (boards : InMemoryBoardStore Props) : Prop :=
  ∀ sessionKey board, boards.get? sessionKey = some board → BoardOk host sessionKey board

theorem empty_settled : (⟨[], []⟩ : BoardLayout Props).Settled :=
  ⟨⟨⟨by simp [tabIds], by simp [names], by simp, by simp⟩, by simp, by simp [onTab]⟩, .nil⟩

namespace MemoryOk

variable {host : Host Props} {boards : InMemoryBoardStore Props}

theorem empty : MemoryOk host JsMap.empty := fun _ _ h => by cases h

/-- What the invariant says of a snapshot and its documents, stored or empty. -/
theorem snapshot (h : MemoryOk host boards) (sessionKey : String) :
    (boards.getSnapshot sessionKey).sessionKey = sessionKey ∧
      (boards.getSnapshot sessionKey).toBoardLayout.Settled ∧
      (boards.getSnapshot sessionKey).widgets.length ≤ boardMaxWidgets ∧
      ∀ widget ∈ (boards.getSnapshot sessionKey).widgets,
        DocumentOk host widget ((boards.documents sessionKey).get? widget.name) := by
  unfold InMemoryBoardStore.getSnapshot InMemoryBoardStore.documents
  cases hb : boards.get? sessionKey with
  | none => exact ⟨rfl, empty_settled, Nat.zero_le _, fun widget hm => by cases hm⟩
  | some board =>
    obtain ⟨hkey, hsettled, hwidth, -, hdocuments⟩ := h sessionKey board hb
    exact ⟨hkey, hsettled, hwidth, hdocuments⟩

theorem set (h : MemoryOk host boards) {sessionKey : String} {board : StoredBoard Props}
    (hboard : BoardOk host sessionKey board) : MemoryOk host (boards.set sessionKey board) := by
  intro key b hb
  rw [JsMap.get?_set] at hb
  split_ifs at hb with hkey
  · obtain rfl := Option.some.inj hb
    exact hkey ▸ hboard
  · exact h key b hb

theorem delete (h : MemoryOk host boards) (sessionKey : String) :
    MemoryOk host (boards.delete sessionKey) := by
  intro key b hb
  rw [JsMap.get?_delete] at hb
  split_ifs at hb
  exact h key b hb

end MemoryOk

theorem DocumentOk.congr {host : Host Props} {widget widget' : BoardWidget Props}
    {document : Option BoardWidgetDocument} (h : DocumentOk host widget document)
    (hk : widget'.contentKind = widget.contentKind) (hg : widget'.grantState = widget.grantState) :
    DocumentOk host widget' document := by
  unfold DocumentOk at *
  rw [hk, hg]
  exact h

def scopeOf (host : Host Props) : Option BoardWidgetDocument → GrantScope
  | some (.html document) => .html (host.sha256 document.html)
  | some (.mcpApp document) => .mcpApp document.descriptor.serverName document.interactive
  | none => .plugin

namespace InMemoryBoardStore

/-- The authority of a widget of the in-memory store. -/
def authority (host : Host Props) (boards : InMemoryBoardStore Props) (sessionKey name : String) :
    Option Authority :=
  ((boards.getSnapshot sessionKey).widgets.find? (·.name = name)).map fun widget =>
    ⟨widget.grantState, widget.declared, scopeOf host ((boards.documents sessionKey).get? name)⟩

variable {host : Host Props} {boards next : InMemoryBoardStore Props}
  {snapshot : BoardSnapshot Props}

theorem authority_eq_some (h : MemoryOk host boards) {sessionKey name : String} {a : Authority} :
    boards.authority host sessionKey name = some a ↔
      ∃ widget ∈ (boards.getSnapshot sessionKey).widgets, widget.name = name ∧
        a = ⟨widget.grantState, widget.declared,
          scopeOf host ((boards.documents sessionKey).get? name)⟩ := by
  have hn := (h.snapshot sessionKey).2.1.names
  unfold authority
  rw [Option.map_eq_some_iff]
  constructor
  · rintro ⟨widget, hw, rfl⟩
    obtain ⟨hm, hname⟩ := (find?_eq_some_iff hn).mp hw
    exact ⟨widget, hm, hname, rfl⟩
  · rintro ⟨widget, hm, hname, rfl⟩
    exact ⟨widget, (find?_eq_some_iff hn).mpr ⟨hm, hname⟩, rfl⟩

/-- What is granted is covered by its own grant. -/
theorem covers_self (h : MemoryOk host boards) {sessionKey name : String} {a : Authority}
    (ha : boards.authority host sessionKey name = some a) (hg : a.grantState = .granted) :
    a.Covers a := by
  obtain ⟨widget, hm, rfl, rfl⟩ := (authority_eq_some h).mp ha
  have hdocument := (h.snapshot sessionKey).2.2.2 widget hm
  refine ⟨List.Subset.refl _, List.Subset.refl _, ?_⟩
  simp only at hg
  cases hd : (boards.documents sessionKey).get? widget.name with
  | none =>
    rw [hd] at hdocument
    exact absurd (hg.symm.trans hdocument.2) (by simp)
  | some document =>
    rw [hd] at hdocument
    cases document with
    | html document => rfl
    | mcpApp document => exact ⟨hdocument.2 (by rw [hg]; simp), _, rfl⟩

/-- The session of a call is the only one it writes. -/
theorem authority_congr {sessionKey : String}
    (hb : next.get? sessionKey = boards.get? sessionKey) (name : String) :
    next.authority host sessionKey name = boards.authority host sessionKey name := by
  unfold authority getSnapshot documents
  rw [hb]

theorem get?_set_delete_ne {sessionKey key : String} (hne : key ≠ sessionKey)
    (board : StoredBoard Props) :
    (boards.set sessionKey board).get? key = boards.get? key ∧
      (JsMap.delete boards sessionKey).get? key = boards.get? key := by
  rw [JsMap.get?_set_ne _ _ (Ne.symm hne), JsMap.get?_delete, if_neg hne]
  exact ⟨rfl, rfl⟩

theorem getSnapshot_set (sessionKey : String) (board : StoredBoard Props) :
    getSnapshot (boards.set sessionKey board) sessionKey = board.snapshot ∧
      documents (boards.set sessionKey board) sessionKey = board.documents := by
  unfold getSnapshot documents
  rw [JsMap.get?_set_self]
  exact ⟨rfl, rfl⟩

theorem getSnapshot_delete (sessionKey : String) :
    getSnapshot (JsMap.delete boards sessionKey) sessionKey = emptyBoardSnapshot sessionKey := by
  unfold getSnapshot
  rw [JsMap.get?_delete, if_pos rfl]
  rfl

/-- A widget after a batch has the content and the grant it had. -/
theorem batch_widget {layout layout' : BoardLayout Props} {ops : List BoardOp}
    (h : BatchContents layout ops layout') {widget' : BoardWidget Props}
    (hm : widget' ∈ layout'.widgets) :
    ∃ widget ∈ layout.widgets, widget.name = widget'.name ∧
      widget'.contentKind = widget.contentKind ∧ widget'.grantState = widget.grantState ∧
      widget'.declared = widget.declared := by
  obtain ⟨widget, hw, hname, -, hunplaced⟩ := h.origin hm
  have hfield {β : Type} (f : BoardWidget Props → β)
      (hf : ∀ w a b c, f (BoardWidget.resize w a b c) = f w) (hu : ∀ w, f w.unplaced = f w) :
      f widget' = f widget := by
    rw [← hu widget', hunplaced, touches_field hf, hu]
  exact ⟨widget, hw, hname, hfield (·.contentKind) (fun _ _ _ _ => rfl) fun _ => rfl,
    hfield (·.grantState) (fun _ _ _ _ => rfl) fun _ => rfl,
    hfield (·.declared) (fun _ _ _ _ => rfl) fun _ => rfl⟩

/-- Operations change no authority. -/
theorem applyOps_authority (h : MemoryOk host boards) {sessionKey : String} {ops : List BoardOp}
    (he : boards.applyOps sessionKey ops = .ok (snapshot, next)) :
    MemoryOk host next ∧ ∀ key name a, next.authority host key name = some a →
      boards.authority host key name = some a := by
  unfold applyOps at he
  simp only at he
  split_ifs at he with hops
  · obtain ⟨-, rfl⟩ := Prod.mk.inj (Except.ok.inj he)
    exact ⟨h, fun _ _ _ ha => ha⟩
  obtain ⟨layout, hlayout, he⟩ := bind_eq_ok.mp he
  obtain ⟨-, hnext⟩ := Prod.mk.inj (Except.ok.inj he)
  obtain ⟨hkey, hsettled, hwidth, hdocuments⟩ := h.snapshot sessionKey
  have hcontents := batchContents_of_ok hsettled.toNormal hlayout
  split_ifs at hnext with hempty
  · subst hnext
    have hok := h.delete sessionKey
    refine ⟨hok, fun key name a ha => ?_⟩
    by_cases hk : key = sessionKey
    · subst hk
      obtain ⟨widget, hm, -⟩ := (authority_eq_some hok).mp ha
      rw [getSnapshot_delete] at hm
      cases hm
    · rwa [authority_congr ((get?_set_delete_ne hk ⟨emptyBoardSnapshot "", .empty⟩).2)] at ha
  · -- the batch keeps the grants, and drops the documents of the widgets it removed
    have hboard : BoardOk host sessionKey ⟨⟨layout, sessionKey,
        (boards.getSnapshot sessionKey).revision + 1⟩, (boards.documents sessionKey).filterKeys
          fun name => name ∈ layout.widgets.map (·.name)⟩ := by
      refine ⟨rfl, hcontents.settled, ?_, ?_, ?_⟩
      · have hlen := hcontents.unplaced.length_eq
        rw [List.length_map, List.length_map] at hlen
        change layout.widgets.length ≤ _
        rw [hlen]
        exact (List.length_filter_le _ _).trans hwidth
      · intro htabs
        refine hempty ⟨by simpa using htabs, ?_⟩
        rw [List.length_eq_zero_iff]
        refine List.eq_nil_iff_forall_not_mem.mpr fun w hm => ?_
        have := hcontents.settled.onTabs w hm
        simp [tabIds, show layout.tabs = [] from htabs] at this
      · intro widget hm
        obtain ⟨w, hw, hname, hkind, hgrant, -⟩ := batch_widget hcontents hm
        rw [JsMap.get?_filterKeys, if_pos (by simpa using ⟨widget, hm, rfl⟩), ← hname]
        exact (hdocuments w hw).congr hkind hgrant
    subst hnext
    have hok := h.set hboard
    refine ⟨hok, fun key name a ha => ?_⟩
    by_cases hk : key = sessionKey
    · subst hk
      obtain ⟨widget, hm, hname, rfl⟩ := (authority_eq_some hok).mp ha
      rw [(getSnapshot_set _ _).1] at hm
      obtain ⟨w, hw, hwname, -, hgrant, hdeclared⟩ := batch_widget hcontents hm
      refine (authority_eq_some h).mpr ⟨w, hw, hwname.trans hname, ?_⟩
      rw [(getSnapshot_set _ _).2, JsMap.get?_filterKeys,
        if_pos (by simpa using ⟨widget, hm, hname⟩), hgrant, hdeclared]
    · rwa [authority_congr ((get?_set_delete_ne hk _).1)] at ha

/-- What a put makes of the store. -/
theorem putWidget_eq_ok (h : MemoryOk host boards) {params : BoardWidgetPutParams Props}
    {instanceId : HexId} (he : boards.putWidget host params instanceId = .ok (snapshot, next)) :
    ∃ declared tabId position kept,
      normalizeBoardWidgetDeclared host.parseUrl params.declared = .ok declared ∧
      validateContent host { params with declared } = .ok () ∧
      putDeclared host { params with declared } = .ok kept ∧
      PutSnapshot (boards.getSnapshot params.sessionKey) params.sessionKey
        (putResult host (boards.getSnapshot params.sessionKey).toBoardLayout
          { params with declared } tabId position kept
          { grantScopeMatches :=
              grantScopeMatches ((boards.documents params.sessionKey).get? params.name) params.content
            grantedSha256 := grantedSha256 ((boards.documents params.sessionKey).get? params.name)
            instanceId := instanceId.value }) snapshot ∧
      ∃ widget, snapshot.widgets.find? (·.name = params.name) = some widget ∧
        next = boards.set params.sessionKey ⟨snapshot,
          setDocument (boards.documents params.sessionKey) params.name
            (createBoardWidgetDocument host params.content widget.revision widget.grantState
              declared instanceId.value)⟩ := by
  unfold putWidget at he
  obtain ⟨declared, hdeclared, he⟩ := bind_eq_ok.mp he
  obtain ⟨made, hmade, he⟩ := bind_eq_ok.mp he
  obtain ⟨rfl, hnext⟩ := Prod.mk.inj (Except.ok.inj he)
  obtain ⟨-, hsettled, hwidth, -⟩ := h.snapshot params.sessionKey
  obtain ⟨tabId, position, kept, hvalid, hkept, hput⟩ := put_eq_ok hsettled hwidth hmade
  obtain ⟨widget, hfind, -⟩ := hput.exists_put
  rw [putResult_name] at hfind
  refine ⟨declared, tabId, position, kept, hdeclared, hvalid, hkept, hput, widget, hfind, ?_⟩
  rw [hfind] at hnext
  exact hnext.symm

theorem get?_setDocument (documents : JsMap String BoardWidgetDocument) (name key : String)
    (document : Option BoardWidgetDocument) :
    (setDocument documents name document).get? key =
      if key = name then document else documents.get? key := by
  cases document with
  | none => exact JsMap.get?_delete _ _ _
  | some document =>
    refine (JsMap.get?_set _ _ _ _).trans ?_
    simp [eq_comm]

theorem documentOk_create {content : BoardWidgetContent Props} {widget : BoardWidget Props}
    (hkind : widget.contentKind = content.kind)
    (hinteractive : ∀ descriptor interactive, content = .mcpApp descriptor interactive →
      widget.grantState ≠ .none → interactive = true)
    (hplugin : content.kind = .plugin → widget.grantState = .none) (revision : ℕ)
    (declared : Option BoardWidgetDeclared) (instanceId : String) :
    DocumentOk host widget (createBoardWidgetDocument host content revision widget.grantState
      declared instanceId) := by
  cases content with
  | html html => exact ⟨hkind, rfl, rfl⟩
  | mcpApp descriptor interactive => exact ⟨hkind, hinteractive descriptor interactive rfl⟩
  | plugin pluginKind props => exact ⟨hkind, hplugin rfl⟩

/-- The scope of a granted widget that a put may keep granted. -/
theorem scope_of_context {existing : BoardWidget Props} {document : Option BoardWidgetDocument}
    (hok : DocumentOk host existing document) (hgranted : existing.grantState = .granted)
    {content : BoardWidgetContent Props} (hscope : Board.grantScopeMatches document content = true)
    (hcontent : ContentKept host content (grantedSha256 document))
    (revision : ℕ) (grantState : GrantState) (declared : Option BoardWidgetDeclared)
    (instanceId : String) :
    match scopeOf host (createBoardWidgetDocument host content revision grantState declared
      instanceId) with
    | .html sha256 => scopeOf host document = .html sha256
    | .mcpApp serverName interactive =>
      interactive = true ∧ ∃ earlier, scopeOf host document = .mcpApp serverName earlier
    | .plugin => False := by
  cases content with
  | plugin pluginKind props => exact hcontent
  | html html =>
    cases document with
    | none => exact absurd hcontent (by simp [ContentKept, grantedSha256])
    | some document =>
      cases document with
      | mcpApp document => exact absurd hscope (by simp [Board.grantScopeMatches])
      | html document =>
        simp only [ContentKept, grantedSha256] at hcontent
        split_ifs at hcontent
        rw [Option.some.injEq, hok.2.1] at hcontent
        exact congrArg GrantScope.html hcontent
  | mcpApp descriptor interactive =>
    cases document with
    | none => exact absurd (hgranted.symm.trans hok.2) (by simp)
    | some document =>
      cases document with
      | html document => exact absurd hscope (by simp [Board.grantScopeMatches])
      | mcpApp document =>
        refine ⟨hcontent, document.interactive, ?_⟩
        have hserver : document.descriptor.serverName = descriptor.serverName := by
          simpa [Board.grantScopeMatches] using hscope
        exact congrArg (GrantScope.mcpApp · _) hserver

theorem putWidget_ok (h : MemoryOk host boards) {params : BoardWidgetPutParams Props}
    {instanceId : HexId} (he : boards.putWidget host params instanceId = .ok (snapshot, next)) :
    MemoryOk host next := by
  obtain ⟨declared, tabId, position, kept, -, -, hkept, hput, widget, hfind, rfl⟩ :=
    putWidget_eq_ok h he
  obtain ⟨-, hsettled, -, hdocuments⟩ := h.snapshot params.sessionKey
  obtain ⟨hwm, hwname⟩ := (find?_eq_some_iff hput.settled.names).mp hfind
  have hwidget := unplaced_of_put hput hwm (by rw [hwname, putResult_name])
  have hkind : widget.contentKind = params.content.kind :=
    (field_of_unplaced (fun _ => rfl) hwidget).trans putResult_contentKind
  have hgrant := field_of_unplaced (f := (·.grantState)) (fun _ => rfl) hwidget
  have hdocument := @documentOk_create _ host _ _ hkind
    (fun _ _ hcontent hw => @interactive_of_putResult _ _ _ { params with declared } _ _ _ _ _ _
      hcontent (by rwa [hgrant] at hw))
    (fun hplugin => by
      rw [hgrant, putResult_grantState]
      cases hcontent : params.content <;> simp_all [BoardWidgetContent.kind, putGrantState])
    widget.revision declared instanceId.value
  refine h.set ⟨hput.sessionKey, hput.settled, hput.width, ?_, fun w hm => ?_⟩
  · change snapshot.tabs ≠ []
    rw [hput.tabs]
    exact (withMainTab_settled hsettled).2.2
  · simp only
    rw [get?_setDocument]
    split_ifs with hw
    · have hsame := unplaced_of_put hput hm (by rw [hw, putResult_name])
      have heq := hsame.trans hwidget.symm
      exact hdocument.congr (field_of_unplaced (fun _ => rfl) heq)
        (field_of_unplaced (fun _ => rfl) heq)
    · rcases hput.cases hm with he | ⟨v, hv, -, he⟩
      · exact absurd ((name_eq_of_unplaced he).trans (putResult_name ..)) hw
      · rw [name_eq_of_unplaced he]
        exact (hdocuments v hv).congr (field_of_unplaced (fun _ => rfl) he)
          (field_of_unplaced (fun _ => rfl) he)

/-- A put widens no grant. -/
theorem putWidget_authority (h : MemoryOk host boards) {params : BoardWidgetPutParams Props}
    {instanceId : HexId} (he : boards.putWidget host params instanceId = .ok (snapshot, next))
    {key name : String} {a : Authority} (ha : next.authority host key name = some a)
    (hgranted : a.grantState = .granted) :
    ∃ b, boards.authority host key name = some b ∧ b.grantState = .granted ∧ b.Covers a := by
  have hok := putWidget_ok h he
  obtain ⟨declared, tabId, position, kept, -, -, hkept, hput, widget, hfind, rfl⟩ :=
    putWidget_eq_ok h he
  obtain ⟨-, hsettled, -, hdocuments⟩ := h.snapshot params.sessionKey
  by_cases hk : key = params.sessionKey
  · subst hk
    obtain ⟨w, hm, hw, hauthority⟩ := (authority_eq_some hok).mp ha
    rw [(getSnapshot_set _ _).1] at hm
    rw [(getSnapshot_set _ _).2, get?_setDocument] at hauthority
    split_ifs at hauthority with hname
    · have hsame := unplaced_of_put hput hm (by rw [hw, hname, putResult_name])
      have hwg : w.grantState = .granted := by
        rw [← hgranted, hauthority]
      have hg := (field_of_unplaced (f := (·.grantState)) (fun _ => rfl) hsame).symm.trans hwg
      obtain ⟨hscope, ⟨existing, hexisting, hstate, hsubset⟩, hcontent⟩ := granted_of_putResult hg
      obtain ⟨hem, hename⟩ := (find?_eq_some_iff hsettled.names).mp hexisting
      have hdocument := hdocuments existing hem
      rw [hename] at hdocument
      have hdeclared : w.declared = kept :=
        (field_of_unplaced (fun _ => rfl) hsame).trans (putResult_declared hkept)
      refine ⟨_, (authority_eq_some h).mpr ⟨existing, hem, hename.trans hname.symm, rfl⟩, hstate, ?_⟩
      obtain ⟨horigins, htools⟩ := subset_of_isSubset hsubset
      rw [hauthority, hname]
      refine ⟨by rwa [hdeclared], by rwa [hdeclared], ?_⟩
      exact scope_of_context hdocument hstate hscope hcontent _ _ _ _
    · rcases hput.cases hm with he | ⟨v, hv, -, he⟩
      · exact absurd (hw.symm.trans ((name_eq_of_unplaced he).trans (putResult_name ..))) hname
      · have hb : boards.authority host params.sessionKey name = some a := by
          refine (authority_eq_some h).mpr ⟨v, hv, (name_eq_of_unplaced he).symm.trans hw, ?_⟩
          rw [hauthority, field_of_unplaced (f := (·.grantState)) (fun _ => rfl) he,
            field_of_unplaced (f := (·.declared)) (fun _ => rfl) he]
        exact ⟨a, hb, hgranted, covers_self h hb hgranted⟩
  · rw [authority_congr ((get?_set_delete_ne hk _).1)] at ha
    exact ⟨a, ha, hgranted, covers_self h ha hgranted⟩

/-- What a decision makes of the store. -/
theorem grant_eq_ok {sessionKey name : String} {decision : GrantDecision} {revision : ℕ}
    {instanceId : Option String}
    (he : boards.grant sessionKey name decision revision instanceId = .ok (snapshot, next)) :
    createBoardGrantSnapshot (boards.getSnapshot sessionKey) name decision revision instanceId =
        .ok snapshot ∧
      ∃ documents : JsMap String BoardWidgetDocument,
        (∀ key, documents.get? key = if key = name then
          ((boards.documents sessionKey).get? name).map (·.withGrantState decision.state)
            else (boards.documents sessionKey).get? key) ∧
        (boards.get? sessionKey).isSome ∧ next = boards.set sessionKey ⟨snapshot, documents⟩ := by
  unfold grant at he
  unfold getSnapshot InMemoryBoardStore.documents
  split at he
  · cases he
  · rename_i current hcurrent
    obtain ⟨made, hmade, he⟩ := bind_eq_ok.mp he
    obtain ⟨rfl, hnext⟩ := Prod.mk.inj (Except.ok.inj he)
    rw [hcurrent]
    refine ⟨hmade, _, fun key => ?_, rfl, hnext.symm⟩
    simp only [Option.map_some, Option.getD_some]
    cases hd : current.documents.get? name with
    | none =>
      split_ifs with hk
      · rw [hk, hd]
        rfl
      · rfl
    | some document =>
      simp only
      rw [JsMap.get?_set]
      simp [eq_comm]

theorem documentOk_decide {widget : BoardWidget Props} {document : Option BoardWidgetDocument}
    (h : DocumentOk host widget document) (hpending : widget.grantState = .pending)
    (decision : GrantDecision) : DocumentOk host (widget.decide decision)
      (document.map (·.withGrantState decision.state)) := by
  cases document with
  | none => exact absurd (hpending.symm.trans h.2) (by simp)
  | some document =>
    cases document with
    | html document => exact ⟨h.1, h.2.1, rfl⟩
    | mcpApp document => exact ⟨h.1, fun _ => h.2 (by simp [hpending])⟩

theorem grant_ok (h : MemoryOk host boards) {sessionKey name : String} {decision : GrantDecision}
    {revision : ℕ} {instanceId : Option String}
    (he : boards.grant sessionKey name decision revision instanceId = .ok (snapshot, next)) :
    MemoryOk host next := by
  obtain ⟨hmade, documents, hget, hstored, rfl⟩ := grant_eq_ok he
  obtain ⟨⟨widget, hfind, hpending⟩, rfl⟩ := Board.grant_eq_ok hmade
  obtain ⟨hkey, hsettled, hwidth, hdocuments⟩ := h.snapshot sessionKey
  refine h.set ⟨hkey, modifyWidget_settled hsettled _ fun _ => rfl, ?_, ?_, fun w' hm => ?_⟩
  · change (modifyWidget _ _ _).widgets.length ≤ _
    rwa [modifyWidget, List.length_map]
  · obtain ⟨board, hboard⟩ := Option.isSome_iff_exists.mp hstored
    have htabs := (h sessionKey board hboard).tabs
    change (boards.getSnapshot sessionKey).tabs ≠ []
    unfold getSnapshot
    rwa [hboard]
  · obtain ⟨w, hw, rfl⟩ := mem_modifyWidget.mp hm
    simp only
    by_cases hname : w.name = name
    · obtain rfl : w = widget := by
        have := (find?_eq_some_iff hsettled.names).mpr ⟨hw, hname⟩
        exact Option.some.inj (this.symm.trans hfind)
      have hdocument := hdocuments w hw
      rw [hname] at hdocument
      rw [if_pos hname, hget, if_pos (show (w.decide decision).name = name from hname)]
      exact documentOk_decide hdocument hpending decision
    · rw [if_neg hname, hget, if_neg hname]
      exact hdocuments w hw

/-- A decision grants its widget, or changes no authority to a granted one. -/
theorem grant_authority (h : MemoryOk host boards) {sessionKey name : String}
    {decision : GrantDecision} {revision : ℕ} {instanceId : Option String}
    (he : boards.grant sessionKey name decision revision instanceId = .ok (snapshot, next))
    {key widgetName : String} {a : Authority}
    (ha : next.authority host key widgetName = some a) (hgranted : a.grantState = .granted) :
    (key = sessionKey ∧ widgetName = name ∧ decision = .granted) ∨
      boards.authority host key widgetName = some a := by
  have hok := grant_ok h he
  obtain ⟨hmade, documents, hget, hstored, rfl⟩ := grant_eq_ok he
  obtain ⟨-, rfl⟩ := Board.grant_eq_ok hmade
  by_cases hk : key = sessionKey
  · subst hk
    obtain ⟨w', hm, hw, rfl⟩ := (authority_eq_some hok).mp ha
    rw [(getSnapshot_set _ _).1] at hm
    obtain ⟨w, hwm, rfl⟩ := mem_modifyWidget.mp hm
    by_cases hname : w.name = name
    · rw [if_pos hname] at hw hgranted
      refine .inl ⟨rfl, hw.symm.trans hname, ?_⟩
      cases decision with
      | granted => rfl
      | rejected => cases hgranted
    · rw [if_neg hname] at hw
      refine .inr ((authority_eq_some h).mpr ⟨w, hwm, hw, ?_⟩)
      rw [(getSnapshot_set _ _).2, if_neg hname]
      simp only
      rw [hget, if_neg (hw ▸ hname)]
  · exact .inr (by rwa [authority_congr ((get?_set_delete_ne hk _).1)] at ha)

/-- The call that grants a widget. -/
def Grants (sessionKey name : String) (boards : InMemoryBoardStore Props) (call : BoardCall Props) :
    Prop :=
  ∃ revision instanceId snapshot next,
    call = .grant sessionKey name .granted revision instanceId ∧
      boards.grant sessionKey name .granted revision instanceId = .ok (snapshot, next)

/-- What a call does to the authority of a widget that is granted after it. -/
theorem call_authority (h : MemoryOk host boards) (call : BoardCall Props) :
    MemoryOk host (boards.call host call).2 ∧ ∀ key name a,
      authority host (boards.call host call).2 key name = some a → a.grantState = .granted →
        Grants key name boards call ∧ a.Covers a ∨
          ∃ b, boards.authority host key name = some b ∧ b.grantState = .granted ∧ b.Covers a := by
  have hsame {next : InMemoryBoardStore Props} (hnext : next = boards) :
      MemoryOk host next ∧ ∀ key name a, next.authority host key name = some a →
        a.grantState = .granted → Grants key name boards call ∧ a.Covers a ∨
          ∃ b, boards.authority host key name = some b ∧ b.grantState = .granted ∧ b.Covers a := by
    subst hnext
    exact ⟨h, fun key name a ha hg => .inr ⟨a, ha, hg, covers_self h ha hg⟩⟩
  cases call with
  | getSnapshot sessionKey => exact hsame rfl
  | applyOps sessionKey ops =>
    cases he : boards.applyOps sessionKey ops with
    | error e => exact hsame (by simp [InMemoryBoardStore.call, he, call.settle])
    | ok result =>
      obtain ⟨hok, hauthority⟩ := applyOps_authority h he
      rw [show (boards.call host (.applyOps sessionKey ops)).2 = result.2 by
        simp [InMemoryBoardStore.call, he, call.settle]]
      refine ⟨hok, fun key name a ha hg => .inr ?_⟩
      have hb := hauthority key name a ha
      exact ⟨a, hb, hg, covers_self h hb hg⟩
  | putWidget params instanceId =>
    cases he : boards.putWidget host params instanceId with
    | error e => exact hsame (by simp [InMemoryBoardStore.call, he, call.settle])
    | ok result =>
      rw [show (boards.call host (.putWidget params instanceId)).2 = result.2 by
        simp [InMemoryBoardStore.call, he, call.settle]]
      exact ⟨putWidget_ok h he, fun key name a ha hg => .inr (putWidget_authority h he ha hg)⟩
  | grant sessionKey name decision revision instanceId =>
    cases he : boards.grant sessionKey name decision revision instanceId with
    | error e => exact hsame (by simp [InMemoryBoardStore.call, he, call.settle])
    | ok result =>
      rw [show (boards.call host (.grant sessionKey name decision revision instanceId)).2 =
        result.2 by simp [InMemoryBoardStore.call, he, call.settle]]
      refine ⟨grant_ok h he, fun key widgetName a ha hg => ?_⟩
      rcases grant_authority h he ha hg with ⟨rfl, rfl, rfl⟩ | hb
      · exact .inl ⟨⟨revision, instanceId, result.1, result.2, rfl, he⟩,
          covers_self (grant_ok h he) ha hg⟩
      · exact .inr ⟨a, hb, hg, covers_self h hb hg⟩

end InMemoryBoardStore

end Flashclaw.Board
