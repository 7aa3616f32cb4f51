import Flashclaw.Board.Grants

/-!
# Boards: the two stores against each other

The in-memory store merges a put into the widget it replaces; the SQLite store
reads the fields that depend on the content off the new row.  As long as no put
leaves a field of the replaced widget's content behind, the two agree.
-/

namespace Flashclaw.Board

variable {Props : Type}

open BoardLayout Lists Results Provenance

variable {host : SqliteHost Props}

/-- A put of the content leaves nothing of the replaced widget's content behind, and its plugin
props survive their JSON. -/
def Replaces (host : SqliteHost Props) (existing : Option (BoardWidget Props)) :
    BoardWidgetContent Props → Prop
  | .plugin _ props =>
    existing.bind (·.instanceId) = none ∧ (props = none → existing.bind (·.props) = none) ∧
      props.map (fun props => host.parse (host.stringify props)) = props
  | _ => existing.bind (·.pluginKind) = none ∧ existing.bind (·.props) = none

/-- A call on an existing session that replaces what it puts on. -/
def CallOk (host : SqliteHost Props) (sessions : List String) (boards : InMemoryBoardStore Props)
    (call : BoardCall Props) : Prop :=
  call.sessionKey ∈ sessions ∧
    match call with
    | .putWidget params _ => Replaces host
        ((boards.getSnapshot params.sessionKey).widgets.find? (·.name = params.name)) params.content
    | _ => True

/-- The document and the row of one widget. -/
def DocumentAgrees (document : Option BoardWidgetDocument) (row : WidgetRow) : Prop :=
  match document with
  | some (.html document) => row.contentKind = .html ∧ row.sha256 = document.sha256
  | some (.mcpApp document) =>
    row.contentKind = .mcpApp ∧ row.descriptorJson = some (.mcpApp document.descriptor)
  | none => row.contentKind = .plugin

theorem DocumentAgrees.congr {document : Option BoardWidgetDocument} {row row' : WidgetRow}
    (h : DocumentAgrees document row) (hk : row'.contentKind = row.contentKind)
    (hsha : row'.sha256 = row.sha256) (hd : row'.descriptorJson = row.descriptorJson) :
    DocumentAgrees document row' := by
  unfold DocumentAgrees at *
  rw [hk, hsha, hd]
  exact h

/-- The rows hold the snapshots of the in-memory store, and its documents. -/
structure Agrees (host : SqliteHost Props) (boards : InMemoryBoardStore Props)
    (store : SqliteBoardStore) : Prop where
  memory : MemoryOk host.toHost boards
  holds : ∀ sessionKey, Holds host store.tables sessionKey (boards.getSnapshot sessionKey)
  documents : ∀ sessionKey name row, store.tables.widgets.get? (sessionKey, name) = some row →
    DocumentAgrees ((boards.documents sessionKey).get? name) row

theorem Agrees.empty (sessions : List String) :
    Agrees host JsMap.empty ⟨sessions, ⟨.empty, .empty⟩⟩ where
  memory := MemoryOk.empty
  holds sessionKey := Holds.empty sessionKey
  documents _ _ _ h := by cases h

namespace Agrees

variable {boards : InMemoryBoardStore Props} {store : SqliteBoardStore}

/-- Both stores know the same of the widget a put replaces, where it matters. -/
theorem preservesGrant (h : Agrees host boards store) (sessionKey name : String)
    (content : BoardWidgetContent Props) (declared : Option BoardWidgetDeclared) (id : String) :
    preservesGrant host.toHost content declared
        ((boards.getSnapshot sessionKey).widgets.find? (·.name = name))
        { grantScopeMatches :=
            grantScopeMatches ((boards.documents sessionKey).get? name) content
          grantedSha256 :=
            InMemoryBoardStore.grantedSha256 ((boards.documents sessionKey).get? name)
          instanceId := id } =
      Board.preservesGrant host.toHost content declared
        ((boards.getSnapshot sessionKey).widgets.find? (·.name = name))
        (SqliteBoardStore.putContext (store.tables.widgets.get? (sessionKey, name)) content id) := by
  have hwidgets := (h.holds sessionKey).widgets name
  cases hrow : store.tables.widgets.get? (sessionKey, name) with
  | none =>
    rw [hrow] at hwidgets
    rw [← hwidgets]
    simp [Board.preservesGrant]
  | some row =>
    rw [hrow] at hwidgets
    rw [← hwidgets]
    by_cases hgranted : (rowToWidget host name row).grantState = .granted
    swap
    · simp [Board.preservesGrant, hgranted]
    have hok := (h.holds sessionKey).rows name row hrow
    have hstate := SqliteBoardStore.granted_of_effective hgranted
    have hdocument := h.documents sessionKey name row hrow
    have hmemory := (h.memory.snapshot sessionKey).2.2.2 _ ((h.holds sessionKey).parse hrow)
    change DocumentOk _ _ ((boards.documents sessionKey).get? name) at hmemory
    cases hd : (boards.documents sessionKey).get? name with
    | none =>
      rw [hd] at hdocument
      exact absurd (hstate.symm.trans (hok.plugin hdocument)) (by simp)
    | some document =>
      rw [hd] at hdocument hmemory
      cases document with
      | html document =>
        obtain ⟨hkind, hsha⟩ := hdocument
        obtain ⟨-, -, -, -, hgrantedSha⟩ := hok.html hkind
        have hdoc : document.grantState = .granted := hmemory.2.2.trans hgranted
        cases content <;>
          simp [Board.preservesGrant, SqliteBoardStore.putContext, grantScopeMatches,
            SqliteBoardStore.grantScopeMatches, InMemoryBoardStore.grantedSha256, hkind, hdoc,
            hgrantedSha hstate, hsha]
      | mcpApp document =>
        obtain ⟨hkind, hdescriptor⟩ := hdocument
        cases content <;>
          simp [Board.preservesGrant, SqliteBoardStore.putContext, grantScopeMatches,
            SqliteBoardStore.grantScopeMatches, hkind, hdescriptor]

end Agrees

section Congruence

variable {prior : BoardSnapshot Props} {params : BoardWidgetPutParams Props}
  {context context' : PutContext}

theorem putWidgetValue_congr {existing : Option (BoardWidget Props)}
    {declared : Option BoardWidgetDeclared} (hid : context.instanceId = context'.instanceId)
    (h : preservesGrant host.toHost params.content declared existing context =
      preservesGrant host.toHost params.content declared existing context')
    (tabId : String) (position : ℕ) :
    putWidgetValue host.toHost params tabId existing position declared context =
      putWidgetValue host.toHost params tabId existing position declared context' := by
  unfold putWidgetValue
  rw [h, hid]

/-- A put depends on its context only in the grant it preserves and the id it draws. -/
theorem createBoardWidgetPutSnapshot_congr (hsettled : prior.toBoardLayout.Settled)
    (hid : context.instanceId = context'.instanceId)
    (h : ∀ declared,
      preservesGrant host.toHost params.content declared
          (prior.widgets.find? (·.name = params.name)) context =
        preservesGrant host.toHost params.content declared
          (prior.widgets.find? (·.name = params.name)) context') :
    createBoardWidgetPutSnapshot host.toHost prior params context =
      createBoardWidgetPutSnapshot host.toHost prior params context' := by
  obtain ⟨-, hwidgets, -⟩ := withMainTab_settled hsettled
  unfold createBoardWidgetPutSnapshot
  rw [hsettled.normalize]
  simp only [hwidgets]
  cases validateContent host.toHost params with
  | error e => rfl
  | ok u =>
    apply if_congr Iff.rfl rfl
    apply if_congr Iff.rfl rfl
    cases putDeclared host.toHost params with
    | error e => rfl
    | ok declared =>
      show (insertBoardWidget _ (putWidgetValue ..) _ >>= _) = _
      rw [putWidgetValue_congr hid (h declared)]
      rfl

end Congruence

section Answers

variable {boards : InMemoryBoardStore Props} {store : SqliteBoardStore} {sessionKey : String}
  {prior : BoardSnapshot Props}

theorem InMemoryBoardStore.answer_applyOps (host : Host Props) (ops : List BoardOp) :
    (boards.call host (.applyOps sessionKey ops)).1 =
      if ops = [] then .ok (boards.getSnapshot sessionKey)
      else (applyBoardOps (boards.getSnapshot sessionKey).toBoardLayout ops).1.map
        (⟨·, sessionKey, (boards.getSnapshot sessionKey).revision + 1⟩) := by
  show (call.settle boards (boards.applyOps sessionKey ops)).1 = _
  unfold InMemoryBoardStore.applyOps
  by_cases hops : ops = []
  · simp only [if_pos hops, call.settle]
  · simp only [if_neg hops]
    cases (applyBoardOps (boards.getSnapshot sessionKey).toBoardLayout ops).1 <;> rfl

theorem SqliteBoardStore.answer_applyOps (h : Holds host store.tables sessionKey prior)
    (hs : sessionKey ∈ store.sessions) (ops : List BoardOp) :
    (store.call host (.applyOps sessionKey ops)).1 =
      if ops = [] then .ok prior
      else (applyBoardOps prior.toBoardLayout ops).1.map
        (⟨·, sessionKey, prior.revision + 1⟩) := by
  show (call.settle store (store.applyOps host sessionKey ops)).1 = _
  unfold SqliteBoardStore.applyOps requireSession
  by_cases hops : ops = []
  · simp only [if_pos hops, call.settle, getSnapshot_eq h hs]
  · simp only [if_neg hops, if_pos hs, h.readStoredBoard]
    cases (applyBoardOps prior.toBoardLayout ops).1 <;> rfl

theorem InMemoryBoardStore.answer_putWidget (host : Host Props)
    (params : BoardWidgetPutParams Props) (id : HexId) :
    (boards.call host (.putWidget params id)).1 =
      normalizeBoardWidgetDeclared host.parseUrl params.declared >>= fun declared =>
        createBoardWidgetPutSnapshot host (boards.getSnapshot params.sessionKey)
          { params with declared }
          { grantScopeMatches := Board.grantScopeMatches
              ((boards.documents params.sessionKey).get? params.name) params.content
            grantedSha256 := grantedSha256
              ((boards.documents params.sessionKey).get? params.name)
            instanceId := id.value } := by
  show (call.settle boards (boards.putWidget host params id)).1 = _
  unfold InMemoryBoardStore.putWidget
  cases normalizeBoardWidgetDeclared host.parseUrl params.declared with
  | error e => rfl
  | ok declared =>
    simp only [bind, Except.bind]
    cases createBoardWidgetPutSnapshot host (boards.getSnapshot params.sessionKey)
        { params with declared } _ <;> rfl

theorem SqliteBoardStore.answer_putWidget {params : BoardWidgetPutParams Props}
    (h : Holds host store.tables params.sessionKey prior)
    (hs : params.sessionKey ∈ store.sessions) (id : HexId) :
    (store.call host (.putWidget params id)).1 =
      normalizeBoardWidgetDeclared host.parseUrl params.declared >>= fun declared =>
        createBoardWidgetPutSnapshot host.toHost prior { params with declared }
          (putContext (store.tables.widgets.get? (params.sessionKey, params.name)) params.content
            id.value) := by
  show (call.settle store (store.putWidget host params id)).1 = _
  unfold SqliteBoardStore.putWidget requireSession
  simp only [if_pos hs, h.readStoredBoard, h.find?_widgetRows]
  cases normalizeBoardWidgetDeclared host.parseUrl params.declared with
  | error e => rfl
  | ok declared =>
    show (call.settle _ (createBoardWidgetPutSnapshot host.toHost prior { params with declared }
      (putContext (store.tables.widgets.get? (params.sessionKey, params.name)) params.content
        id.value) >>= _)).1 = createBoardWidgetPutSnapshot ..
    cases createBoardWidgetPutSnapshot host.toHost prior { params with declared }
        (putContext (store.tables.widgets.get? (params.sessionKey, params.name)) params.content
          id.value) with
    | error e => rfl
    | ok next =>
      simp only [bind, Except.bind]
      cases next.widgets.find? (·.name = params.name) <;> rfl

theorem InMemoryBoardStore.answer_grant (host : Host Props) (name : String)
    (decision : GrantDecision) (revision : ℕ) (instanceId : Option String) :
    (boards.call host (.grant sessionKey name decision revision instanceId)).1 =
      createBoardGrantSnapshot (boards.getSnapshot sessionKey) name decision revision
        instanceId := by
  show (call.settle boards (boards.grant sessionKey name decision revision instanceId)).1 = _
  unfold InMemoryBoardStore.grant getSnapshot
  cases boards.get? sessionKey with
  | none => rfl
  | some current =>
    show (call.settle _ (createBoardGrantSnapshot current.snapshot name decision revision
      instanceId >>= _)).1 = createBoardGrantSnapshot current.snapshot ..
    cases createBoardGrantSnapshot current.snapshot name decision revision instanceId <;> rfl

theorem SqliteBoardStore.answer_grant (h : Holds host store.tables sessionKey prior)
    (hs : sessionKey ∈ store.sessions) (name : String) (decision : GrantDecision) (revision : ℕ)
    (instanceId : Option String) :
    (store.call host (.grant sessionKey name decision revision instanceId)).1 =
      createBoardGrantSnapshot prior name decision revision instanceId := by
  show (call.settle store (store.grant host sessionKey name decision revision instanceId)).1 = _
  unfold SqliteBoardStore.grant requireSession
  simp only [if_pos hs, h.readStoredBoard]
  cases createBoardGrantSnapshot prior name decision revision instanceId <;> rfl

end Answers

/-- Where the stores agree, a call answers the same in both. -/
theorem Agrees.answer {boards : InMemoryBoardStore Props} {store : SqliteBoardStore}
    (h : Agrees host boards store) (call : BoardCall Props)
    (hs : call.sessionKey ∈ store.sessions) :
    (boards.call host.toHost call).1 = (store.call host call).1 := by
  cases call with
  | getSnapshot sessionKey =>
    exact congrArg Except.ok (SqliteBoardStore.getSnapshot_eq (h.holds sessionKey) hs).symm
  | applyOps sessionKey ops =>
    rw [InMemoryBoardStore.answer_applyOps,
      SqliteBoardStore.answer_applyOps (h.holds sessionKey) hs]
  | putWidget params id =>
    rw [InMemoryBoardStore.answer_putWidget,
      SqliteBoardStore.answer_putWidget (h.holds params.sessionKey) hs]
    apply congrArg
    funext declared
    refine createBoardWidgetPutSnapshot_congr (h.holds params.sessionKey).settled ?_ ?_
    · rfl
    · intro declared
      exact h.preservesGrant params.sessionKey params.name params.content declared id.value
  | grant sessionKey name decision revision instanceId =>
    rw [InMemoryBoardStore.answer_grant,
      SqliteBoardStore.answer_grant (h.holds sessionKey) hs]

section Rederive

variable {content : BoardWidgetContent Props} {id : String}

/-- What a row says of the content of its widget. -/
def rederived (host : SqliteHost Props) (content : BoardWidgetContent Props) (id : String) :
    Option String × Option Props × Option String :=
  match content with
  | .plugin pluginKind props =>
    (some pluginKind, props.map fun props => host.parse (host.stringify props), none)
  | _ => (none, none, some id)

theorem rederive_eq_self {widget : BoardWidget Props}
    (h : (widget.pluginKind, widget.props, widget.instanceId) = rederived host content id) :
    rederive host content id widget = widget := by
  have heq : rederive host content id widget = { widget with
      pluginKind := (rederived host content id).1
      props := (rederived host content id).2.1
      instanceId := (rederived host content id).2.2 } := by
    cases content <;> rfl
  rw [heq, ← h]

/-- A field that `Object.assign` keeps where the widget put has none. -/
theorem inserted_optional {β : Type*} {f : BoardWidget Props → Option β}
    (hf : ∀ target source : BoardWidget Props, f (target.assign source) =
      (f source).or (f target)) (layout : BoardLayout Props) (widget : BoardWidget Props) :
    f (inserted layout widget) =
      (f widget).or ((layout.widgets.find? (·.name = widget.name)).bind f) := by
  unfold inserted
  split
  · rename_i existing hfind
    rw [hfind]
    exact hf existing widget
  · rename_i hfind
    rw [hfind]
    exact Option.or_none.symm

theorem putResult_optional {β : Type*} {f : BoardWidget Props → Option β}
    (hf : ∀ target source : BoardWidget Props, f (target.assign source) =
      (f source).or (f target)) (hc : ∀ w, f w.clearDeclared = f w)
    {prior : BoardLayout Props} {params : BoardWidgetPutParams Props} {tabId : String}
    {position : ℕ} {declared : Option BoardWidgetDeclared} {context : PutContext} :
    f (putResult host.toHost prior params tabId position declared context) =
      (f (putWidgetValue host.toHost params tabId
        (prior.widgets.find? (·.name = params.name)) position declared context)).or
        ((prior.widgets.find? (·.name = params.name)).bind f) := by
  unfold putResult
  simp only
  split_ifs
  · exact inserted_optional hf _ _
  · rw [hc]
    exact inserted_optional hf _ _

/-- A put that replaces the widget's content leaves nothing to derive. -/
theorem putResult_rederived {prior : BoardLayout Props} {params : BoardWidgetPutParams Props}
    (h : Replaces host (prior.widgets.find? (·.name = params.name)) params.content)
    {tabId : String} {position : ℕ} {declared : Option BoardWidgetDeclared}
    {context : PutContext} {result : BoardWidget Props}
    (hresult : result = putResult host.toHost prior params tabId position declared context) :
    (result.pluginKind, result.props, result.instanceId) =
      rederived host params.content context.instanceId := by
  rw [hresult, putResult_optional (f := (·.pluginKind)) (fun _ _ => rfl) fun _ => rfl,
    putResult_optional (f := (·.props)) (fun _ _ => rfl) fun _ => rfl,
    putResult_optional (f := (·.instanceId)) (fun _ _ => rfl) fun _ => rfl]
  unfold putWidgetValue rederived
  simp only
  cases hcontent : params.content with
  | plugin pluginKind props =>
    rw [hcontent] at h
    obtain ⟨hid, hprops, hjson⟩ := h
    simp only [hid, hjson, Option.some_or, Option.none_or]
    cases props with
    | none => rw [hprops rfl, Option.none_or]
    | some props => rfl
  | html html =>
    rw [hcontent] at h
    simp only [h.1, h.2, Option.none_or, Option.some_or]
  | mcpApp descriptor interactive =>
    rw [hcontent] at h
    simp only [h.1, h.2, Option.none_or, Option.some_or]

theorem modifyWidget_eq_self {layout : BoardLayout Props} {name : String}
    {f : BoardWidget Props → BoardWidget Props}
    (h : ∀ w ∈ layout.widgets, w.name = name → f w = w) : modifyWidget layout name f = layout := by
  show { layout with widgets := layout.widgets.map _ } = layout
  rw [(List.map_congr_left fun w hw => ?_).trans (List.map_id layout.widgets)]
  show (if w.name = name then f w else w) = w
  split_ifs with hname
  · exact h w hw hname
  · rfl

end Rederive

namespace Agrees

variable {boards boards' : InMemoryBoardStore Props} {store store' : SqliteBoardStore}
  {sessionKey : String} {snapshot : BoardSnapshot Props}

/-- The stores after a call that writes one session. -/
theorem of_writes {k : String} (h : Agrees host boards store) (hmemory : MemoryOk host.toHost boards')
    (hothers : ∀ key, key ≠ k → boards'.get? key = boards.get? key)
    (hw : Writes host store k (boards'.getSnapshot k) store')
    (hdocuments : ∀ name row, store'.tables.widgets.get? (k, name) = some row →
      DocumentAgrees ((boards'.documents k).get? name) row) :
    Agrees host boards' store' where
  memory := hmemory
  holds key := by
    by_cases hkey : key = k
    · rw [hkey]
      exact hw.holds
    · have hsame : boards'.getSnapshot key = boards.getSnapshot key := by
        unfold InMemoryBoardStore.getSnapshot
        rw [hothers key hkey]
      rw [hsame]
      exact hw.congr hkey (h.holds key)
  documents key name row hrow := by
    by_cases hkey : key = k
    · subst hkey
      exact hdocuments name row hrow
    · rw [(hw.others key hkey name).2] at hrow
      have hsame : boards'.documents key = boards.documents key := by
        unfold InMemoryBoardStore.documents
        rw [hothers key hkey]
      rw [hsame]
      exact h.documents key name row hrow

theorem applyOps (h : Agrees host boards store) {ops : List BoardOp}
    (hb : boards.applyOps sessionKey ops = .ok (snapshot, boards'))
    (hs : store.applyOps host sessionKey ops = .ok (snapshot, store')) :
    Agrees host boards' store' ∧ store'.sessions = store.sessions := by
  have hmemory := (InMemoryBoardStore.applyOps_authority h.memory hb).1
  by_cases hops : ops = []
  · unfold InMemoryBoardStore.applyOps at hb
    unfold SqliteBoardStore.applyOps at hs
    rw [if_pos hops] at hb hs
    obtain ⟨-, rfl⟩ := Prod.mk.inj (Except.ok.inj hb)
    obtain ⟨-, rfl⟩ := Prod.mk.inj (Except.ok.inj hs)
    exact ⟨h, rfl⟩
  obtain ⟨-, ⟨layout, hlayout, rfl⟩, rfl, hw⟩ :=
    SqliteBoardStore.applyOps_eq_ok (h.holds sessionKey) hops hs
  have hc := batchContents_of_ok (h.holds sessionKey).settled.toNormal hlayout
  unfold InMemoryBoardStore.applyOps at hb
  simp only [if_neg hops] at hb
  rw [hlayout] at hb
  obtain ⟨-, rfl⟩ := Prod.mk.inj (Except.ok.inj hb)
  refine ⟨?_, hw.sessions⟩
  -- a board without tabs has no widgets: both stores drop it
  by_cases htabs : layout.tabs = []
  · have hwidgets := hc.settled.widgets_eq_nil htabs
    simp only [htabs, hwidgets, List.length_nil, and_self, if_true] at hmemory ⊢
    refine h.of_writes (k := sessionKey) hmemory ?_ ?_ ?_
    · intro key hne
      rw [JsMap.get?_delete, if_neg hne]
    · rw [InMemoryBoardStore.getSnapshot_delete]
      simpa only [kept, htabs, if_true] using hw
    · intro name row hrow
      have hnone := hw.holds.widgets name
      simp only [kept, htabs, if_true] at hnone
      exact absurd (Option.map_eq_none_iff.mp hnone) (by rw [hrow]; simp)
  · have hkept : kept (⟨layout, sessionKey, (boards.getSnapshot sessionKey).revision + 1⟩ :
        BoardSnapshot Props) = ⟨layout, sessionKey, (boards.getSnapshot sessionKey).revision + 1⟩ :=
      if_neg htabs
    rw [hkept] at hw
    have hlength : layout.tabs.length ≠ 0 := by simpa using htabs
    simp only [hlength, false_and, if_false] at hmemory ⊢
    refine h.of_writes (k := sessionKey) hmemory ?_ ?_ ?_
    · intro key hne
      exact JsMap.get?_set_ne _ _ (Ne.symm hne)
    · rw [(InMemoryBoardStore.getSnapshot_set _ _).1]
      exact hw
    · intro name row hrow
      rw [get?_writeOps (h.holds sessionKey) rfl hc.settled.toNormal,
        Option.bind_eq_some_iff] at hrow
      obtain ⟨widget, hwidget, hrow⟩ := hrow
      obtain ⟨old, hold, rfl⟩ := Option.map_eq_some_iff.mp hrow
      obtain ⟨hm, hname⟩ := (find?_eq_some_iff hc.settled.names).mp hwidget
      have hmem : name ∈ layout.widgets.map (·.name) := List.mem_map.mpr ⟨widget, hm, hname⟩
      rw [(InMemoryBoardStore.getSnapshot_set _ _).2, JsMap.get?_filterKeys,
        if_pos (by simpa using hmem)]
      exact (h.documents sessionKey name old hold).congr rfl rfl rfl

theorem putWidget (hurl : OriginsReparse host.parseUrl) (h : Agrees host boards store)
    {params : BoardWidgetPutParams Props} {id : HexId}
    (hr : Replaces host
      ((boards.getSnapshot params.sessionKey).widgets.find? (·.name = params.name)) params.content)
    (hb : boards.putWidget host.toHost params id = .ok (snapshot, boards'))
    (hs : store.putWidget host params id = .ok (snapshot, store')) :
    Agrees host boards' store' ∧ store'.sessions = store.sessions := by
  have hmemory := InMemoryBoardStore.putWidget_ok h.memory hb
  have hprior := h.holds params.sessionKey
  obtain ⟨declared, -, -, -, hdeclared, -, -, -, widget, hfind, rfl⟩ :=
    InMemoryBoardStore.putWidget_eq_ok h.memory hb
  obtain ⟨-, declared', tabId, position, widget', hdeclared', -, -, hput, hfind', hnext, hw⟩ :=
    SqliteBoardStore.putWidget_eq_ok hurl hprior hs
  obtain rfl := Except.ok.inj (hdeclared.symm.trans hdeclared')
  obtain rfl := Option.some.inj (hfind.symm.trans hfind')
  have hself : modifyWidget snapshot.toBoardLayout params.name
      (rederive host params.content id.value) = snapshot.toBoardLayout := by
    apply modifyWidget_eq_self
    intro w hm hname
    have hsame := unplaced_of_put hput hm (by rw [hname, putResult_name])
    apply rederive_eq_self
    rw [field_of_unplaced (f := fun w => (w.pluginKind, w.props, w.instanceId)) (fun _ => rfl)
      hsame]
    exact @putResult_rederived _ host _ { params with declared } hr _ _ _ _ _ rfl
  rw [hself] at hw
  refine ⟨h.of_writes (k := params.sessionKey) hmemory ?_ ?_ ?_, hw.sessions⟩
  · intro key hne
    exact JsMap.get?_set_ne _ _ (Ne.symm hne)
  · rw [(InMemoryBoardStore.getSnapshot_set _ _).1]
    exact hw
  · intro name row hrow
    rw [(InMemoryBoardStore.getSnapshot_set _ _).2, InMemoryBoardStore.get?_setDocument]
    obtain ⟨hm, hname⟩ := (find?_eq_some_iff hput.settled.names).mp hfind
    rw [hnext] at hrow
    simp only at hrow
    rw [@get?_writeWidget _ host _ _ _ _ _ hprior hput widget (by rw [hname]; exact hfind)
      { params with declared } id.value name, hname] at hrow
    split_ifs at hrow ⊢
    · obtain rfl := Option.some.inj hrow
      unfold putRow createBoardWidgetContentFields createBoardWidgetDocument
      cases params.content with
      | html html => exact ⟨rfl, rfl⟩
      | mcpApp descriptor interactive => exact ⟨rfl, rfl⟩
      | plugin pluginKind props => rfl
    · obtain ⟨other, -, hrow⟩ := Option.bind_eq_some_iff.mp hrow
      obtain ⟨old, hold, rfl⟩ := Option.map_eq_some_iff.mp hrow
      exact (h.documents params.sessionKey name old hold).congr rfl rfl rfl

theorem grant (h : Agrees host boards store) {name : String} {decision : GrantDecision}
    {revision : ℕ} {instanceId : Option String}
    (hb : boards.grant sessionKey name decision revision instanceId = .ok (snapshot, boards'))
    (hs : store.grant host sessionKey name decision revision instanceId =
      .ok (snapshot, store')) :
    Agrees host boards' store' ∧ store'.sessions = store.sessions := by
  have hmemory := InMemoryBoardStore.grant_ok h.memory hb
  obtain ⟨-, documents, hget, -, rfl⟩ := InMemoryBoardStore.grant_eq_ok hb
  obtain ⟨-, -, ⟨old, hold, hrow⟩, hothers, hw⟩ :=
    SqliteBoardStore.grant_eq_ok (h.holds sessionKey) hs
  refine ⟨h.of_writes (k := sessionKey) hmemory ?_ ?_ ?_, hw.sessions⟩
  · intro key hne
    exact JsMap.get?_set_ne _ _ (Ne.symm hne)
  · rw [(InMemoryBoardStore.getSnapshot_set _ _).1]
    exact hw
  · intro other row hother
    rw [(InMemoryBoardStore.getSnapshot_set _ _).2, hget]
    split_ifs with hname
    · subst hname
      obtain rfl := Option.some.inj (hrow.symm.trans hother)
      have hdocument := h.documents sessionKey other old hold
      cases hd : (boards.documents sessionKey).get? other with
      | none =>
        rw [hd] at hdocument
        exact hdocument
      | some document =>
        rw [hd] at hdocument
        cases document <;> exact hdocument
    · rw [hothers other hname] at hother
      exact h.documents sessionKey other row hother

/-- What the stores are after a call, from what they are if it returns. -/
theorem settle (h : Agrees host boards store)
    {memory : Except BoardValidationError (BoardSnapshot Props × InMemoryBoardStore Props)}
    {sqlite : Except BoardValidationError (BoardSnapshot Props × SqliteBoardStore)}
    (hanswer : (InMemoryBoardStore.call.settle boards memory).1 =
      (SqliteBoardStore.call.settle store sqlite).1)
    (hok : ∀ snapshot boards' store', memory = .ok (snapshot, boards') →
      sqlite = .ok (snapshot, store') →
        Agrees host boards' store' ∧ store'.sessions = store.sessions) :
    Agrees host (InMemoryBoardStore.call.settle boards memory).2
        (SqliteBoardStore.call.settle store sqlite).2 ∧
      (SqliteBoardStore.call.settle store sqlite).2.sessions = store.sessions := by
  cases memory with
  | error e =>
    cases sqlite with
    | error e' => exact ⟨h, rfl⟩
    | ok made => cases hanswer
  | ok made =>
    cases sqlite with
    | error e => cases hanswer
    | ok made' =>
      obtain ⟨snapshot, boards'⟩ := made
      obtain ⟨snapshot', store'⟩ := made'
      obtain rfl : snapshot = snapshot' := Except.ok.inj hanswer
      exact hok snapshot boards' store' rfl rfl

/-- A call that replaces what it puts on answers the same in both stores, and they still agree. -/
theorem call (hurl : OriginsReparse host.parseUrl) (h : Agrees host boards store)
    {call : BoardCall Props} (hok : CallOk host store.sessions boards call) :
    (boards.call host.toHost call).1 = (store.call host call).1 ∧
      Agrees host (boards.call host.toHost call).2 (store.call host call).2 ∧
      (store.call host call).2.sessions = store.sessions := by
  have hanswer := h.answer call hok.1
  refine ⟨hanswer, ?_⟩
  cases call with
  | getSnapshot sessionKey => exact ⟨h, rfl⟩
  | applyOps sessionKey ops => exact h.settle hanswer fun _ _ _ => h.applyOps
  | putWidget params id => exact h.settle hanswer fun _ _ _ => h.putWidget hurl hok.2
  | grant sessionKey name decision revision instanceId =>
    exact h.settle hanswer fun _ _ _ => h.grant

end Agrees

section Run

/-- What the calls of a run return or throw. -/
def answers {σ κ α : Type} (call : σ → κ → α × σ) : σ → List κ → List α
  | _, [] => []
  | s, c :: calls => (call s c).1 :: answers call (call s c).2 calls

/-- Every call of a run replaces what it puts on. -/
def RunOk (host : SqliteHost Props) (sessions : List String) :
    InMemoryBoardStore Props → List (BoardCall Props) → Prop
  | _, [] => True
  | boards, c :: calls =>
    CallOk host sessions boards c ∧ RunOk host sessions (boards.call host.toHost c).2 calls

theorem Agrees.run (hurl : OriginsReparse host.parseUrl) {boards : InMemoryBoardStore Props}
    {store : SqliteBoardStore} (h : Agrees host boards store) (calls : List (BoardCall Props))
    (hok : RunOk host store.sessions boards calls) :
    answers (fun boards c => InMemoryBoardStore.call boards host.toHost c) boards calls =
        answers (fun store c => SqliteBoardStore.call host store c) store calls ∧
      Agrees host
        (run (fun boards c => (InMemoryBoardStore.call boards host.toHost c).2) boards calls)
        (run (fun store c => (SqliteBoardStore.call host store c).2) store calls) ∧
      (run (fun store c => (SqliteBoardStore.call host store c).2) store calls).sessions =
        store.sessions := by
  induction calls generalizing boards store with
  | nil => exact ⟨rfl, h, rfl⟩
  | cons c calls ih =>
    obtain ⟨hanswer, hnext, hsessions⟩ := h.call hurl hok.1
    obtain ⟨hrest, hfinal, hsame⟩ := ih hnext (by rw [hsessions]; exact hok.2)
    exact ⟨congrArg₂ List.cons hanswer hrest, hfinal, hsame.trans hsessions⟩

/-- In a run on sessions that are there, without puts that leave a field of the replaced content
behind, both stores throw the same errors and return the same snapshots. -/
theorem stores_agree (host : SqliteHost Props) (hurl : OriginsReparse host.parseUrl)
    (sessions : List String) (calls : List (BoardCall Props))
    (hok : RunOk host sessions JsMap.empty calls) :
    answers (fun boards c => InMemoryBoardStore.call boards host.toHost c) JsMap.empty calls =
        answers (fun store c => SqliteBoardStore.call host store c)
          ⟨sessions, ⟨.empty, .empty⟩⟩ calls ∧
      ∀ sessionKey ∈ sessions,
        (run (fun boards c => (InMemoryBoardStore.call boards host.toHost c).2) JsMap.empty
          calls).getSnapshot sessionKey =
        (run (fun store c => (SqliteBoardStore.call host store c).2)
          ⟨sessions, ⟨.empty, .empty⟩⟩ calls).getSnapshot host sessionKey := by
  obtain ⟨hanswers, hfinal, hsessions⟩ := (Agrees.empty sessions).run hurl calls hok
  refine ⟨hanswers, fun sessionKey hs => ?_⟩
  apply Eq.symm
  apply SqliteBoardStore.getSnapshot_eq (hfinal.holds sessionKey)
  rw [hsessions]
  exact hs

theorem stores_agree_rePin :
    answers (fun boards c => InMemoryBoardStore.call boards rePinHost.toHost c) JsMap.empty
        rePin =
      answers (fun store c => SqliteBoardStore.call rePinHost store c)
        ⟨["s"], ⟨.empty, .empty⟩⟩ rePin :=
  (stores_agree rePinHost rePinHost_origins ["s"] rePin
    (by
      refine ⟨⟨by decide, ?_, ?_⟩, ⟨by decide, trivial⟩, ⟨by decide, ?_, ?_⟩, trivial⟩ <;>
        decide +kernel)).1

theorem isHexId_zeros : isHexId "00000000000000000000000000000000" = true := by decide

theorem isHexId_ones : isHexId "11111111111111111111111111111111" = true := by decide

/-- Plugin content put under the name of an HTML widget, and the board read again. -/
def contentChange : List (BoardCall String) :=
  [.putWidget rePinParams ⟨"00000000000000000000000000000000", isHexId_zeros⟩,
    .putWidget { rePinParams with content := .plugin "chart" (some "\x7b\x7d"), declared := none }
      ⟨"11111111111111111111111111111111", isHexId_ones⟩,
    .getSnapshot "s"]

theorem contentChange_differs :
    (∀ c ∈ contentChange, c.sessionKey ∈ ["s"]) ∧
      answers (fun boards c => InMemoryBoardStore.call boards rePinHost.toHost c) JsMap.empty
          contentChange ≠
        answers (fun store c => SqliteBoardStore.call rePinHost store c)
          ⟨["s"], ⟨.empty, .empty⟩⟩ contentChange := by
  refine ⟨by decide, fun h => ?_⟩
  -- the board read last: in memory the plugin widget has the instance id of the HTML
  have hread := congrArg (fun l => l.map fun a : Answer String =>
    a.toOption.map fun snapshot => snapshot.widgets.map (·.instanceId)) h
  revert hread
  decide +kernel

end Run

end Flashclaw.Board
