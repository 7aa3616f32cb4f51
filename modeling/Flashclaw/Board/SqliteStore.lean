import Flashclaw.Board.Memory
import Flashclaw.Board.SqlitePuts

/-!
# Boards: the SQLite store, invariant and authority
-/

namespace Flashclaw.Board

variable {Props : Type}

open BoardLayout Lists Results

variable {host : SqliteHost Props}

/-- What a call writes: the rows of one session. -/
structure Writes (host : SqliteHost Props) (before : SqliteBoardStore) (sessionKey : String)
    (snapshot : BoardSnapshot Props) (after : SqliteBoardStore) : Prop where
  sessions : after.sessions = before.sessions
  holds : Holds host after.tables sessionKey snapshot
  others : ∀ key, key ≠ sessionKey → ∀ id,
    after.tables.tabs.get? (key, id) = before.tables.tabs.get? (key, id) ∧
      after.tables.widgets.get? (key, id) = before.tables.widgets.get? (key, id)

theorem Writes.congr {before after : SqliteBoardStore} {sessionKey key : String}
    {written snapshot : BoardSnapshot Props} (hw : Writes host before sessionKey written after)
    (hne : key ≠ sessionKey) (h : Holds host before.tables key snapshot) :
    Holds host after.tables key snapshot :=
  h.congr (fun id => (hw.others key hne id).1) fun id => (hw.others key hne id).2

namespace SqliteBoardStore

variable {store next : SqliteBoardStore} {prior snapshot : BoardSnapshot Props}
  {sessionKey : String}

theorem getSnapshot_eq (h : Holds host store.tables sessionKey prior)
    (hs : sessionKey ∈ store.sessions) : store.getSnapshot host sessionKey = prior := by
  unfold getSnapshot
  rw [if_pos hs, h.readStoredBoard]

theorem requireSession_eq_ok {u : Unit} (h : store.requireSession sessionKey = .ok u) :
    sessionKey ∈ store.sessions := by
  unfold requireSession at h
  split_ifs at h with hs
  exact hs

theorem applyOps_eq_ok (h : Holds host store.tables sessionKey prior) {ops : List BoardOp}
    (hops : ops ≠ []) (he : store.applyOps host sessionKey ops = .ok (snapshot, next)) :
    sessionKey ∈ store.sessions ∧
      (∃ layout, (applyBoardOps prior.toBoardLayout ops).1 = .ok layout ∧
        snapshot = ⟨layout, sessionKey, prior.revision + 1⟩) ∧
      next = { store with tables := store.tables.writeOps host snapshot ops } ∧
      Writes host store sessionKey (kept snapshot) next := by
  unfold applyOps at he
  rw [if_neg hops] at he
  obtain ⟨_, hs, he⟩ := bind_eq_ok.mp he
  simp only [h.readStoredBoard] at he
  obtain ⟨layout, hlayout, he⟩ := bind_eq_ok.mp he
  obtain ⟨rfl, rfl⟩ := Prod.mk.inj (Except.ok.inj he)
  have hc := batchContents_of_ok h.settled.toNormal hlayout
  exact ⟨requireSession_eq_ok hs, ⟨layout, hlayout, rfl⟩, rfl, rfl, h.writeOps rfl hc,
    fun key hne id => get?_writeOps_ne _ ops hne hc.settled.toNormal id⟩

/-- What a put knows of the row it replaces. -/
def putContext (row : Option WidgetRow) (content : BoardWidgetContent Props) (id : String) :
    PutContext where
  grantScopeMatches := grantScopeMatches row content
  grantedSha256 := row.bind (·.grantedSha)
  instanceId := id

/-- The declaration a put keeps is the one it was given, normalized. -/
theorem kept_eq_declared (hurl : OriginsReparse host.parseUrl)
    {params : BoardWidgetPutParams Props} {declared kept : Option BoardWidgetDeclared}
    (hd : normalizeBoardWidgetDeclared host.parseUrl params.declared = .ok declared)
    (hvalid : validateContent host.toHost { params with declared } = .ok ())
    (hk : putDeclared host.toHost { params with declared } = .ok kept) :
    kept = declared ∧ normalizeBoardWidgetDeclared host.parseUrl declared = .ok declared := by
  unfold putDeclared at hk
  cases hcontent : params.content with
  | plugin pluginKind props =>
    simp only [hcontent] at hk
    have hnone : declared = none := by
      unfold validateContent at hvalid
      simp only [hcontent] at hvalid
      by_contra hne
      rw [if_pos hne] at hvalid
      cases hvalid
    subst hnone
    exact ⟨(Except.ok.inj hk).symm, rfl⟩
  | html html =>
    simp only [hcontent] at hk
    obtain rfl := normalizeBoardWidgetDeclared_idem hurl hd hk
    exact ⟨rfl, hk⟩
  | mcpApp descriptor interactive =>
    simp only [hcontent] at hk
    obtain rfl := normalizeBoardWidgetDeclared_idem hurl hd hk
    exact ⟨rfl, hk⟩

/-- What a put makes of the store. -/
theorem putWidget_eq_ok (hurl : OriginsReparse host.parseUrl)
    {params : BoardWidgetPutParams Props} {id : HexId}
    (h : Holds host store.tables params.sessionKey prior)
    (he : store.putWidget host params id = .ok (snapshot, next)) :
    params.sessionKey ∈ store.sessions ∧ ∃ declared tabId position widget,
      normalizeBoardWidgetDeclared host.parseUrl params.declared = .ok declared ∧
      createBoardWidgetPutSnapshot host.toHost prior { params with declared }
        (putContext (store.tables.widgets.get? (params.sessionKey, params.name)) params.content
          id.value) = .ok snapshot ∧
      putDeclared host.toHost { params with declared } = .ok declared ∧
      PutSnapshot prior params.sessionKey (putResult host.toHost prior.toBoardLayout
        { params with declared } tabId position declared
        (putContext (store.tables.widgets.get? (params.sessionKey, params.name)) params.content
          id.value)) snapshot ∧
      snapshot.widgets.find? (·.name = params.name) = some widget ∧
      next = { store with
        tables := store.tables.writeWidget snapshot widget
          (createBoardWidgetContentFields host { params with declared } widget.presentation
            widget.heightMode widget.revision widget.grantState id.value) } ∧
      Writes host store params.sessionKey ⟨modifyWidget snapshot.toBoardLayout params.name
        (rederive host params.content id.value), snapshot.sessionKey, snapshot.revision⟩ next := by
  unfold putWidget at he
  obtain ⟨_, hs, he⟩ := bind_eq_ok.mp he
  obtain ⟨declared, hdeclared, he⟩ := bind_eq_ok.mp he
  simp only [h.readStoredBoard, h.find?_widgetRows] at he
  obtain ⟨made, hmade, he⟩ := bind_eq_ok.mp he
  obtain ⟨tabId, position, kept, hvalid, hkept, hput⟩ := put_eq_ok h.settled h.width hmade
  obtain ⟨rfl, hd⟩ := kept_eq_declared hurl hdeclared hvalid hkept
  obtain ⟨widget, hfind, hunplaced⟩ := hput.exists_put
  rw [putResult_name] at hfind
  simp only at hfind
  rw [hfind] at he
  obtain ⟨rfl, rfl⟩ := Prod.mk.inj (Except.ok.inj he)
  obtain ⟨hm, hname⟩ := (find?_eq_some_iff hput.settled.names).mp hfind
  -- The row holds what the snapshot shows: placing a widget touches no field it stores.
  have hgrant := field_of_unplaced (f := (·.grantState)) (fun _ => rfl) hunplaced
  have hfits : GrantFits params.content kept widget.grantState := by
    rw [hgrant]
    exact grantFits_of_put
  have hread := @rowToWidget_putRow _ host { params with declared := kept } id hd _ hfits
    ((field_of_unplaced (f := (·.contentKind)) (fun _ => rfl) hunplaced).trans
      putResult_contentKind)
    ((field_of_unplaced (f := (·.declared)) (fun _ => rfl) hunplaced).trans
      (putResult_declared hkept))
    ((field_of_unplaced (f := (·.declaredSummary)) (fun _ => rfl) hunplaced).trans
      putResult_declaredSummary)
  refine ⟨requireSession_eq_ok hs, kept, tabId, position, widget, hdeclared, hmade, hkept, hput,
    hfind, rfl, rfl, ?_, fun key hne key' => ?_⟩
  · exact @Holds.writeWidget _ _ _ _ _ _ _ h hput { params with declared := kept } _ _ hfind
      (putRow_ok hd hfits) hread (putResult_name ..)
  · exact get?_writeWidget_ne store.tables hput.settled.toNormal widget _
      (by rw [hput.sessionKey]; exact hne) key'

/-- What a decision makes of the store. -/
theorem grant_eq_ok {name : String} {decision : GrantDecision} {revision : ℕ}
    {instanceId : Option String} (h : Holds host store.tables sessionKey prior)
    (he : store.grant host sessionKey name decision revision instanceId = .ok (snapshot, next)) :
    sessionKey ∈ store.sessions ∧
      createBoardGrantSnapshot prior name decision revision instanceId = .ok snapshot ∧
      (∃ row, store.tables.widgets.get? (sessionKey, name) = some row ∧
        next.tables.widgets.get? (sessionKey, name) = some (decideRow host decision row)) ∧
      (∀ other, other ≠ name → next.tables.widgets.get? (sessionKey, other) =
        store.tables.widgets.get? (sessionKey, other)) ∧
      Writes host store sessionKey snapshot next := by
  unfold grant at he
  obtain ⟨_, hs, he⟩ := bind_eq_ok.mp he
  simp only [h.readStoredBoard] at he
  obtain ⟨made, hmade, he⟩ := bind_eq_ok.mp he
  obtain ⟨⟨widget, hfind, hpending⟩, hnext⟩ := Board.grant_eq_ok hmade
  obtain ⟨hm, hname⟩ := (find?_eq_some_iff h.settled.names).mp hfind
  obtain ⟨row, hrow, hread⟩ := h.exists_row hm
  rw [hname] at hrow hread
  obtain ⟨entry, hentry, rfl⟩ :=
    Option.map_eq_some_iff.mp ((h.find?_widgetRows name).trans hrow)
  rw [hentry] at he
  obtain ⟨rfl, rfl⟩ := Prod.mk.inj (Except.ok.inj he)
  have hkey : made.sessionKey = sessionKey := by
    rw [hnext]
    exact h.key
  have hids : made.tabIds.Nodup := by
    rw [hnext]
    exact h.settled.tabIds
  have hget := fun key => BoardTables.get?_updateWidget (store.tables.upsertTabs made) sessionKey
    name (fun current => { current with
      grantState := (decideRow host decision entry.2).grantState
      grantedSha := (decideRow host decision entry.2).grantedSha
      manifest := (decideRow host decision entry.2).manifest }) key
  rw [BoardTables.widgets_upsertTabs] at hget
  refine ⟨requireSession_eq_ok hs, hmade, ⟨entry.2, hrow, ?_⟩, fun other hne => ?_, rfl,
    h.grant hrow (by rw [hread]; exact hpending) decision hnext, fun key hne id => ⟨?_, ?_⟩⟩
  · refine (hget _).trans ?_
    rw [if_pos rfl, hrow]
    rfl
  · refine (hget _).trans (if_neg ?_)
    simpa using hne
  · change (BoardTables.updateWidget _ _ _ _).tabs.get? _ = _
    rw [BoardTables.tabs_updateWidget, BoardTables.get?_upsertTabs _ hids, hkey, if_neg hne]
  · refine (hget _).trans (if_neg ?_)
    simp [hne]

/-- The rows of every session hold a snapshot. -/
def Ok (host : SqliteHost Props) (store : SqliteBoardStore) : Prop :=
  ∀ sessionKey, ∃ snapshot, Holds host store.tables sessionKey snapshot

theorem Ok.empty (sessions : List String) : Ok host ⟨sessions, ⟨.empty, .empty⟩⟩ :=
  fun sessionKey => ⟨_, Holds.empty sessionKey⟩

theorem Ok.writes (h : store.Ok host) {written : BoardSnapshot Props}
    (hw : Writes host store sessionKey written next) : next.Ok host := by
  intro key
  by_cases hkey : key = sessionKey
  · exact ⟨written, hkey ▸ hw.holds⟩
  · obtain ⟨snapshot, hs⟩ := h key
    exact ⟨snapshot, hw.congr hkey hs⟩

def rowScope (host : SqliteHost Props) : Option WidgetRow → GrantScope
  | none => .plugin
  | some row =>
    match row.contentKind, row.descriptorJson with
    | .html, _ => .html (host.sha256 (row.html.getD ""))
    | .mcpApp, some (.mcpApp descriptor) =>
      .mcpApp descriptor.serverName (row.manifest.mcpAppInteractive = some true)
    | _, _ => .plugin

/-- The authority of a widget of the SQLite store. -/
def authority (host : SqliteHost Props) (store : SqliteBoardStore) (sessionKey name : String) :
    Option Authority :=
  ((store.getSnapshot host sessionKey).widgets.find? (·.name = name)).map fun widget =>
    ⟨widget.grantState, widget.declared,
      rowScope host (store.tables.widgets.get? (sessionKey, name))⟩

theorem authority_eq (h : Holds host store.tables sessionKey prior)
    (hs : sessionKey ∈ store.sessions) (name : String) :
    store.authority host sessionKey name =
      (prior.widgets.find? (·.name = name)).map fun widget =>
        ⟨widget.grantState, widget.declared,
          rowScope host (store.tables.widgets.get? (sessionKey, name))⟩ := by
  unfold authority
  rw [getSnapshot_eq h hs]

theorem mem_sessions_of_authority {name : String} {a : Authority}
    (ha : store.authority host sessionKey name = some a) : sessionKey ∈ store.sessions := by
  by_contra hs
  unfold authority getSnapshot at ha
  rw [if_neg hs] at ha
  cases ha

/-- A session that is not written to keeps its authorities. -/
theorem authority_congr (h : store.Ok host) {written : BoardSnapshot Props}
    (hw : Writes host store sessionKey written next) {key : String} (hne : key ≠ sessionKey)
    (name : String) : next.authority host key name = store.authority host key name := by
  obtain ⟨snapshot, hs⟩ := h key
  by_cases hkey : key ∈ store.sessions
  · rw [authority_eq (hw.congr hne hs) (hw.sessions ▸ hkey), authority_eq hs hkey,
      (hw.others key hne name).2]
  · unfold authority getSnapshot
    rw [if_neg hkey, hw.sessions, if_neg hkey]
    rfl

theorem granted_of_effective {grantState : GrantState} {manifest : ParsedBoardManifest}
    (h : effectiveGrantState grantState manifest = .granted) : grantState = .granted := by
  unfold effectiveGrantState at h
  split_ifs at h
  exact h

/-- What is granted is covered by its own grant. -/
theorem covers_self (h : store.Ok host) {name : String} {a : Authority}
    (ha : store.authority host sessionKey name = some a) (hg : a.grantState = .granted) :
    a.Covers a := by
  obtain ⟨snapshot, hs⟩ := h sessionKey
  rw [authority_eq hs (mem_sessions_of_authority ha), ← hs.widgets] at ha
  obtain ⟨widget, hw, rfl⟩ := Option.map_eq_some_iff.mp ha
  obtain ⟨row, hrow, rfl⟩ := Option.map_eq_some_iff.mp hw
  have hok := hs.rows name row hrow
  have hgranted := granted_of_effective hg
  refine ⟨List.Subset.refl _, List.Subset.refl _, ?_⟩
  simp only [hrow, rowScope]
  cases hkind : row.contentKind with
  | plugin => exact absurd (hgranted.symm.trans (hok.plugin hkind)) (by simp)
  | html => rfl
  | mcpApp =>
    obtain ⟨descriptor, interactive, id, hdescriptor, hinteractive, -, -, htrue⟩ := hok.mcpApp hkind
    rw [hdescriptor]
    exact ⟨by rw [hinteractive, htrue (by rw [hgranted]; simp)]; rfl, _, rfl⟩

theorem rowScope_congr {row row' : WidgetRow} (hk : row'.contentKind = row.contentKind)
    (hh : row'.html = row.html) (hd : row'.descriptorJson = row.descriptorJson)
    (hi : row'.manifest.mcpAppInteractive = row.manifest.mcpAppInteractive) :
    rowScope host (some row') = rowScope host (some row) := by
  simp only [rowScope, hk, hh, hd, hi]

/-- Operations change no authority. -/
theorem applyOps_authority (h : store.Ok host) {ops : List BoardOp}
    (he : store.applyOps host sessionKey ops = .ok (snapshot, next)) :
    next.Ok host ∧ ∀ key name a, next.authority host key name = some a →
      store.authority host key name = some a := by
  by_cases hops : ops = []
  · unfold applyOps at he
    rw [if_pos hops] at he
    obtain ⟨-, rfl⟩ := Prod.mk.inj (Except.ok.inj he)
    exact ⟨h, fun _ _ _ ha => ha⟩
  obtain ⟨prior, hprior⟩ := h sessionKey
  obtain ⟨hs, ⟨layout, hlayout, rfl⟩, hnext, hw⟩ := applyOps_eq_ok hprior hops he
  have hc := batchContents_of_ok hprior.settled.toNormal hlayout
  refine ⟨h.writes hw, fun key name a ha => ?_⟩
  by_cases hkey : key = sessionKey
  · subst hkey
    rw [authority_eq hw.holds (hw.sessions ▸ hs)] at ha
    obtain ⟨widget, hwidget, rfl⟩ := Option.map_eq_some_iff.mp ha
    have hkept : widget ∈ layout.widgets ∧ widget.name = name := by
      unfold kept at hwidget
      split_ifs at hwidget
      · cases hwidget
      · exact (find?_eq_some_iff hc.settled.names).mp hwidget
    obtain ⟨hm, rfl⟩ := hkept
    obtain ⟨w, hwm, hname, -, hgrant, hdeclared⟩ := InMemoryBoardStore.batch_widget hc hm
    obtain ⟨row, hrow, -⟩ := hprior.exists_row hwm
    rw [authority_eq hprior hs, ← hname, find?_eq_some_of_mem hprior.settled.names hwm,
      Option.map_some, hgrant, hdeclared, hrow, hnext]
    simp only
    rw [get?_writeOps hprior rfl hc.settled.toNormal, hname,
      find?_eq_some_of_mem hc.settled.names hm, Option.bind_some, ← hname, hrow, Option.map_some,
      @rowScope_congr _ _ row (opsRow ops w.name widget row) rfl rfl rfl rfl]
  · rwa [authority_congr h hw hkey] at ha

/-- The scope of a granted row that a put may keep granted. -/
theorem scope_of_context {row : WidgetRow} (hok : RowOk host row)
    (hgranted : row.grantState = .granted) {params : BoardWidgetPutParams Props}
    (hscope : grantScopeMatches (some row) params.content = true)
    (hcontent : ContentKept host.toHost params.content row.grantedSha) (id : String)
    (widget : BoardWidget Props) :
    match rowScope host (some (putRow host params id widget)) with
    | .html sha256 => rowScope host (some row) = .html sha256
    | .mcpApp serverName interactive =>
      interactive = true ∧ ∃ earlier, rowScope host (some row) = .mcpApp serverName earlier
    | .plugin => False := by
  unfold putRow createBoardWidgetContentFields
  cases hparams : params.content with
  | plugin pluginKind props =>
    rw [hparams] at hcontent
    exact hcontent.elim
  | html html =>
    rw [hparams] at hcontent hscope
    have hkind : row.contentKind = .html := by
      unfold grantScopeMatches at hscope
      simp only at hscope
      split at hscope <;> simp_all
    obtain ⟨old, hold, hsha, -, hgrantedSha⟩ := hok.html hkind
    have hsame : host.sha256 old = host.sha256 html := by
      have hc : row.grantedSha = some (host.sha256 html) := hcontent
      rw [hgrantedSha hgranted, hsha] at hc
      exact Option.some.inj hc
    simp only [rowScope, hkind, hold, Option.getD_some]
    rw [hsame]
  | mcpApp descriptor interactive =>
    rw [hparams] at hcontent hscope
    have hstored : row.contentKind = .mcpApp ∧ ∃ stored, row.descriptorJson = some (.mcpApp stored) ∧
        stored.serverName = descriptor.serverName := by
      unfold grantScopeMatches at hscope
      simp only at hscope
      split at hscope <;> simp_all
    obtain ⟨hkind, stored, hdescriptor, hserver⟩ := hstored
    simp only [rowScope, hkind, hdescriptor, hserver, serializeManifest, Option.map_some,
      Option.some.injEq, decide_eq_true_eq]
    exact ⟨hcontent, _, rfl⟩

/-- A put widens no grant. -/
theorem putWidget_authority (hurl : OriginsReparse host.parseUrl) (h : store.Ok host)
    {params : BoardWidgetPutParams Props} {id : HexId}
    (he : store.putWidget host params id = .ok (snapshot, next)) :
    next.Ok host ∧ ∀ key name a, next.authority host key name = some a →
      a.grantState = .granted →
      ∃ b, store.authority host key name = some b ∧ b.grantState = .granted ∧ b.Covers a := by
  obtain ⟨prior, hprior⟩ := h params.sessionKey
  obtain ⟨hs, declared, tabId, position, widget, -, -, hkept, hput, hfind, hnext, hw⟩ :=
    putWidget_eq_ok hurl hprior he
  have hok := h.writes hw
  refine ⟨hok, fun key name a ha hgranted => ?_⟩
  by_cases hkey : key = params.sessionKey
  swap
  · rw [authority_congr h hw hkey] at ha
    exact ⟨a, ha, hgranted, covers_self h ha hgranted⟩
  subst hkey
  obtain ⟨hm, hname⟩ := (find?_eq_some_iff hput.settled.names).mp hfind
  have hget := @get?_writeWidget _ host _ _ _ _ _ hprior hput widget
    (by rw [hname]; exact hfind) { params with declared } id.value name
  have hplace : ∀ w : BoardWidget Props, (rederive host params.content id.value w).name = w.name ∧
      (rederive host params.content id.value w).grantState = w.grantState ∧
      (rederive host params.content id.value w).declared = w.declared := by
    intro w
    unfold rederive
    split <;> exact ⟨rfl, rfl, rfl⟩
  rw [authority_eq hw.holds (hw.sessions ▸ hs), find?_modifyWidget _ _ _ fun w => (hplace w).1,
    hnext, Option.map_map] at ha
  simp only at ha
  rw [hget] at ha
  obtain ⟨w, hwm, rfl⟩ := Option.map_eq_some_iff.mp ha
  by_cases hn : name = params.name
  · subst hn
    obtain rfl : widget = w := Option.some.inj (hfind.symm.trans hwm)
    rw [if_pos hname.symm]
    simp only [Function.comp, hname, if_true] at hgranted ⊢
    rw [(hplace widget).2.1] at hgranted
    -- the widget that is put keeps a grant only if its content and scope are covered by it
    have hsame := unplaced_of_put hput hm (by rw [hname, putResult_name])
    have hg := (field_of_unplaced (f := (·.grantState)) (fun _ => rfl) hsame).symm.trans hgranted
    obtain ⟨hscope, ⟨existing, hexisting, hstate, hsubset⟩, hcontent⟩ := granted_of_putResult hg
    have hdeclared : widget.declared = declared :=
      (field_of_unplaced (fun _ => rfl) hsame).trans (putResult_declared hkept)
    have hold := hprior.widgets params.name
    rw [show prior.widgets.find? (·.name = params.name) = some existing from hexisting] at hold
    obtain ⟨row, hrow, hread⟩ := Option.map_eq_some_iff.mp hold
    obtain ⟨horigins, htools⟩ := subset_of_isSubset hsubset
    refine ⟨_, (authority_eq hprior hs _).trans (congrArg _ hexisting), hstate, ?_⟩
    rw [(hplace widget).2.2, hdeclared, hrow]
    simp only [putContext, hrow, Option.bind_some] at hscope hcontent
    have hrowGranted : row.grantState = .granted := by
      rw [← hread] at hstate
      exact granted_of_effective hstate
    exact ⟨horigins, htools, @scope_of_context _ _ _ (hprior.rows _ row hrow) hrowGranted
      { params with declared } hscope hcontent id.value widget⟩
  · -- the other widgets are only placed anew
    obtain ⟨hwm', rfl⟩ := (find?_eq_some_iff (k := BoardWidget.name) hput.settled.names).mp hwm
    rcases hput.cases hwm' with he | ⟨v, hv, -, he⟩
    · exact absurd ((name_eq_of_unplaced he).trans (putResult_name ..)) hn
    obtain ⟨row, hrow, -⟩ := hprior.exists_row hv
    have hb : store.authority host params.sessionKey w.name = some ⟨w.grantState, w.declared,
        rowScope host (store.tables.widgets.get? (params.sessionKey, w.name))⟩ := by
      rw [authority_eq hprior hs, name_eq_of_unplaced he,
        find?_eq_some_of_mem hprior.settled.names hv, Option.map_some,
        field_of_unplaced (f := (·.grantState)) (fun _ => rfl) he,
        field_of_unplaced (f := (·.declared)) (fun _ => rfl) he]
    have hsame : rowScope host ((snapshot.widgets.find? (·.name = w.name)).bind fun other =>
        (store.tables.widgets.get? (params.sessionKey, w.name)).map (BoardTables.placeRow other)) =
        rowScope host (store.tables.widgets.get? (params.sessionKey, w.name)) := by
      rw [hwm, Option.bind_some, name_eq_of_unplaced he,
        hrow, Option.map_some]
      exact rowScope_congr rfl rfl rfl rfl
    rw [if_neg fun hname' => hn (hname'.trans hname), hsame]
    simp only [Function.comp, if_neg hn] at hgranted ⊢
    exact ⟨_, hb, hgranted, covers_self h hb hgranted⟩

/-- The call that grants a widget. -/
def Grants (host : SqliteHost Props) (sessionKey name : String) (store : SqliteBoardStore)
    (call : BoardCall Props) : Prop :=
  ∃ revision instanceId, ∃ snapshot : BoardSnapshot Props, ∃ next,
    call = .grant sessionKey name .granted revision instanceId ∧
      store.grant host sessionKey name .granted revision instanceId = .ok (snapshot, next)

/-- A decision grants its widget, or changes no authority to a granted one. -/
theorem grant_authority (h : store.Ok host) {name : String} {decision : GrantDecision}
    {revision : ℕ} {instanceId : Option String}
    (he : store.grant host sessionKey name decision revision instanceId = .ok (snapshot, next)) :
    next.Ok host ∧ ∀ key widgetName a, next.authority host key widgetName = some a →
      a.grantState = .granted →
      (key = sessionKey ∧ widgetName = name ∧ decision = .granted) ∨
        store.authority host key widgetName = some a := by
  obtain ⟨prior, hprior⟩ := h sessionKey
  obtain ⟨hs, hmade, -, hother, hw⟩ := grant_eq_ok hprior he
  obtain ⟨-, rfl⟩ := Board.grant_eq_ok hmade
  have hok := h.writes hw
  refine ⟨hok, fun key widgetName a ha hgranted => ?_⟩
  by_cases hkey : key = sessionKey
  swap
  · exact .inr (by rwa [authority_congr h hw hkey] at ha)
  subst hkey
  rw [authority_eq hw.holds (hw.sessions ▸ hs)] at ha
  have hfind := find?_modifyWidget prior.toBoardLayout name widgetName
    (f := BoardWidget.decide decision) fun _ => rfl
  replace ha := (congrArg (Option.map _) hfind).symm.trans ha
  rw [Option.map_map] at ha
  obtain ⟨w, hwm, rfl⟩ := Option.map_eq_some_iff.mp ha
  obtain ⟨hm, rfl⟩ := (find?_eq_some_iff (k := BoardWidget.name) hprior.settled.names).mp hwm
  simp only [Function.comp] at hgranted ⊢
  by_cases hname : w.name = name
  · rw [if_pos hname] at hgranted
    refine .inl ⟨trivial, hname, ?_⟩
    cases decision with
    | granted => rfl
    | rejected => cases hgranted
  · rw [if_neg hname, hother _ hname]
    refine .inr ?_
    rw [authority_eq hprior hs, hwm]
    rfl

/-- What a call does to the authority of a widget that is granted after it. -/
theorem call_authority (hurl : OriginsReparse host.parseUrl) (h : store.Ok host)
    (call : BoardCall Props) :
    (store.call host call).2.Ok host ∧ ∀ key name a,
      (store.call host call).2.authority host key name = some a → a.grantState = .granted →
        Grants host key name store call ∧ a.Covers a ∨
          ∃ b, store.authority host key name = some b ∧ b.grantState = .granted ∧ b.Covers a := by
  have hsame {next : SqliteBoardStore} (hnext : next = store) :
      next.Ok host ∧ ∀ key name a, next.authority host key name = some a →
        a.grantState = .granted → Grants host key name store call ∧ a.Covers a ∨
          ∃ b, store.authority host key name = some b ∧ b.grantState = .granted ∧ b.Covers a := by
    subst hnext
    exact ⟨h, fun key name a ha hg => .inr ⟨a, ha, hg, covers_self h ha hg⟩⟩
  cases call with
  | getSnapshot sessionKey => exact hsame rfl
  | applyOps sessionKey ops =>
    cases he : store.applyOps host sessionKey ops with
    | error e => exact hsame (by simp [SqliteBoardStore.call, he, call.settle])
    | ok result =>
      rw [show (store.call host (.applyOps sessionKey ops)).2 = result.2 by
        simp [SqliteBoardStore.call, he, call.settle]]
      obtain ⟨hok, hauthority⟩ := applyOps_authority h he
      refine ⟨hok, fun key name a ha hg => .inr ?_⟩
      have hb := hauthority key name a ha
      exact ⟨a, hb, hg, covers_self h hb hg⟩
  | putWidget params id =>
    cases he : store.putWidget host params id with
    | error e => exact hsame (by simp [SqliteBoardStore.call, he, call.settle])
    | ok result =>
      rw [show (store.call host (.putWidget params id)).2 = result.2 by
        simp [SqliteBoardStore.call, he, call.settle]]
      obtain ⟨hok, hauthority⟩ := putWidget_authority hurl h he
      exact ⟨hok, fun key name a ha hg => .inr (hauthority key name a ha hg)⟩
  | grant sessionKey name decision revision instanceId =>
    cases he : store.grant host sessionKey name decision revision instanceId with
    | error e => exact hsame (by simp [SqliteBoardStore.call, he, call.settle])
    | ok result =>
      rw [show (store.call host (.grant sessionKey name decision revision instanceId)).2 =
        result.2 by simp [SqliteBoardStore.call, he, call.settle]]
      obtain ⟨hok, hauthority⟩ := grant_authority h he
      refine ⟨hok, fun key widgetName a ha hg => ?_⟩
      rcases hauthority key widgetName a ha hg with ⟨rfl, rfl, rfl⟩ | hb
      · exact .inl ⟨⟨revision, instanceId, result.1, result.2, rfl, he⟩, covers_self hok ha hg⟩
      · exact .inr ⟨a, hb, hg, covers_self h hb hg⟩

end SqliteBoardStore

end Flashclaw.Board
