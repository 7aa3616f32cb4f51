import Flashclaw.Board.Contents
import Flashclaw.Board.Store

/-!
# Boards: the snapshots of puts and grants

What `createBoardWidgetPutSnapshot` and `createBoardGrantSnapshot` make of a
settled board; both stores build on them.
-/

namespace Flashclaw.Board

variable {Props : Type}

open BoardLayout Lists Results

open scoped List

section Modify

variable {layout made : BoardLayout Props}

theorem Settled.of_place (h : layout.Settled) (ht : made.tabs = layout.tabs)
    (hw : made.widgets.map (·.place) = layout.widgets.map (·.place)) : made.Settled where
  toSound := (order_of_place h.toNormal ht hw).1
  tabPositions := by rw [ht]; exact h.tabPositions
  positions t := by
    have hplace := map_place_onTab hw t
    have hlen := congrArg List.length hplace
    rw [List.length_map, List.length_map] at hlen
    have hposition : (made.onTab t).map (·.position) = (layout.onTab t).map (·.position) := by
      simpa [List.map_map, Function.comp_def, BoardWidget.place] using
        congrArg (List.map fun place => place.2.2) hplace
    rw [hposition, hlen, h.positions]
  sorted := by
    let le (a b : String × String × ℕ) : Prop :=
      tabPosition layout.tabs a.2.1 < tabPosition layout.tabs b.2.1 ∨
        tabPosition layout.tabs a.2.1 = tabPosition layout.tabs b.2.1 ∧ a.2.2 ≤ b.2.2
    have hsorted : (layout.widgets.map (·.place)).Pairwise le := List.pairwise_map.mpr h.sorted
    rw [← hw, List.pairwise_map] at hsorted
    rw [ht]
    exact hsorted

theorem modifyWidget_settled (h : layout.Settled) (name : String)
    {f : BoardWidget Props → BoardWidget Props} (hf : ∀ w, (f w).place = w.place) :
    (modifyWidget layout name f).Settled :=
  Settled.of_place h rfl (map_modifyWidget _ layout name hf)

theorem modifyWidget_perm (hn : layout.names.Nodup) {widget : BoardWidget Props}
    (hm : widget ∈ layout.widgets) (f : BoardWidget Props → BoardWidget Props) :
    (modifyWidget layout widget.name f).widgets ~
      f widget :: layout.widgets.filter (·.name ≠ widget.name) := by
  have hperm := (perm_cons_filter_name_ne hn hm).map fun w =>
    if w.name = widget.name then f w else w
  rw [List.map_cons, if_pos rfl] at hperm
  refine hperm.trans (.of_eq (congrArg _ ?_))
  refine (List.map_congr_left fun w hw => ?_).trans (List.map_id _)
  exact if_neg (by simpa using (List.mem_filter.mp hw).2)

end Modify

section Insert

variable {layout made : BoardLayout Props} {widget : BoardWidget Props} {placement : Placement}

/-- A widget inserted under a name that is there replaces what `Object.assign` overwrites. -/
def inserted (layout : BoardLayout Props) (widget : BoardWidget Props) : BoardWidget Props :=
  match layout.widgets.find? (·.name = widget.name) with
  | some existing => existing.assign widget
  | none => widget

theorem inserted_name (layout : BoardLayout Props) (widget : BoardWidget Props) :
    (inserted layout widget).name = widget.name := by
  unfold inserted
  split <;> rfl

/-- What holds of a layout that got a widget, before it is normalized. -/
structure Inserted (layout : BoardLayout Props) (widget : BoardWidget Props)
    (made : BoardLayout Props) : Prop where
  sound : made.Sound
  tabs : made.tabs = layout.tabs
  unplaced : made.widgets.map (·.unplaced) ~ (inserted layout widget).unplaced ::
    (layout.widgets.filter (·.name ≠ widget.name)).map (·.unplaced)

theorem tabs_moveWidget {widget : BoardWidget Props} {targetTabId : String} {position : Option ℚ}
    {after : Option String} (he : moveWidget layout widget targetTabId position after = .ok made) :
    made.tabs = layout.tabs := by
  obtain ⟨-, i, -, rfl⟩ := moveWidget_eq_ok he
  rfl

theorem Inserted.move {next : BoardLayout Props} (h : Inserted layout widget next)
    {moved : BoardWidget Props} (hm : moved ∈ next.widgets) {targetTabId : String}
    {position : Option ℚ} {after : Option String}
    (he : moveWidget next moved targetTabId position after = .ok made) :
    Inserted layout widget made where
  sound := moveWidget_sound h.sound hm he
  tabs := (tabs_moveWidget he).trans h.tabs
  unplaced := (moveWidget_perm (·.unplaced) (fun _ _ => rfl) (fun _ _ => rfl) h.sound.names hm
    he).trans h.unplaced

/-- A widget on a tab of the layout in the place of another, or after all others. -/
theorem Inserted.of_perm {next : BoardLayout Props} (h : layout.Sound)
    (ht : next.tabs = layout.tabs) {placed : BoardWidget Props} (hp : placed.tabId ∈ layout.tabIds)
    (hu : placed.unplaced = (inserted layout widget).unplaced)
    (hw : next.widgets ~ placed :: layout.widgets.filter (·.name ≠ widget.name))
    (hsize : next.widgets.length < 2 ^ 32) : Inserted layout widget next where
  sound :=
    { tabIds := by rw [tabIds, ht]; exact h.tabIds
      names := by
        have hname : placed.name = widget.name := by
          rw [← BoardWidget.unplaced_name, hu, BoardWidget.unplaced_name, inserted_name]
        refine (hw.map (·.name)).nodup_iff.mpr ?_
        rw [List.map_cons, map_name_filter_ne, hname]
        exact List.nodup_cons.mpr ⟨by simp, h.names.filter _⟩
      onTabs := by
        intro w hm
        rw [tabIds, ht]
        rcases List.mem_cons.mp (hw.subset hm) with rfl | hm
        · exact hp
        · exact h.onTabs w (List.mem_of_mem_filter hm)
      size := hsize }
  tabs := ht
  unplaced := by
    rw [← hu]
    exact hw.map _

theorem inserted_of_ok (h : layout.Sound) (hsize : layout.widgets.length + 1 < 2 ^ 32)
    (htab : placement.tabId ∈ layout.tabIds)
    (he : insertBoardWidget layout widget placement = .ok made) :
    ∃ next, Inserted layout widget next ∧ made = normalizeBoardLayout next := by
  unfold insertBoardWidget at he
  split at he
  · rename_i existing hfind
    obtain ⟨hm, hname⟩ := (find?_eq_some_iff h.names).mp hfind
    let assigned : BoardWidget Props :=
      { existing.assign widget with tabId := placement.tabId, position := existing.position }
    let next := modifyWidget layout widget.name fun _ => assigned
    have hperm : next.widgets ~
        assigned :: layout.widgets.filter (·.name ≠ widget.name) := by
      have := modifyWidget_perm h.names hm fun _ => assigned
      rwa [hname] at this
    have hnext : Inserted layout widget next := by
      refine Inserted.of_perm h rfl htab ?_ hperm ?_
      · rw [inserted, hfind]
        rfl
      · have hlen : next.widgets.length = layout.widgets.length := List.length_map ..
        omega
    simp only at he
    split_ifs at he
    · obtain ⟨moved, hmoved, he⟩ := bind_eq_ok.mp he
      exact ⟨moved, hnext.move (hperm.mem_iff.mpr List.mem_cons_self) hmoved,
        (Except.ok.inj he).symm⟩
    · exact ⟨next, hnext, (Except.ok.inj he).symm⟩
  · rename_i hfind
    obtain ⟨moved, hmoved, he⟩ := bind_eq_ok.mp he
    refine ⟨moved, ?_, (Except.ok.inj he).symm⟩
    have hself : layout.widgets.filter (·.name ≠ widget.name) = layout.widgets :=
      List.filter_eq_self.mpr fun w hm => by
        simpa using List.find?_eq_none.mp hfind w hm
    let placed : BoardWidget Props := { widget with tabId := placement.tabId }
    have hnext : Inserted layout widget { layout with widgets := layout.widgets ++ [placed] } := by
      refine @Inserted.of_perm _ _ _ _ h rfl placed htab ?_ ?_ (by simpa using hsize)
      · rw [inserted, hfind]
        rfl
      · rw [hself]
        exact List.perm_append_singleton _ _
    exact hnext.move (by simp [placed]) hmoved

end Insert

section Put

variable {host : Host Props} {prior next : BoardSnapshot Props}
  {params : BoardWidgetPutParams Props} {context : PutContext}

/-- The widget of a put as the board has it, up to its place. -/
def putResult (host : Host Props) (prior : BoardLayout Props)
    (params : BoardWidgetPutParams Props) (tabId : String) (position : ℕ)
    (declared : Option BoardWidgetDeclared) (context : PutContext) : BoardWidget Props :=
  let widget := inserted prior
    (putWidgetValue host params tabId (prior.widgets.find? (·.name = params.name)) position
      declared context)
  if (createBoardDeclaredSummary declared).isSome then widget else widget.clearDeclared

theorem putResult_name (prior : BoardLayout Props) (tabId : String) (position : ℕ)
    (declared : Option BoardWidgetDeclared) :
    (putResult host prior params tabId position declared context).name = params.name := by
  unfold putResult
  simp only
  split_ifs <;> exact inserted_name _ _

/-- What a put makes of the board, given the widget it puts. -/
structure PutSnapshot (prior : BoardSnapshot Props) (sessionKey : String)
    (widget : BoardWidget Props) (next : BoardSnapshot Props) : Prop where
  sessionKey : next.sessionKey = sessionKey
  revision : next.revision = prior.revision + 1
  settled : next.toBoardLayout.Settled
  tabs : next.tabs = (withMainTab prior.toBoardLayout).tabs
  width : next.widgets.length ≤ boardMaxWidgets
  unplaced : next.widgets.map (·.unplaced) ~
    widget.unplaced :: (prior.widgets.filter (·.name ≠ widget.name)).map (·.unplaced)

/-- A widget after a put is the one put or, under another name, one from before. -/
theorem PutSnapshot.cases {sessionKey : String} {widget : BoardWidget Props}
    (h : PutSnapshot prior sessionKey widget next) {w' : BoardWidget Props}
    (hm : w' ∈ next.widgets) :
    w'.unplaced = widget.unplaced ∨
      ∃ w ∈ prior.widgets, w.name ≠ widget.name ∧ w'.unplaced = w.unplaced := by
  have hmem := h.unplaced.subset (List.mem_map_of_mem (f := BoardWidget.unplaced) hm)
  rcases List.mem_cons.mp hmem with he | hmem
  · exact .inl he
  · obtain ⟨w, hw, he⟩ := List.mem_map.mp hmem
    obtain ⟨hw, hne⟩ := List.mem_filter.mp hw
    exact .inr ⟨w, hw, by simpa using hne, he.symm⟩

theorem PutSnapshot.exists_put {sessionKey : String} {widget : BoardWidget Props}
    (h : PutSnapshot prior sessionKey widget next) :
    ∃ w', next.widgets.find? (·.name = widget.name) = some w' ∧ w'.unplaced = widget.unplaced := by
  obtain ⟨w', hm, he⟩ := List.mem_map.mp (h.unplaced.mem_iff.mpr List.mem_cons_self)
  refine ⟨w', (find?_eq_some_iff h.settled.names).mpr ⟨hm, ?_⟩, he⟩
  rw [← w'.unplaced_name, he, widget.unplaced_name]

/-- A field that a place does not change. -/
theorem field_of_unplaced {β : Type*} {f : BoardWidget Props → β} (hf : ∀ w, f w.unplaced = f w)
    {v w : BoardWidget Props} (h : v.unplaced = w.unplaced) : f v = f w := by
  rw [← hf v, h, hf w]

theorem name_eq_of_unplaced {v w : BoardWidget Props} (h : v.unplaced = w.unplaced) :
    v.name = w.name :=
  field_of_unplaced (fun _ => rfl) h

/-- The widget of that name after a put is the one put. -/
theorem unplaced_of_put {prior snapshot : BoardSnapshot Props} {sessionKey : String}
    {result widget : BoardWidget Props} (hput : PutSnapshot prior sessionKey result snapshot)
    (hm : widget ∈ snapshot.widgets) (hname : widget.name = result.name) :
    widget.unplaced = result.unplaced := by
  rcases hput.cases hm with he | ⟨v, -, hne, he⟩
  · exact he
  · exact absurd ((name_eq_of_unplaced he).symm.trans hname) hne

theorem withMainTab_settled {layout : BoardLayout Props} (h : layout.Settled) :
    (withMainTab layout).Settled ∧ (withMainTab layout).widgets = layout.widgets ∧
      (withMainTab layout).tabs ≠ [] := by
  unfold withMainTab
  split_ifs with hempty
  · have hnone : layout.widgets = [] := by
      refine List.eq_nil_iff_forall_not_mem.mpr fun w hm => ?_
      simpa [tabIds, hempty] using h.onTabs w hm
    refine ⟨?_, rfl, by simp⟩
    rw [hnone]
    refine ⟨⟨⟨by simp [tabIds], by simp [names], by simp, by simp⟩, by simp, ?_⟩, .nil⟩
    intro t
    simp [onTab]
  · exact ⟨h, rfl, hempty⟩

theorem unplaced_modifyWidget (layout : BoardLayout Props) (name : String)
    {f : BoardWidget Props → BoardWidget Props} (hf : ∀ w, (f w).unplaced = f w.unplaced) :
    (modifyWidget layout name f).widgets.map (·.unplaced) =
      (layout.widgets.map (·.unplaced)).map fun w => if w.name = name then f w else w := by
  simp only [modifyWidget, List.map_map]
  refine List.map_congr_left fun w _ => ?_
  by_cases hw : w.name = name
  · simp [hw, hf]
  · simp [hw]

/-- Dropping the declaration of the widget put. -/
theorem unplaced_dropDeclared {layout : BoardLayout Props} {widget : BoardWidget Props}
    {others : List (BoardWidget Props)} (declared : Option BoardWidgetDeclared)
    (h : layout.widgets.map (·.unplaced) ~
      widget.unplaced :: (others.filter (·.name ≠ widget.name)).map (·.unplaced)) :
    (dropDeclared layout widget.name declared).widgets.map (·.unplaced) ~
      (if (createBoardDeclaredSummary declared).isSome then widget
        else widget.clearDeclared).unplaced ::
        (others.filter (·.name ≠ widget.name)).map (·.unplaced) := by
  unfold dropDeclared
  split_ifs
  · exact h
  · rw [unplaced_modifyWidget layout widget.name (f := BoardWidget.clearDeclared) fun _ => rfl]
    refine (h.map _).trans (.of_eq ?_)
    rw [List.map_cons, BoardWidget.unplaced_name, if_pos rfl]
    refine congrArg _ ((List.map_congr_left fun w hw => ?_).trans (List.map_id _))
    obtain ⟨v, hv, rfl⟩ := List.mem_map.mp hw
    exact if_neg (by simpa using (List.mem_filter.mp hv).2)

theorem length_filter_name_ne_lt {widgets : List (BoardWidget Props)} {name : String}
    (h : widgets.find? (·.name = name) ≠ none) :
    (widgets.filter (·.name ≠ name)).length < widgets.length := by
  obtain ⟨w, hw⟩ := Option.ne_none_iff_exists'.mp h
  refine List.length_filter_lt_length_iff_exists.mpr
    ⟨w, List.mem_of_find?_eq_some hw, ?_⟩
  simpa using List.find?_some hw

/-- The snapshot of a put, from the layout that got its widget. -/
theorem putSnapshot_of_inserted (h : prior.toBoardLayout.Settled) {value : BoardWidget Props}
    (hroom : ¬ (prior.widgets.find? (·.name = value.name) = none ∧
      prior.widgets.length ≥ boardMaxWidgets))
    (hwidth : prior.widgets.length ≤ boardMaxWidgets) (declared : Option BoardWidgetDeclared)
    {inner : BoardLayout Props} (hinner : Inserted (withMainTab prior.toBoardLayout) value inner)
    (sessionKey : String) :
    PutSnapshot prior sessionKey
      (if (createBoardDeclaredSummary declared).isSome then inserted prior.toBoardLayout value
        else (inserted prior.toBoardLayout value).clearDeclared)
      ⟨dropDeclared (normalizeBoardLayout inner) value.name declared, sessionKey,
        prior.revision + 1⟩ := by
  obtain ⟨hmain, hwidgets, -⟩ := withMainTab_settled h
  have hunplaced := (unplaced_normalize_perm inner).trans hinner.unplaced
  have hsame : inserted (withMainTab prior.toBoardLayout) value =
      inserted prior.toBoardLayout value := by
    unfold inserted
    rw [hwidgets]
  rw [hsame, hwidgets, ← inserted_name prior.toBoardLayout value] at hunplaced
  have hput := unplaced_dropDeclared declared hunplaced
  rw [inserted_name] at hput
  have hname : (if (createBoardDeclaredSummary declared).isSome then
      inserted prior.toBoardLayout value
        else (inserted prior.toBoardLayout value).clearDeclared).name = value.name := by
    split_ifs <;> exact inserted_name _ _
  have hdrop : ∀ layout : BoardLayout Props,
      (dropDeclared layout value.name declared).tabs = layout.tabs := by
    intro layout
    unfold dropDeclared
    split_ifs <;> rfl
  refine ⟨rfl, rfl, ?_, ?_, ?_, by rw [hname]; exact hput⟩
  · have hsettled := normalize_settled hinner.sound
    unfold dropDeclared
    split_ifs
    · exact hsettled
    · exact modifyWidget_settled hsettled _ fun _ => rfl
  · refine (hdrop _).trans ?_
    change numberTabs (sortTabs inner.tabs) = _
    rw [hinner.tabs, sortTabs_eq hmain.tabs_sorted, numberTabs_eq_self hmain.tabPositions]
  · have hlen := hput.length_eq
    rw [List.length_map, List.length_cons, List.length_map] at hlen
    change (dropDeclared (normalizeBoardLayout inner) value.name declared).widgets.length ≤ _
    rw [hlen]
    by_cases hfind : prior.widgets.find? (·.name = value.name) = none
    · have := List.length_filter_le (fun w => decide (w.name ≠ value.name)) prior.widgets
      have : ¬ prior.widgets.length ≥ boardMaxWidgets := fun hge => hroom ⟨hfind, hge⟩
      omega
    · have := length_filter_name_ne_lt hfind
      omega

theorem put_eq_ok (h : prior.toBoardLayout.Settled) (hwidth : prior.widgets.length ≤ boardMaxWidgets)
    (he : createBoardWidgetPutSnapshot host prior params context = .ok next) :
    ∃ tabId position declared, validateContent host params = .ok () ∧
      putDeclared host params = .ok declared ∧
      PutSnapshot prior params.sessionKey
        (putResult host prior.toBoardLayout params tabId position declared context) next := by
  unfold createBoardWidgetPutSnapshot at he
  obtain ⟨_, hvalid, he⟩ := bind_eq_ok.mp he
  rw [h.normalize] at he
  obtain ⟨hmain, hwidgets, -⟩ := withMainTab_settled h
  simp only at he
  split_ifs at he with hroom htab
  obtain ⟨declared, hdeclared, he⟩ := bind_eq_ok.mp he
  obtain ⟨made, hmade, he⟩ := bind_eq_ok.mp he
  obtain rfl := Except.ok.inj he
  rw [hwidgets] at hroom hmade htab
  obtain ⟨tab, htab, hid⟩ := List.any_eq_true.mp htab
  have hin : putTabId params (withMainTab prior.toBoardLayout)
      (prior.widgets.find? (·.name = params.name)) ∈ (withMainTab prior.toBoardLayout).tabIds :=
    List.mem_map.mpr ⟨tab, htab, by simpa using hid⟩
  have hsize : (withMainTab prior.toBoardLayout).widgets.length + 1 < 2 ^ 32 := by
    rw [hwidgets]
    unfold boardMaxWidgets at hwidth
    omega
  obtain ⟨inner, hinner, rfl⟩ := inserted_of_ok hmain.toSound hsize hin hmade
  exact ⟨_, prior.widgets.length, declared, hvalid, hdeclared,
    putSnapshot_of_inserted h hroom hwidth declared hinner params.sessionKey⟩

end Put

section Grant

variable {current next : BoardSnapshot Props} {name : String} {decision : GrantDecision}
  {revision : ℕ} {instanceId : Option String}

theorem mem_modifyWidget {layout : BoardLayout Props} {f : BoardWidget Props → BoardWidget Props}
    {w' : BoardWidget Props} : w' ∈ (modifyWidget layout name f).widgets ↔
      ∃ w ∈ layout.widgets, (if w.name = name then f w else w) = w' :=
  List.mem_map

theorem grant_eq_ok
    (he : createBoardGrantSnapshot current name decision revision instanceId = .ok next) :
    (∃ widget, current.widgets.find? (·.name = name) = some widget ∧
      widget.grantState = .pending) ∧
      next = ⟨modifyWidget current.toBoardLayout name (·.decide decision), current.sessionKey,
        current.revision + 1⟩ := by
  unfold createBoardGrantSnapshot at he
  split at he
  · cases he
  · rename_i widget hfind
    split_ifs at he with _ _ hpending
    exact ⟨⟨widget, hfind, not_not.mp hpending⟩, (Except.ok.inj he).symm⟩

end Grant

end Flashclaw.Board
