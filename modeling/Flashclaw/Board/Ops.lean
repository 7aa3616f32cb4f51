import Flashclaw.Board.Normal
import Flashclaw.Lib.Lists
import Flashclaw.Lib.Results

/-!
# Boards: what each operation does to the order

One lemma for each kind of operation: the layout it makes of a normal one is
sound, and its normalization has the tabs and the widgets of each tab in the
order the operation asks for.
-/

namespace Flashclaw.Board

variable {Props : Type}

open BoardLayout Results

open scoped List

theorem clampInteger_le {value : ℚ} {length : ℕ} :
    (clampInteger value 0 length).toNat ≤ length := by
  unfold clampInteger
  omega

theorem requireTab_eq_ok {layout : BoardLayout Props} {tabId : String} {tab : BoardTab}
    (h : requireTab layout tabId = .ok tab) : tab ∈ layout.tabs ∧ tab.tabId = tabId := by
  unfold requireTab at h
  split at h
  · cases h
  · rename_i hf
    cases h
    exact ⟨List.mem_of_find?_eq_some hf, by simpa using List.find?_some hf⟩

theorem requireWidget_eq_ok {layout : BoardLayout Props} {name : String}
    {widget : BoardWidget Props} (h : requireWidget layout name = .ok widget) :
    widget ∈ layout.widgets ∧ widget.name = name := by
  unfold requireWidget at h
  split at h
  · cases h
  · rename_i hf
    cases h
    exact ⟨List.mem_of_find?_eq_some hf, by simpa using List.find?_some hf⟩

/-- The order after an operation, as its kind specifies it. -/
def OrderAfter (before : BoardLayout Props) (op : BoardOp) (after : BoardLayout Props) : Prop :=
  match op with
  | .tabCreate tabId _ _ => tabId ∉ before.tabIds ∧ after.tabIds = before.tabIds ++ [tabId] ∧
      ∀ t, after.namesOn t = before.namesOn t
  | .tabUpdate tabId _ _ position =>
      after.tabIds.filter (· ≠ tabId) = before.tabIds.filter (· ≠ tabId) ∧
      after.tabIds.Perm before.tabIds ∧ (position = none → after.tabIds = before.tabIds) ∧
      ∀ t, after.namesOn t = before.namesOn t
  | .tabDelete tabId => after.tabIds = before.tabIds.filter (· ≠ tabId) ∧
      ∀ t, after.namesOn t = if t = tabId then []
        else if after.tabIds.head? = some t then before.namesOn t ++ before.namesOn tabId
        else before.namesOn t
  | .tabsReorder tabIds => tabIds.Perm before.tabIds ∧ after.tabIds = tabIds ∧
      ∀ t, after.namesOn t = before.namesOn t
  | .widgetMove name _ _ _ => after.tabIds = before.tabIds ∧
      ∀ t, (after.namesOn t).filter (· ≠ name) = (before.namesOn t).filter (· ≠ name)
  | .widgetResize _ _ _ _ => after.tabIds = before.tabIds ∧
      ∀ t, after.namesOn t = before.namesOn t
  | .widgetRemove name => after.tabIds = before.tabIds ∧
      ∀ t, after.namesOn t = (before.namesOn t).filter (· ≠ name)

/-- The names an operation removes. -/
def BoardOp.removes (op : BoardOp) (name : String) : Bool := op = .widgetRemove name

/-- What holds of the layout an operation makes, before it is normalized. -/
structure OpResult (before : BoardLayout Props) (op : BoardOp) (made : BoardLayout Props) :
    Prop where
  sound : made.Sound
  order : OrderAfter before op (normalizeBoardLayout made)
  names : made.names.Perm (before.names.filter fun name => !op.removes name)

theorem filter_removes_eq_self {op : BoardOp} (h : ∀ name, op ≠ .widgetRemove name)
    (names : List String) : names.filter (fun name => !op.removes name) = names := by
  simp [BoardOp.removes, h]

theorem Sound.of_tabs {before made : BoardLayout Props} (h : before.Sound)
    (hw : made.widgets = before.widgets) (hn : made.tabIds.Nodup)
    (hsub : before.tabIds ⊆ made.tabIds) : made.Sound where
  tabIds := hn
  names := by rw [names, hw]; exact h.names
  onTabs := by rw [hw]; exact fun widget hm => hsub (h.onTabs widget hm)
  size := by rw [hw]; exact h.size

theorem namesOn_of_widgets {before made : BoardLayout Props} (h : before.Normal)
    (hw : made.widgets = before.widgets) (t : String) :
    (normalizeBoardLayout made).namesOn t = before.namesOn t := by
  have hon : made.onTab t = before.onTab t := by rw [onTab, hw, onTab]
  rw [namesOn_normalize_of_sorted (by rw [hon]; exact h.onTab_sorted t), namesOn, hon, namesOn]

section Tabs

variable {before made : BoardLayout Props}

theorem opResult_tabCreate (h : before.Normal) {tabId title : String} {chatDock : Option ChatDock}
    (he : applyBoardOp before (.tabCreate tabId title chatDock) = .ok made) :
    OpResult before (.tabCreate tabId title chatDock) made := by
  simp only [applyBoardOp] at he
  split_ifs at he with hany
  cases he
  have hnew : tabId ∉ before.tabIds := by
    simpa [BoardLayout.tabIds] using hany
  have hids : ({ before with tabs := before.tabs ++
      [⟨tabId, title, before.tabs.length, chatDock.getD .right⟩] } : BoardLayout Props).tabIds =
        before.tabIds ++ [tabId] := by
    simp [BoardLayout.tabIds]
  refine ⟨Sound.of_tabs h.toSound rfl ?_ ?_, ⟨hnew, ?_, namesOn_of_widgets h rfl⟩, ?_⟩
  · rw [hids]
    exact List.nodup_append_comm.mp (List.nodup_cons.mpr ⟨hnew, h.tabIds⟩)
  · rw [hids]
    exact List.subset_append_left _ _
  · rw [tabIds_normalize_of_sorted, hids]
    refine List.pairwise_append.mpr ⟨h.tabs_sorted, List.pairwise_singleton _ _, ?_⟩
    intro a ha b hb
    obtain rfl := List.mem_singleton.mp hb
    have : a.position ∈ List.range before.tabs.length := by
      rw [← h.tabPositions]
      exact List.mem_map_of_mem (f := BoardTab.position) ha
    exact (List.mem_range.mp this).le
  · rw [filter_removes_eq_self (by simp)]
    exact .refl _

theorem numberTabs_sorted (tabs : List BoardTab) :
    (numberTabs tabs).Pairwise fun a b => a.position ≤ b.position := by
  refine pairwise_position_of_range ?_
  rw [map_position_numberTabs]
  simp [numberTabs]

theorem map_modifyTab {β : Type*} (g : BoardTab → β) (layout : BoardLayout Props) (tabId : String)
    {f : BoardTab → BoardTab} (h : ∀ tab, g (f tab) = g tab) :
    (modifyTab layout tabId f).tabs.map g = layout.tabs.map g := by
  simp only [modifyTab, List.map_map]
  refine List.map_congr_left fun tab _ => ?_
  simp only [Function.comp_apply]
  split_ifs
  · exact h tab
  · rfl

theorem modifyTab_sorted {layout : BoardLayout Props} (tabId : String) {f : BoardTab → BoardTab}
    (h : ∀ tab, (f tab).position = tab.position)
    (hs : layout.tabs.Pairwise fun a b => a.position ≤ b.position) :
    (modifyTab layout tabId f).tabs.Pairwise fun a b => a.position ≤ b.position := by
  rw [← List.pairwise_map (f := BoardTab.position)] at hs ⊢
  rwa [map_modifyTab _ _ _ h]

/-- The tab ids after a move: the moved one anywhere among the others. -/
theorem tabIds_moveTab {layout : BoardLayout Props} {tab : BoardTab} (position : ℚ)
    (hs : layout.tabs.Pairwise fun a b => a.position ≤ b.position) :
    ∃ i ≤ (layout.tabIds.filter (· ≠ tab.tabId)).length, (moveTab layout tab position).tabIds =
      (layout.tabIds.filter (· ≠ tab.tabId)).insertIdx i tab.tabId := by
  have hf : (layout.tabs.filter (·.tabId ≠ tab.tabId)).map (·.tabId) =
      layout.tabIds.filter (· ≠ tab.tabId) := by
    rw [BoardLayout.tabIds, List.filter_map]
    rfl
  refine ⟨(clampInteger position 0 ((sortTabs layout.tabs).filter (·.tabId ≠ tab.tabId)).length).toNat,
    ?_, ?_⟩
  · rw [← hf, List.length_map, sortTabs_eq hs]
    exact clampInteger_le
  · rw [← hf, BoardLayout.tabIds, moveTab]
    simp only
    rw [map_numberTabs _ fun _ _ => rfl, List.map_insertIdx, sortTabs_eq hs]

theorem perm_cons_filter_ne {l : List String} {a : String} (hn : l.Nodup) (ha : a ∈ l) :
    l.Perm (a :: l.filter (· ≠ a)) := by
  have h := List.perm_cons_erase ha
  rw [hn.erase_eq_filter a] at h
  simpa [bne, beq_eq_decide] using h

theorem opResult_tabUpdate (h : before.Normal) {tabId : String} {title : Option String}
    {chatDock : Option ChatDock} {position : Option ℚ}
    (he : applyBoardOp before (.tabUpdate tabId title chatDock position) = .ok made) :
    OpResult before (.tabUpdate tabId title chatDock position) made := by
  simp only [applyBoardOp] at he
  obtain ⟨tab, htab, he⟩ := bind_eq_ok.mp he
  obtain ⟨hmem, rfl⟩ := requireTab_eq_ok htab
  split_ifs at he
  have hin : tab.tabId ∈ before.tabIds := List.mem_map_of_mem (f := BoardTab.tabId) hmem
  let updated := modifyTab before tab.tabId fun tab => tab.update title chatDock
  have hids : updated.tabIds = before.tabIds := map_modifyTab _ _ _ fun _ => rfl
  have hs := modifyTab_sorted tab.tabId (f := fun tab => tab.update title chatDock)
    (fun _ => rfl) h.tabs_sorted
  have hnames : ∀ m : BoardLayout Props, m.widgets = before.widgets → m.names.Perm
      (before.names.filter fun name =>
        !(BoardOp.tabUpdate tab.tabId title chatDock position).removes name) := by
    intro m hw
    rw [filter_removes_eq_self (by simp), names, hw, names]
  cases position with
  | none =>
    obtain rfl : updated = made := Except.ok.inj he
    refine ⟨Sound.of_tabs h.toSound rfl ?_ ?_, ?_, hnames _ rfl⟩
    · rw [hids]; exact h.tabIds
    · rw [hids]; exact List.Subset.refl _
    · rw [OrderAfter, tabIds_normalize_of_sorted hs, hids]
      exact ⟨rfl, .refl _, fun _ => rfl, namesOn_of_widgets h rfl⟩
  | some position =>
    obtain rfl : moveTab updated (tab.update title chatDock) position = made := Except.ok.inj he
    obtain ⟨i, hi, hmoved⟩ := @tabIds_moveTab _ _ (tab.update title chatDock) position hs
    change i ≤ (updated.tabIds.filter (· ≠ tab.tabId)).length at hi
    change _ = (updated.tabIds.filter (· ≠ tab.tabId)).insertIdx i tab.tabId at hmoved
    rw [hids] at hi hmoved
    have hperm : (moveTab updated (tab.update title chatDock) position).tabIds.Perm
        before.tabIds := by
      rw [hmoved]
      exact (List.perm_insertIdx _ _ hi).trans (perm_cons_filter_ne h.tabIds hin).symm
    refine ⟨Sound.of_tabs h.toSound rfl (hperm.nodup_iff.mpr h.tabIds) hperm.symm.subset, ?_,
      hnames _ rfl⟩
    rw [OrderAfter, tabIds_normalize_of_sorted (numberTabs_sorted _)]
    refine ⟨?_, hperm, (fun hn => nomatch hn), namesOn_of_widgets h rfl⟩
    rw [hmoved, Lists.filter_insertIdx_of_neg (by simp), List.filter_filter]
    simp

theorem opResult_tabsReorder (h : before.Normal) {ids : List String}
    (he : applyBoardOp before (.tabsReorder ids) = .ok made) :
    OpResult before (.tabsReorder ids) made := by
  simp only [applyBoardOp] at he
  split_ifs at he with hbad
  simp only [not_or, not_not, not_exists, not_and, ne_eq] at hbad
  obtain ⟨hlen, hn, hsub⟩ := hbad
  have hmade := (Except.ok.inj he).symm
  have hids : made.tabIds = ids := by
    rw [hmade]
    change (numberTabs (ids.filterMap fun tabId =>
      before.tabs.find? (·.tabId = tabId))).map (·.tabId) = ids
    rw [map_numberTabs _ fun _ _ => rfl, List.map_filterMap]
    refine (List.filterMap_congr fun tabId hm => ?_).trans List.filterMap_some
    obtain ⟨tab, htab, rfl⟩ := List.mem_map.mp (hsub tabId hm)
    cases hf : before.tabs.find? (·.tabId = tab.tabId) with
    | none => exact absurd (List.find?_eq_none.mp hf tab htab) (by simp)
    | some found => simpa using List.find?_some hf
  have hw : made.widgets = before.widgets := by rw [hmade]
  have hs : made.tabs.Pairwise fun a b => a.position ≤ b.position := by
    rw [hmade]
    exact numberTabs_sorted _
  have hperm : ids.Perm before.tabIds := by
    have hle : before.tabIds.length ≤ ids.length := by simp [BoardLayout.tabIds, hlen]
    exact (List.subperm_of_subset hn hsub).perm_of_length_le hle
  refine ⟨Sound.of_tabs h.toSound hw ?_ ?_, ?_, ?_⟩
  · rwa [hids]
  · rw [hids]
    exact hperm.symm.subset
  · rw [OrderAfter, tabIds_normalize_of_sorted hs]
    exact ⟨hperm, hids, namesOn_of_widgets h hw⟩
  · rw [filter_removes_eq_self (by simp), names, hw, names]

/-- In a normal layout positions stay below the mark that `tab_delete` gives. -/
theorem position_lt_maxSafeInteger (h : before.Normal) {widget : BoardWidget Props}
    (hm : widget ∈ before.widgets) : widget.position < maxSafeInteger := by
  have hon : widget ∈ before.onTab widget.tabId := List.mem_filter.mpr ⟨hm, by simp⟩
  have hpos : widget.position ∈ List.range (before.onTab widget.tabId).length := by
    rw [← h.positions]
    exact List.mem_map_of_mem (f := BoardWidget.position) hon
  have hlen : (before.onTab widget.tabId).length ≤ before.widgets.length :=
    List.length_filter_le _ _
  have := List.mem_range.mp hpos
  have := h.size
  unfold maxSafeInteger
  omega

/-- A widget of the deleted tab goes to the fallback, past every widget there. -/
def adopt (deleted fallback : String) (widget : BoardWidget Props) : BoardWidget Props :=
  if widget.tabId = deleted then { widget with tabId := fallback, position := maxSafeInteger }
  else widget

theorem filter_map_adopt_of_ne {deleted fallback t : String} (ht : t ≠ fallback)
    (hd : fallback ≠ deleted) (widgets : List (BoardWidget Props)) :
    (widgets.map (adopt deleted fallback)).filter (fun widget => widget.tabId = t) =
      if t = deleted then [] else widgets.filter fun widget => widget.tabId = t := by
  induction widgets with
  | nil => simp
  | cons widget widgets ih =>
    rw [List.map_cons, List.filter_cons, ih]
    by_cases hw : widget.tabId = deleted
    · by_cases htd : t = deleted <;> simp [adopt, hw, htd, hd, Ne.symm ht, eq_comm]
    · by_cases htd : t = deleted
      · simp [adopt, hw, htd]
      · simp [adopt, hw, htd, List.filter_cons]

/-- The widgets on the fallback tab, by whether they were there before. -/
theorem filter_adopt {deleted fallback : String} (hd : fallback ≠ deleted)
    {widgets : List (BoardWidget Props)}
    (hlt : ∀ widget ∈ widgets, widget.position < maxSafeInteger) :
    ((widgets.map (adopt deleted fallback)).filter fun widget => widget.tabId = fallback).filter
      (fun widget => widget.position < maxSafeInteger) =
        (widgets.filter fun widget => widget.tabId = fallback) ∧
    ((widgets.map (adopt deleted fallback)).filter fun widget => widget.tabId = fallback).filter
      (fun widget => !decide (widget.position < maxSafeInteger)) =
        (widgets.filter fun widget => widget.tabId = deleted).map (adopt deleted fallback) := by
  induction widgets with
  | nil => simp
  | cons widget widgets ih =>
    obtain ⟨hw, hws⟩ := List.forall_mem_cons.mp hlt
    obtain ⟨ih₁, ih₂⟩ := ih hws
    rw [List.map_cons]
    by_cases hdel : widget.tabId = deleted
    · have hkeep : (adopt deleted fallback widget).tabId = fallback ∧
          ¬ (adopt deleted fallback widget).position < maxSafeInteger := by
        simp [adopt, hdel]
      simp [hkeep, hdel, Ne.symm hd, ih₁, ih₂]
    · have hsame : adopt deleted fallback widget = widget := if_neg hdel
      rw [hsame]
      by_cases hfall : widget.tabId = fallback <;>
        simp [hdel, hfall, hw, hd, ih₁, ih₂]

theorem sortWidgets_adopt (h : before.Normal) {deleted fallback : String}
    (hd : fallback ≠ deleted) :
    sortWidgets ((before.widgets.map (adopt deleted fallback)).filter
      fun widget => widget.tabId = fallback) =
      before.onTab fallback ++ (before.onTab deleted).map (adopt deleted fallback) := by
  obtain ⟨hkept, hadopted⟩ := filter_adopt hd fun widget => position_lt_maxSafeInteger h
  have hsplit := Sorting.insertionSort_eq_append
    (r := fun a b : BoardWidget Props => a.position ≤ b.position)
    (p := fun widget => decide (widget.position < maxSafeInteger))
    (l := (before.widgets.map (adopt deleted fallback)).filter
      fun widget => widget.tabId = fallback) ?_ ?_ ?_
  · rw [hkept, hadopted] at hsplit
    exact hsplit
  · rw [hkept]
    exact h.onTab_sorted fallback
  · rw [hadopted, List.pairwise_map]
    refine List.Pairwise.imp_of_mem ?_ (h.onTab_sorted deleted)
    intro a b ha hb _
    simp only [List.mem_filter, decide_eq_true_eq] at ha hb
    simp [adopt, ha.2, hb.2]
  · intro a _ b _ ha hb
    simp only [decide_eq_true_eq, decide_eq_false_iff_not] at ha hb
    omega

theorem names_map_adopt (deleted fallback : String) (widgets : List (BoardWidget Props)) :
    (widgets.map (adopt deleted fallback)).map (·.name) = widgets.map (·.name) := by
  rw [List.map_map]
  refine List.map_congr_left fun widget _ => ?_
  simp only [Function.comp_apply, adopt]
  split_ifs <;> rfl

theorem opResult_tabDelete (h : before.Normal) {tabId : String}
    (he : applyBoardOp before (.tabDelete tabId) = .ok made) :
    OpResult before (.tabDelete tabId) made := by
  simp only [applyBoardOp] at he
  obtain ⟨tab, htab, hdelete⟩ := bind_eq_ok.mp he
  obtain ⟨-, rfl⟩ := requireTab_eq_ok htab
  have hsorted : (before.tabs.filter (·.tabId ≠ tab.tabId)).Pairwise
      fun a b => a.position ≤ b.position := h.tabs_sorted.filter _
  have hids : (before.tabs.filter (·.tabId ≠ tab.tabId)).map (·.tabId) =
      before.tabIds.filter (· ≠ tab.tabId) := by
    rw [BoardLayout.tabIds, List.filter_map]
    rfl
  have hnodup : (before.tabIds.filter (· ≠ tab.tabId)).Nodup := h.tabIds.filter _
  have hnames := @filter_removes_eq_self (.tabDelete tab.tabId) (by simp) before.names
  simp only [tabDelete] at hdelete
  rw [sortTabs_eq hsorted] at hdelete
  split_ifs at hdelete with hany
  · -- widgets are on the tab: they move to the first tab that is left, behind those that are there
    split at hdelete
    · cases hdelete
    · rename_i fallback rest hrest
      have hfall : fallback.tabId ∈ before.tabIds.filter (· ≠ tab.tabId) := by
        rw [← hids, hrest]
        exact List.mem_cons_self
      have hd : fallback.tabId ≠ tab.tabId := by simpa using (List.mem_filter.mp hfall).2
      have hmade := (Except.ok.inj hdelete).symm
      have htabs : made.tabs = before.tabs.filter (·.tabId ≠ tab.tabId) := by rw [hmade]
      have hwidgets : made.widgets = before.widgets.map (adopt tab.tabId fallback.tabId) := by
        rw [hmade]
        rfl
      have hmadeIds : made.tabIds = before.tabIds.filter (· ≠ tab.tabId) := by
        rw [BoardLayout.tabIds, htabs, hids]
      refine ⟨⟨by rwa [hmadeIds], ?_, ?_, ?_⟩, ?_, ?_⟩
      · rw [names, hwidgets, names_map_adopt]
        exact h.names
      · rw [hwidgets, hmadeIds]
        intro widget hm
        obtain ⟨w, hw, rfl⟩ := List.mem_map.mp hm
        by_cases hwd : w.tabId = tab.tabId
        · simpa [adopt, hwd] using hfall
        · simpa [adopt, hwd] using h.onTabs w hw
      · rw [hwidgets, List.length_map]
        exact h.size
      · rw [OrderAfter, tabIds_normalize_of_sorted (by rwa [htabs]), hmadeIds]
        refine ⟨rfl, fun t => ?_⟩
        have hhead : (before.tabIds.filter (· ≠ tab.tabId)).head? = some fallback.tabId := by
          rw [← hids, hrest]
          rfl
        rw [namesOn_normalize, hhead, onTab, hwidgets]
        by_cases ht : t = fallback.tabId
        · subst ht
          rw [sortWidgets_adopt h hd, if_neg hd, if_pos rfl, List.map_append, names_map_adopt]
          rfl
        · rw [filter_map_adopt_of_ne ht hd, if_neg (fun hs => ht (Option.some.inj hs).symm)]
          split_ifs
          · rfl
          · exact congrArg (List.map (·.name)) (sortWidgets_eq (h.onTab_sorted t))
      · rw [hnames, names, hwidgets, names_map_adopt, names]
  · have hmade := (Except.ok.inj hdelete).symm
    have htabs : made.tabs = before.tabs.filter (·.tabId ≠ tab.tabId) := by rw [hmade]
    have hwidgets : made.widgets = before.widgets := by rw [hmade]
    have hmadeIds : made.tabIds = before.tabIds.filter (· ≠ tab.tabId) := by
      rw [BoardLayout.tabIds, htabs, hids]
    -- the tab has no widgets: no other tab changes
    have hempty : before.onTab tab.tabId = [] := by
      simpa [onTab, List.filter_eq_nil_iff] using hany
    refine ⟨⟨by rwa [hmadeIds], ?_, ?_, ?_⟩, ?_, ?_⟩
    · rw [names, hwidgets]
      exact h.names
    · rw [hwidgets, hmadeIds]
      intro widget hm
      have hne : widget.tabId ≠ tab.tabId := by
        simp only [List.any_eq_true, decide_eq_true_eq, not_exists, not_and] at hany
        exact hany widget hm
      simpa [hne] using h.onTabs widget hm
    · rw [hwidgets]
      exact h.size
    · rw [OrderAfter, tabIds_normalize_of_sorted (by rwa [htabs]), hmadeIds]
      refine ⟨rfl, fun t => ?_⟩
      rw [namesOn_of_widgets h hwidgets]
      split_ifs with ht
      · rw [ht, namesOn, hempty]
        rfl
      · simp [namesOn, hempty]
      · rfl
    · rw [hnames, names, hwidgets, names]

end Tabs

section Widgets

variable {before made : BoardLayout Props}

theorem map_modifyWidget {β : Type*} (g : BoardWidget Props → β) (layout : BoardLayout Props)
    (name : String) {f : BoardWidget Props → BoardWidget Props}
    (h : ∀ widget, g (f widget) = g widget) :
    (modifyWidget layout name f).widgets.map g = layout.widgets.map g := by
  simp only [modifyWidget, List.map_map]
  refine List.map_congr_left fun widget _ => ?_
  simp only [Function.comp_apply]
  split_ifs
  · exact h widget
  · rfl

/-- Name, tab and position of a widget. -/
def BoardWidget.place (widget : BoardWidget Props) : String × String × ℕ :=
  (widget.name, widget.tabId, widget.position)

theorem map_place_onTab {layout layout' : BoardLayout Props}
    (h : layout.widgets.map (·.place) = layout'.widgets.map (·.place)) (t : String) :
    (layout.onTab t).map (·.place) = (layout'.onTab t).map (·.place) := by
  have hfilter : ∀ widgets : List (BoardWidget Props),
      (widgets.filter fun widget => widget.tabId = t).map (·.place) =
        (widgets.map (·.place)).filter fun place => place.2.1 = t := by
    intro widgets
    rw [List.filter_map]
    rfl
  rw [onTab, onTab, hfilter, hfilter, h]

/-- An operation on the other fields of widgets keeps every order. -/
theorem order_of_place (h : before.Normal) (ht : made.tabs = before.tabs)
    (hw : made.widgets.map (·.place) = before.widgets.map (·.place)) :
    made.Sound ∧ made.names = before.names ∧
      (normalizeBoardLayout made).tabIds = before.tabIds ∧
      ∀ t, (normalizeBoardLayout made).namesOn t = before.namesOn t := by
  have hids : made.tabIds = before.tabIds := by rw [BoardLayout.tabIds, ht, BoardLayout.tabIds]
  have hnames : made.names = before.names := by
    simpa [names, List.map_map, Function.comp_def, BoardWidget.place] using
      congrArg (List.map Prod.fst) hw
  have htab : made.widgets.map (·.tabId) = before.widgets.map (·.tabId) := by
    simpa [List.map_map, Function.comp_def, BoardWidget.place] using
      congrArg (List.map fun place => place.2.1) hw
  have hname (t : String) : made.namesOn t = before.namesOn t := by
    simpa [namesOn, List.map_map, Function.comp_def, BoardWidget.place] using
      congrArg (List.map Prod.fst) (map_place_onTab hw t)
  have hposition (t : String) : (made.onTab t).map (·.position) =
      (before.onTab t).map (·.position) := by
    simpa [List.map_map, Function.comp_def, BoardWidget.place] using
      congrArg (List.map fun place => place.2.2) (map_place_onTab hw t)
  refine ⟨⟨by rw [hids]; exact h.tabIds, by rw [hnames]; exact h.names, ?_, ?_⟩, hnames, ?_,
    fun t => ?_⟩
  · intro widget hm
    have hin : widget.tabId ∈ before.widgets.map (·.tabId) := by
      rw [← htab]
      exact List.mem_map_of_mem (f := BoardWidget.tabId) hm
    obtain ⟨w, hw, he⟩ := List.mem_map.mp hin
    rw [hids, ← he]
    exact h.onTabs w hw
  · have hlen := congrArg List.length hw
    rw [List.length_map, List.length_map] at hlen
    rw [hlen]
    exact h.size
  · rw [tabIds_normalize_of_sorted (by rw [ht]; exact h.tabs_sorted), hids]
  · rw [namesOn_normalize_of_sorted, hname]
    rw [← List.pairwise_map (f := BoardWidget.position) (R := (· ≤ ·)), hposition, h.positions]
    exact List.pairwise_le_range

theorem opResult_widgetResize (h : before.Normal) {name : String} {sizeW sizeH : ℚ}
    {heightMode : Option HeightMode}
    (he : applyBoardOp before (.widgetResize name sizeW sizeH heightMode) = .ok made) :
    OpResult before (.widgetResize name sizeW sizeH heightMode) made := by
  simp only [applyBoardOp] at he
  obtain ⟨widget, -, hresize⟩ := bind_eq_ok.mp he
  have hmade := (Except.ok.inj hresize).symm
  have hplace : made.widgets.map (·.place) = before.widgets.map (·.place) := by
    rw [hmade]
    exact map_modifyWidget _ before name fun _ => rfl
  obtain ⟨hsound, hnames, hids, hon⟩ := order_of_place h (by rw [hmade]; rfl) hplace
  exact ⟨hsound, ⟨hids, hon⟩, by rw [filter_removes_eq_self (by simp), hnames]⟩

theorem map_name_filter_ne (name : String) (widgets : List (BoardWidget Props)) :
    (widgets.filter (·.name ≠ name)).map (·.name) =
      (widgets.map (·.name)).filter (· ≠ name) := by
  rw [List.filter_map]
  rfl

theorem opResult_widgetRemove (h : before.Normal) {name : String}
    (he : applyBoardOp before (.widgetRemove name) = .ok made) :
    OpResult before (.widgetRemove name) made := by
  simp only [applyBoardOp] at he
  obtain ⟨widget, -, hremove⟩ := bind_eq_ok.mp he
  have hmade := (Except.ok.inj hremove).symm
  have htabs : made.tabs = before.tabs := by rw [hmade]
  have hwidgets : made.widgets = before.widgets.filter (·.name ≠ name) := by rw [hmade]
  have hids : made.tabIds = before.tabIds := by rw [BoardLayout.tabIds, htabs, BoardLayout.tabIds]
  have hnames : made.names = before.names.filter (· ≠ name) := by
    rw [names, hwidgets, map_name_filter_ne, names]
  have hon : ∀ t, made.onTab t = (before.onTab t).filter (·.name ≠ name) := by
    intro t
    rw [onTab, hwidgets, onTab, List.filter_filter, List.filter_filter]
    exact List.filter_congr fun _ _ => Bool.and_comm _ _
  refine ⟨⟨by rw [hids]; exact h.tabIds, ?_, ?_, ?_⟩, ⟨?_, fun t => ?_⟩, ?_⟩
  · rw [hnames]
    exact h.names.filter _
  · rw [hwidgets, hids]
    exact fun w hm => h.onTabs w (List.mem_of_mem_filter hm)
  · rw [hwidgets]
    exact (List.length_filter_le _ _).trans_lt h.size
  · rw [tabIds_normalize_of_sorted (by rw [htabs]; exact h.tabs_sorted), hids]
  · rw [namesOn_normalize_of_sorted (by rw [hon]; exact (h.onTab_sorted t).filter _), namesOn, hon,
      map_name_filter_ne, namesOn]
  · rw [hnames]
    simp [BoardOp.removes, eq_comm]

theorem targetPosition_le {targetWidgets : List (BoardWidget Props)} {widget : BoardWidget Props}
    {targetTabId : String} {position : Option ℚ} {after : Option String} {index : ℕ}
    (he : targetPosition targetWidgets widget targetTabId position after = .ok index) :
    index ≤ targetWidgets.length := by
  unfold targetPosition at he
  split at he
  · split_ifs at he
    split at he
    · cases he
    · rename_i anchorIndex hfind
      cases he
      obtain ⟨hlt, -⟩ := List.findIdx?_eq_some_iff_getElem.mp hfind
      exact hlt
  · split at he
    · cases he
      exact clampInteger_le
    · cases he
      exact le_rfl

/-- The other widgets of the target tab, which the moved one goes between. -/
def others (layout : BoardLayout Props) (name targetTabId : String) : List (BoardWidget Props) :=
  layout.widgets.filter fun w => w.tabId = targetTabId ∧ w.name ≠ name

theorem others_eq (layout : BoardLayout Props) (name targetTabId : String) :
    others layout name targetTabId = (layout.onTab targetTabId).filter (·.name ≠ name) := by
  rw [others, onTab, List.filter_filter]
  exact List.filter_congr fun _ _ => by simp [Bool.and_comm]

/-- The moved widget, in its own place among the others. -/
def placed (layout : BoardLayout Props) (widget : BoardWidget Props) (targetTabId : String)
    (i : ℕ) : List (BoardWidget Props) :=
  numberWidgets ((sortWidgets (others layout widget.name targetTabId)).insertIdx i
    { widget with tabId := targetTabId })

def elsewhere (layout : BoardLayout Props) (name targetTabId : String) :
    List (BoardWidget Props) :=
  layout.widgets.filter fun w => w.name ≠ name ∧ w.tabId ≠ targetTabId

theorem moveWidget_eq_ok {layout made : BoardLayout Props} {widget : BoardWidget Props}
    {targetTabId : String} {position : Option ℚ} {after : Option String}
    (he : moveWidget layout widget targetTabId position after = .ok made) :
    targetTabId ∈ layout.tabIds ∧ ∃ i ≤ (others layout widget.name targetTabId).length,
      made = ⟨layout.tabs,
        elsewhere layout widget.name targetTabId ++ placed layout widget targetTabId i⟩ := by
  unfold moveWidget at he
  obtain ⟨tab, htab, he⟩ := bind_eq_ok.mp he
  obtain ⟨hmem, rfl⟩ := requireTab_eq_ok htab
  split_ifs at he
  obtain ⟨index, hindex, hmove⟩ := bind_eq_ok.mp he
  have hle := targetPosition_le hindex
  rw [sortWidgets, List.length_insertionSort] at hle
  exact ⟨List.mem_map_of_mem (f := BoardTab.tabId) hmem, index, hle, (Except.ok.inj hmove).symm⟩

theorem tabId_of_mem_elsewhere {layout : BoardLayout Props} {name targetTabId : String}
    {w : BoardWidget Props} (hm : w ∈ elsewhere layout name targetTabId) :
    w.tabId ≠ targetTabId :=
  (of_decide_eq_true (List.mem_filter.mp hm).2).2

theorem tabId_of_mem_placed {layout : BoardLayout Props} {widget w : BoardWidget Props}
    {targetTabId : String} {i : ℕ} (hm : w ∈ placed layout widget targetTabId i) :
    w.tabId = targetTabId := by
  have htab := List.mem_map_of_mem (f := BoardWidget.tabId) hm
  rw [placed, map_numberWidgets _ fun _ _ => rfl, List.mem_map] at htab
  obtain ⟨v, hv, hvw⟩ := htab
  rw [← hvw]
  rcases List.eq_or_mem_of_mem_insertIdx hv with rfl | hv
  · rfl
  · exact (of_decide_eq_true (List.mem_filter.mp ((List.mem_insertionSort _).mp hv)).2).1

/-- Elsewhere and on the target tab: the other widgets, all of them once. -/
theorem others_perm (layout : BoardLayout Props) (name targetTabId : String) :
    elsewhere layout name targetTabId ++ others layout name targetTabId ~
      layout.widgets.filter (·.name ≠ name) := by
  have h := List.filter_append_perm (fun w => decide (w.tabId ≠ targetTabId))
    (layout.widgets.filter (·.name ≠ name))
  rw [List.filter_filter, List.filter_filter] at h
  simpa [elsewhere, others, Bool.and_comm] using h

theorem perm_cons_filter_name_ne {widgets : List (BoardWidget Props)} {widget : BoardWidget Props}
    (hn : (widgets.map (·.name)).Nodup) (hm : widget ∈ widgets) :
    widgets ~ widget :: widgets.filter (·.name ≠ widget.name) := by
  induction widgets with
  | nil => cases hm
  | cons w widgets ih =>
    rw [List.map_cons, List.nodup_cons] at hn
    rcases List.mem_cons.mp hm with rfl | hm
    · rw [List.filter_cons_of_neg (by simp), List.filter_eq_self.mpr]
      intro v hv
      simpa using fun he : v.name = widget.name => hn.1 (he ▸ List.mem_map_of_mem hv)
    · have hne : w.name ≠ widget.name := fun he => hn.1 (he ▸ List.mem_map_of_mem hm)
      rw [List.filter_cons_of_pos (by simpa using hne)]
      exact ((ih hn.2 hm).cons w).trans (.swap _ _ _)

/-- A move keeps every widget, up to tab and position. -/
theorem moved_perm {β : Type*} (f : BoardWidget Props → β)
    (ht : ∀ widget tabId, f { widget with tabId } = f widget)
    (hp : ∀ widget position, f { widget with position } = f widget)
    {layout : BoardLayout Props} (hn : layout.names.Nodup) {widget : BoardWidget Props}
    (hm : widget ∈ layout.widgets) {targetTabId : String} {i : ℕ}
    (hi : i ≤ (others layout widget.name targetTabId).length) :
    (elsewhere layout widget.name targetTabId ++ placed layout widget targetTabId i).map f ~
      layout.widgets.map f := by
  have hcons : (placed layout widget targetTabId i).map f ~
      f widget :: (others layout widget.name targetTabId).map f := by
    rw [placed, map_numberWidgets f hp, List.map_insertIdx, ht]
    refine (List.perm_insertIdx _ _ (by simpa [sortWidgets] using hi)).trans (.cons _ ?_)
    exact (List.perm_insertionSort _ _).map f
  calc (elsewhere layout widget.name targetTabId ++ placed layout widget targetTabId i).map f
    _ = (elsewhere layout widget.name targetTabId).map f ++
        (placed layout widget targetTabId i).map f := List.map_append
    _ ~ (elsewhere layout widget.name targetTabId).map f ++
        f widget :: (others layout widget.name targetTabId).map f := hcons.append_left _
    _ ~ f widget :: ((elsewhere layout widget.name targetTabId).map f ++
        (others layout widget.name targetTabId).map f) := List.perm_middle
    _ ~ f widget :: (layout.widgets.filter (·.name ≠ widget.name)).map f := by
      rw [← List.map_append]
      exact ((others_perm layout widget.name targetTabId).map f).cons _
    _ ~ layout.widgets.map f := ((perm_cons_filter_name_ne hn hm).map f).symm

theorem moveWidget_perm {β : Type*} (f : BoardWidget Props → β)
    (ht : ∀ widget tabId, f { widget with tabId } = f widget)
    (hp : ∀ widget position, f { widget with position } = f widget)
    {layout made : BoardLayout Props} (hn : layout.names.Nodup) {widget : BoardWidget Props}
    (hm : widget ∈ layout.widgets) {targetTabId : String} {position : Option ℚ}
    {after : Option String}
    (he : moveWidget layout widget targetTabId position after = .ok made) :
    made.widgets.map f ~ layout.widgets.map f := by
  obtain ⟨-, i, hi, rfl⟩ := moveWidget_eq_ok he
  exact moved_perm f ht hp hn hm hi

theorem moveWidget_sound {layout made : BoardLayout Props} (h : layout.Sound)
    {widget : BoardWidget Props} (hm : widget ∈ layout.widgets) {targetTabId : String}
    {position : Option ℚ} {after : Option String}
    (he : moveWidget layout widget targetTabId position after = .ok made) : made.Sound := by
  have hperm := moveWidget_perm (·.name) (fun _ _ => rfl) (fun _ _ => rfl) h.names hm he
  obtain ⟨htarget, i, -, rfl⟩ := moveWidget_eq_ok he
  refine ⟨h.tabIds, hperm.nodup_iff.mpr h.names, ?_, ?_⟩
  · intro w hw
    rcases List.mem_append.mp hw with hw | hw
    · exact h.onTabs w (List.mem_of_mem_filter hw)
    · rw [tabId_of_mem_placed hw]
      exact htarget
  · have hlen := hperm.length_eq
    rw [List.length_map, List.length_map] at hlen
    rw [hlen]
    exact h.size

/-- The widgets a move puts on the target tab, and those it leaves elsewhere. -/
theorem onTab_moved {tabs : List BoardTab} {elsewhere placed : List (BoardWidget Props)}
    {targetTabId : String} (he : ∀ w ∈ elsewhere, w.tabId ≠ targetTabId)
    (hp : ∀ w ∈ placed, w.tabId = targetTabId) (t : String) :
    onTab ⟨tabs, elsewhere ++ placed⟩ t =
      if t = targetTabId then placed else elsewhere.filter fun w => w.tabId = t := by
  rw [onTab, List.filter_append]
  split_ifs with ht
  · subst ht
    rw [List.filter_eq_nil_iff.mpr fun w hw => by simpa using he w hw,
      List.filter_eq_self.mpr fun w hw => by simpa using hp w hw, List.nil_append]
  · have hnone : placed.filter (fun w => decide (w.tabId = t)) = [] :=
      List.filter_eq_nil_iff.mpr fun w hw => by simpa [hp w hw] using Ne.symm ht
    rw [hnone, List.append_nil]

theorem numberWidgets_sorted (widgets : List (BoardWidget Props)) :
    (numberWidgets widgets).Pairwise fun a b => a.position ≤ b.position := by
  refine pairwise_position_of_range ?_
  rw [map_position_numberWidgets]
  simp [numberWidgets]

theorem opResult_widgetMove (h : before.Normal) {name : String} {tabId : Option String}
    {position : Option ℚ} {after : Option String}
    (he : applyBoardOp before (.widgetMove name tabId position after) = .ok made) :
    OpResult before (.widgetMove name tabId position after) made := by
  simp only [applyBoardOp] at he
  obtain ⟨widget, hwidget, hmove⟩ := bind_eq_ok.mp he
  obtain ⟨hmem, rfl⟩ := requireWidget_eq_ok hwidget
  generalize tabId.getD widget.tabId = target at hmove
  have hsound := moveWidget_sound h.toSound hmem hmove
  have hperm : made.names ~ before.names :=
    moveWidget_perm (·.name) (fun _ _ => rfl) (fun _ _ => rfl) h.names hmem hmove
  obtain ⟨-, i, -, hmade⟩ := moveWidget_eq_ok hmove
  have hon (t : String) : made.onTab t = if t = target then placed before widget target i
      else (elsewhere before widget.name target).filter fun w => w.tabId = t := by
    rw [hmade]
    exact onTab_moved (fun _ => tabId_of_mem_elsewhere) (fun _ => tabId_of_mem_placed) t
  refine ⟨hsound, ⟨?_, fun t => ?_⟩, ?_⟩
  · rw [tabIds_normalize_of_sorted (by rw [hmade]; exact h.tabs_sorted), hmade]
    rfl
  · by_cases ht : t = target
    · have hsorted : sortWidgets (others before widget.name target) =
          (before.onTab target).filter (·.name ≠ widget.name) := by
        rw [others_eq, sortWidgets_eq ((h.onTab_sorted target).filter _)]
      have hnames : (placed before widget target i).map (·.name) =
          ((before.namesOn target).filter (· ≠ widget.name)).insertIdx i widget.name := by
        rw [placed, map_numberWidgets _ fun _ _ => rfl, List.map_insertIdx, hsorted,
          map_name_filter_ne, namesOn]
      rw [namesOn_normalize_of_sorted (by rw [hon, if_pos ht]; exact numberWidgets_sorted _),
        namesOn, hon, if_pos ht, hnames, Lists.filter_insertIdx_of_neg (by simp),
        List.filter_filter, ht]
      simp
    · have hon : made.onTab t = (before.onTab t).filter (·.name ≠ widget.name) := by
        rw [hon, if_neg ht, elsewhere, onTab, List.filter_filter, List.filter_filter]
        refine List.filter_congr fun w _ => ?_
        by_cases hw : w.tabId = t <;> simp [hw, ht]
      rw [namesOn_normalize_of_sorted (by rw [hon]; exact (h.onTab_sorted t).filter _), namesOn,
        hon, map_name_filter_ne, List.filter_filter, namesOn]
      simp
  · rw [filter_removes_eq_self (by simp)]
    exact hperm

end Widgets

end Flashclaw.Board
