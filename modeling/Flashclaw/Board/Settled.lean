import Flashclaw.Board.Normal

/-!
# Boards: settled layouts

A layout that `normalizeBoardLayout` has made and would leave as it is.  It is
also what it makes of the same tabs and widgets in any other list order, as a
table yields them.
-/

namespace Flashclaw.Board

variable {Props : Type}

open BoardLayout

open scoped List

namespace BoardLayout

/-- A normal layout with the widgets in the order of their tabs. -/
structure Settled (layout : BoardLayout Props) : Prop extends Normal layout where
  sorted : layout.widgets.Pairwise (widgetLe layout.tabs)

end BoardLayout

theorem numberTabs_eq_self {tabs : List BoardTab}
    (h : tabs.map (·.position) = List.range tabs.length) : numberTabs tabs = tabs := by
  refine List.ext_getElem (by simp [numberTabs]) fun i h₁ h₂ => ?_
  have hi : i = tabs[i].position := by
    have hpos := List.getElem_of_eq h (i := i) (by simpa using h₂)
    rw [List.getElem_map, List.getElem_range] at hpos
    exact hpos.symm
  simp only [numberTabs, List.getElem_mapIdx]
  exact congrArg (fun position => ({ tabs[i] with position } : BoardTab)) hi

theorem numberByTab_eq_self {m : JsMap String ℕ} {widgets : List (BoardWidget Props)}
    (h : ∀ t, (widgets.filter fun w => w.tabId = t).map (·.position) =
      List.range' ((m.get? t).getD 0) (widgets.filter fun w => w.tabId = t).length) :
    numberByTab m widgets = widgets := by
  induction widgets generalizing m with
  | nil => rfl
  | cons widget widgets ih =>
    have hself := h widget.tabId
    simp only [List.filter_cons_of_pos, decide_true, List.map_cons, List.length_cons,
      List.range'_succ, List.cons.injEq] at hself
    have htail : numberByTab (m.set widget.tabId (((m.get? widget.tabId).getD 0) + 1)) widgets =
        widgets := by
      refine ih fun t => ?_
      by_cases ht : widget.tabId = t
      · subst ht
        simpa using hself.2
      · simpa [ht, JsMap.get?_set_ne] using h t
    simp only [numberByTab, htail]
    exact congrArg (fun position => ({ widget with position } : BoardWidget Props) :: widgets)
      hself.1.symm

theorem get?_foldl_set {tabs : List BoardTab} {tab : BoardTab} (hm : tab ∈ tabs)
    (hn : (tabs.map (·.tabId)).Nodup) (m : JsMap String ℕ) :
    (tabs.foldl (fun m tab => m.set tab.tabId tab.position) m).get? tab.tabId =
      some tab.position := by
  induction tabs using List.reverseRecOn with
  | nil => cases hm
  | append_singleton tabs last ih =>
    rw [List.foldl_append, List.foldl_cons, List.foldl_nil, JsMap.get?_set]
    rw [List.map_append, List.nodup_append] at hn
    split_ifs with he
    · rcases List.mem_append.mp hm with hm | hm
      · exact absurd he.symm (hn.2.2 _ (List.mem_map_of_mem hm) _ (by simp))
      · rw [List.mem_singleton.mp hm]
    · rcases List.mem_append.mp hm with hm | hm
      · exact ih hm hn.1
      · exact absurd (by rw [List.mem_singleton.mp hm]) he

theorem tabPosition_of_mem {tabs : List BoardTab} {tab : BoardTab} (hm : tab ∈ tabs)
    (hn : (tabs.map (·.tabId)).Nodup) : tabPosition tabs tab.tabId = tab.position := by
  rw [tabPosition, get?_foldl_set hm hn, Option.getD_some]

namespace BoardLayout

variable {layout : BoardLayout Props}

theorem Normal.tabPosition_inj (h : layout.Normal) {s t : String} (hs : s ∈ layout.tabIds)
    (ht : t ∈ layout.tabIds) (he : tabPosition layout.tabs s = tabPosition layout.tabs t) :
    s = t := by
  obtain ⟨a, ha, rfl⟩ := List.mem_map.mp hs
  obtain ⟨b, hb, rfl⟩ := List.mem_map.mp ht
  have hn : (layout.tabs.map (·.position)).Nodup := by
    rw [h.tabPositions]
    exact List.nodup_range
  rw [tabPosition_of_mem ha h.tabIds, tabPosition_of_mem hb h.tabIds] at he
  rw [List.inj_on_of_nodup_map hn ha hb he]

/-- Place tells the widgets of a normal layout apart. -/
theorem Normal.widgetLe_antisymm (h : layout.Normal) {a b : BoardWidget Props}
    (ha : a ∈ layout.widgets) (hb : b ∈ layout.widgets) (hab : widgetLe layout.tabs a b)
    (hba : widgetLe layout.tabs b a) : a = b := by
  unfold widgetLe at hab hba
  have htab : a.tabId = b.tabId :=
    h.tabPosition_inj (h.onTabs a ha) (h.onTabs b hb) (by omega)
  have hn : ((layout.onTab b.tabId).map (·.position)).Nodup := by
    rw [h.positions]
    exact List.nodup_range
  exact List.inj_on_of_nodup_map hn (List.mem_filter.mpr ⟨ha, by simp [htab]⟩)
    (List.mem_filter.mpr ⟨hb, by simp⟩) (by omega)

end BoardLayout

/-- Normalizing the tabs and widgets of a settled layout, in any list order. -/
theorem normalize_eq_of_perm {layout : BoardLayout Props} (h : layout.Settled)
    {tabs : List BoardTab} {widgets : List (BoardWidget Props)} (ht : tabs ~ layout.tabs)
    (hw : widgets ~ layout.widgets) : normalizeBoardLayout ⟨tabs, widgets⟩ = layout := by
  have hposition : (layout.tabs.map (·.position)).Nodup := by
    rw [h.tabPositions]
    exact List.nodup_range
  have htabs : sortTabs tabs = layout.tabs := by
    refine @List.Perm.eq_of_pairwise _ (fun a b => a.position ≤ b.position) _ _ ?_
      (List.pairwise_insertionSort _ _) h.tabs_sorted ((List.perm_insertionSort _ _).trans ht)
    intro a b ha hb hab hba
    exact List.inj_on_of_nodup_map hposition (ht.subset ((List.mem_insertionSort _).mp ha)) hb
      (le_antisymm hab hba)
  have hwidgets : widgets.insertionSort (widgetLe layout.tabs) = layout.widgets := by
    refine @List.Perm.eq_of_pairwise _ (widgetLe layout.tabs) _ _ ?_
      (List.pairwise_insertionSort _ _) h.sorted ((List.perm_insertionSort _ _).trans hw)
    intro a b ha hb hab hba
    exact h.widgetLe_antisymm (hw.subset ((List.mem_insertionSort _).mp ha)) hb hab hba
  have hnumber : numberByTab .empty layout.widgets = layout.widgets := by
    refine numberByTab_eq_self fun t => ?_
    rw [JsMap.get?_empty, Option.getD_none, ← List.range_eq_range']
    exact h.positions t
  simp only [normalizeBoardLayout, htabs, numberTabs_eq_self h.tabPositions, hwidgets, hnumber]

namespace BoardLayout

theorem Settled.normalize {layout : BoardLayout Props} (h : layout.Settled) :
    normalizeBoardLayout layout = layout :=
  normalize_eq_of_perm h (.refl _) (.refl _)

/-- A list sorted on each tab. -/
theorem pairwise_sameTab {r : BoardWidget Props → BoardWidget Props → Prop}
    {widgets : List (BoardWidget Props)}
    (h : ∀ t, (widgets.filter fun w => w.tabId = t).Pairwise r) :
    widgets.Pairwise fun a b => a.tabId = b.tabId → r a b := by
  induction widgets with
  | nil => exact .nil
  | cons widget widgets ih =>
    refine List.pairwise_cons.mpr ⟨fun b hb he => ?_, ih fun t => ?_⟩
    · have hself := h widget.tabId
      rw [List.filter_cons_of_pos (by simp), List.pairwise_cons] at hself
      exact hself.1 b (List.mem_filter.mpr ⟨hb, by simp [he]⟩)
    · have ht := h t
      rw [List.filter_cons] at ht
      split_ifs at ht
      · exact (List.pairwise_cons.mp ht).2
      · exact ht

theorem normalize_settled {layout : BoardLayout Props} (h : layout.Sound) :
    (normalizeBoardLayout layout).Settled where
  toNormal := normalize_normal h
  sorted := by
    have hnormal := normalize_normal h
    have htab : (normalizeBoardLayout layout).widgets.Pairwise fun a b =>
        tabPosition (normalizeBoardLayout layout).tabs a.tabId ≤
          tabPosition (normalizeBoardLayout layout).tabs b.tabId := by
      rw [← List.pairwise_map (f := BoardWidget.tabId) (R := fun s t =>
        tabPosition (normalizeBoardLayout layout).tabs s ≤
          tabPosition (normalizeBoardLayout layout).tabs t)]
      have hsorted := List.pairwise_insertionSort
        (widgetLe (numberTabs (sortTabs layout.tabs))) layout.widgets
      rw [normalizeBoardLayout, map_numberByTab _ fun _ _ => rfl, List.pairwise_map]
      exact hsorted.imp fun hab => hab.elim le_of_lt fun hab => hab.1.le
    have hsame := pairwise_sameTab fun t => hnormal.onTab_sorted t
    refine (htab.and hsame).imp_of_mem fun {a b} ha hb hab => ?_
    by_cases he : a.tabId = b.tabId
    · exact .inr ⟨congrArg _ he, hab.2 he⟩
    · have hne := mt (hnormal.tabPosition_inj (hnormal.onTabs a ha) (hnormal.onTabs b hb)) he
      exact .inl (lt_of_le_of_ne hab.1 hne)

end BoardLayout

end Flashclaw.Board
