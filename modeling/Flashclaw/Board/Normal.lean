import Flashclaw.Board.Layout
import Mathlib.Data.List.Range

/-!
# Boards: normal layouts

What `normalizeBoardLayout` establishes and what it keeps: the order of the
tabs and, on each tab, of the widgets, up to the stable sort by position.
-/

namespace Flashclaw.Board

variable {Props : Type}

namespace BoardLayout

variable (layout : BoardLayout Props)

def tabIds : List String := layout.tabs.map (·.tabId)

def names : List String := layout.widgets.map (·.name)

/-- The widgets of a tab, in list order. -/
def onTab (tabId : String) : List (BoardWidget Props) :=
  layout.widgets.filter fun widget => widget.tabId = tabId

def namesOn (tabId : String) : List String := (layout.onTab tabId).map (·.name)

/-- Every widget on a tab, and no tab id or widget name twice.  An array has fewer than `2 ^ 32`
elements. -/
structure Sound : Prop where
  tabIds : layout.tabIds.Nodup
  names : layout.names.Nodup
  onTabs : ∀ widget ∈ layout.widgets, widget.tabId ∈ layout.tabIds
  size : layout.widgets.length < 2 ^ 32

/-- The layout invariant. -/
structure Normal : Prop extends Sound layout where
  tabPositions : layout.tabs.map (·.position) = List.range layout.tabs.length
  positions : ∀ tabId, (layout.onTab tabId).map (·.position) =
    List.range (layout.onTab tabId).length

end BoardLayout

/-- Sorted as `toSorted(comparePosition)` leaves it. -/
theorem pairwise_position_of_range {α : Type*} {position : α → ℕ} {l : List α}
    (h : l.map position = List.range l.length) :
    l.Pairwise fun a b => position a ≤ position b := by
  rw [← List.pairwise_map, h]
  exact List.pairwise_le_range

section Number

theorem map_numberTabs {β : Type*} (f : BoardTab → β)
    (h : ∀ tab position, f { tab with position } = f tab) (tabs : List BoardTab) :
    (numberTabs tabs).map f = tabs.map f := by
  refine List.ext_getElem (by simp [numberTabs]) fun i h₁ h₂ => ?_
  simp [numberTabs, h]

theorem map_position_numberTabs (tabs : List BoardTab) :
    (numberTabs tabs).map (·.position) = List.range tabs.length := by
  refine List.ext_getElem (by simp [numberTabs]) fun i h₁ h₂ => ?_
  simp [numberTabs]

theorem map_numberWidgets {β : Type*} (f : BoardWidget Props → β)
    (h : ∀ widget position, f { widget with position } = f widget)
    (widgets : List (BoardWidget Props)) : (numberWidgets widgets).map f = widgets.map f := by
  refine List.ext_getElem (by simp [numberWidgets]) fun i h₁ h₂ => ?_
  simp [numberWidgets, h]

theorem map_position_numberWidgets (widgets : List (BoardWidget Props)) :
    (numberWidgets widgets).map (·.position) = List.range widgets.length := by
  refine List.ext_getElem (by simp [numberWidgets]) fun i h₁ h₂ => ?_
  simp [numberWidgets]

theorem map_filter_numberByTab {β : Type*} (f : BoardWidget Props → β)
    (h : ∀ widget position, f { widget with position } = f widget) (p : String → Bool)
    (m : JsMap String ℕ) (widgets : List (BoardWidget Props)) :
    ((numberByTab m widgets).filter fun widget => p widget.tabId).map f =
      (widgets.filter fun widget => p widget.tabId).map f := by
  induction widgets generalizing m with
  | nil => rfl
  | cons widget widgets ih =>
    cases hp : p widget.tabId <;> simp [numberByTab, hp, ih, h]

theorem map_numberByTab {β : Type*} (f : BoardWidget Props → β)
    (h : ∀ widget position, f { widget with position } = f widget)
    (m : JsMap String ℕ) (widgets : List (BoardWidget Props)) :
    (numberByTab m widgets).map f = widgets.map f := by
  simpa using map_filter_numberByTab f h (fun _ => true) m widgets

theorem map_position_numberByTab (tabId : String) (m : JsMap String ℕ)
    (widgets : List (BoardWidget Props)) :
    ((numberByTab m widgets).filter fun widget => widget.tabId = tabId).map (·.position) =
      List.range' ((m.get? tabId).getD 0)
        (widgets.filter fun widget => widget.tabId = tabId).length := by
  induction widgets generalizing m with
  | nil => rfl
  | cons widget widgets ih =>
    by_cases ht : widget.tabId = tabId
    · subst ht
      simp [numberByTab, ih, List.range'_succ]
    · simp [numberByTab, ih, ht, JsMap.get?_set_ne]

end Number

instance : IsTrans (BoardWidget Props) (fun a b => a.position ≤ b.position) :=
  ⟨fun _ _ _ => le_trans⟩

instance : Std.Total (fun a b : BoardWidget Props => a.position ≤ b.position) :=
  ⟨fun _ _ => le_total _ _⟩

instance : IsTrans BoardTab (fun a b => a.position ≤ b.position) := ⟨fun _ _ _ => le_trans⟩

instance : Std.Total (fun a b : BoardTab => a.position ≤ b.position) := ⟨fun _ _ => le_total _ _⟩

instance (tabs : List BoardTab) : IsTrans (BoardWidget Props) (widgetLe tabs) where
  trans a b c hab hbc := by
    unfold widgetLe at *
    omega

instance (tabs : List BoardTab) : Std.Total (@widgetLe Props tabs) where
  total a b := by
    unfold widgetLe
    omega

/-- Sorting by tab and position sorts each tab by position. -/
theorem filter_insertionSort_widgetLe (tabs : List BoardTab) (tabId : String)
    (widgets : List (BoardWidget Props)) :
    (widgets.insertionSort (widgetLe tabs)).filter (fun widget => widget.tabId = tabId) =
      sortWidgets (widgets.filter fun widget => widget.tabId = tabId) := by
  rw [Sorting.filter_insertionSort]
  have h := List.map_insertionSort (widgetLe tabs)
    (fun a b : BoardWidget Props => a.position ≤ b.position) id
    (widgets.filter fun widget => widget.tabId = tabId) ?_
  · simpa [sortWidgets] using h
  · intro a ha b hb
    have hab : a.tabId = b.tabId := by
      simp only [List.mem_filter, decide_eq_true_eq] at ha hb
      rw [ha.2, hb.2]
    simp [widgetLe, hab]

namespace BoardLayout

variable {layout : BoardLayout Props}

theorem tabIds_normalize : (normalizeBoardLayout layout).tabIds =
    (sortTabs layout.tabs).map (·.tabId) :=
  map_numberTabs _ (fun _ _ => rfl) _

theorem namesOn_normalize (tabId : String) : (normalizeBoardLayout layout).namesOn tabId =
    (sortWidgets (layout.onTab tabId)).map (·.name) := by
  rw [onTab, ← filter_insertionSort_widgetLe]
  exact map_filter_numberByTab _ (fun _ _ => rfl) (fun t => t = tabId) _ _

theorem names_normalize_perm : (normalizeBoardLayout layout).names.Perm layout.names := by
  rw [names, normalizeBoardLayout, map_numberByTab _ fun _ _ => rfl]
  exact (List.perm_insertionSort _ _).map _

theorem mem_tabIds_normalize {tabId : String} :
    tabId ∈ (normalizeBoardLayout layout).tabIds ↔ tabId ∈ layout.tabIds := by
  rw [tabIds_normalize]
  exact ((List.perm_insertionSort _ _).map _).mem_iff

theorem mem_tabIds_of_mem (h : ∀ widget ∈ layout.widgets, widget.tabId ∈ layout.tabIds)
    {widget : BoardWidget Props} (hm : widget ∈ (normalizeBoardLayout layout).widgets) :
    widget.tabId ∈ layout.tabIds := by
  have htab := List.mem_map_of_mem (f := BoardWidget.tabId) hm
  rw [normalizeBoardLayout, map_numberByTab _ fun _ _ => rfl] at htab
  obtain ⟨w, hw, he⟩ := List.mem_map.mp htab
  rw [← he]
  exact h w ((List.mem_insertionSort _).mp hw)

theorem length_normalize :
    (normalizeBoardLayout layout).widgets.length = layout.widgets.length := by
  simpa [names] using (@names_normalize_perm Props layout).length_eq

theorem normalize_normal (h : layout.Sound) : (normalizeBoardLayout layout).Normal where
  tabIds := by
    rw [tabIds_normalize]
    exact ((List.perm_insertionSort _ _).map _).nodup_iff.mpr h.tabIds
  names := names_normalize_perm.nodup_iff.mpr h.names
  onTabs widget hm := mem_tabIds_normalize.mpr (mem_tabIds_of_mem h.onTabs hm)
  size := by
    rw [length_normalize]
    exact h.size
  tabPositions := by
    have hlen : (normalizeBoardLayout layout).tabs.length = (sortTabs layout.tabs).length := by
      simp [normalizeBoardLayout, numberTabs]
    rw [hlen]
    exact map_position_numberTabs _
  positions tabId := by
    have hpos := map_position_numberByTab tabId .empty
      (layout.widgets.insertionSort (widgetLe (numberTabs (sortTabs layout.tabs))))
    have hlen := congrArg List.length hpos
    rw [List.length_map, List.length_range'] at hlen
    rw [onTab, normalizeBoardLayout, hlen, List.range_eq_range']
    exact hpos

/-- In a normal layout the tabs, and the widgets of each tab, are sorted. -/
theorem Normal.tabs_sorted (h : layout.Normal) :
    layout.tabs.Pairwise fun a b => a.position ≤ b.position :=
  pairwise_position_of_range h.tabPositions

theorem Normal.onTab_sorted (h : layout.Normal) (tabId : String) :
    (layout.onTab tabId).Pairwise fun a b => a.position ≤ b.position :=
  pairwise_position_of_range (h.positions tabId)

end BoardLayout

theorem sortTabs_eq {tabs : List BoardTab}
    (h : tabs.Pairwise fun a b => a.position ≤ b.position) : sortTabs tabs = tabs :=
  h.insertionSort_eq

theorem sortWidgets_eq {widgets : List (BoardWidget Props)}
    (h : widgets.Pairwise fun a b => a.position ≤ b.position) : sortWidgets widgets = widgets :=
  h.insertionSort_eq

/-- Normalizing a layout whose tabs and widgets are in order leaves them in order. -/
theorem tabIds_normalize_of_sorted {layout : BoardLayout Props}
    (h : layout.tabs.Pairwise fun a b => a.position ≤ b.position) :
    (normalizeBoardLayout layout).tabIds = layout.tabIds := by
  rw [BoardLayout.tabIds_normalize, sortTabs_eq h]
  rfl

theorem namesOn_normalize_of_sorted {layout : BoardLayout Props} {tabId : String}
    (h : (layout.onTab tabId).Pairwise fun a b => a.position ≤ b.position) :
    (normalizeBoardLayout layout).namesOn tabId = layout.namesOn tabId := by
  rw [BoardLayout.namesOn_normalize, sortWidgets_eq h]
  rfl

end Flashclaw.Board
