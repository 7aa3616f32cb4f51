import Flashclaw.Board.Runs
import Flashclaw.Board.Settled

/-!
# Boards: what an operation leaves of a widget

Every widget after a batch is one from before, up to its place, with the
resizes that name it.
-/

namespace Flashclaw.Board

variable {Props : Type}

open BoardLayout Results

open scoped List

namespace BoardWidget

/-- A widget without its place. -/
def unplaced (widget : BoardWidget Props) : BoardWidget Props :=
  { widget with tabId := "", position := 0 }

@[simp] theorem unplaced_name (widget : BoardWidget Props) : widget.unplaced.name = widget.name :=
  rfl

end BoardWidget

/-- What an operation does to a widget besides placing it. -/
def BoardOp.touch (op : BoardOp) (widget : BoardWidget Props) : BoardWidget Props :=
  match op with
  | .widgetResize name sizeW sizeH heightMode =>
    if widget.name = name then widget.resize sizeW sizeH heightMode else widget
  | _ => widget

def touches (ops : List BoardOp) (widget : BoardWidget Props) : BoardWidget Props :=
  ops.foldl (fun widget op => op.touch widget) widget

@[simp] theorem touch_name (op : BoardOp) (widget : BoardWidget Props) :
    (op.touch widget).name = widget.name := by
  unfold BoardOp.touch
  split
  · split_ifs <;> rfl
  · rfl

theorem unplaced_touch (op : BoardOp) (widget : BoardWidget Props) :
    (op.touch widget).unplaced = op.touch widget.unplaced := by
  unfold BoardOp.touch
  split
  · rw [BoardWidget.unplaced_name]
    split_ifs <;> rfl
  · rfl

@[simp] theorem touches_name (ops : List BoardOp) (widget : BoardWidget Props) :
    (touches ops widget).name = widget.name := by
  induction ops generalizing widget with
  | nil => rfl
  | cons op ops ih => exact (ih _).trans (touch_name op widget)

/-- Touching a widget changes its size and height mode only. -/
theorem touches_field {β : Type*} {f : BoardWidget Props → β}
    (hf : ∀ widget sizeW sizeH heightMode,
      f (BoardWidget.resize widget sizeW sizeH heightMode) = f widget)
    (ops : List BoardOp) (widget : BoardWidget Props) : f (touches ops widget) = f widget := by
  induction ops generalizing widget with
  | nil => rfl
  | cons op ops ih =>
    refine (ih (op.touch widget)).trans ?_
    unfold BoardOp.touch
    split
    · split_ifs
      · exact hf ..
      · rfl
    · rfl

theorem unplaced_normalize_perm (layout : BoardLayout Props) :
    (normalizeBoardLayout layout).widgets.map (·.unplaced) ~ layout.widgets.map (·.unplaced) := by
  rw [normalizeBoardLayout, map_numberByTab _ fun _ _ => rfl]
  exact (List.perm_insertionSort _ _).map _

/-- Filtering by name and touching see the unplaced widget only. -/
theorem map_touches_filter (ops : List BoardOp) (p : String → Bool)
    (widgets : List (BoardWidget Props)) :
    (widgets.filter fun w => p w.name).map (fun w => touches ops w.unplaced) =
      ((widgets.map (·.unplaced)).filter fun w => p w.name).map (touches ops) := by
  rw [List.filter_map, List.map_map]
  rfl

theorem unplaced_perm_of_widgets {before made : BoardLayout Props} {op : BoardOp}
    (hw : made.widgets = before.widgets) (ht : ∀ widget : BoardWidget Props, op.touch widget = widget)
    (hr : ∀ name, op ≠ .widgetRemove name) :
    made.widgets.map (·.unplaced) ~
      (before.widgets.filter fun w => !op.removes w.name).map fun w => op.touch w.unplaced := by
  simp [hw, ht, BoardOp.removes, hr]

/-- What one operation leaves of the widgets. -/
theorem unplaced_perm_of_ok {before made : BoardLayout Props} (h : before.Sound) {op : BoardOp}
    (he : applyBoardOp before op = .ok made) :
    made.widgets.map (·.unplaced) ~
      (before.widgets.filter fun w => !op.removes w.name).map fun w => op.touch w.unplaced := by
  cases op with
  | tabCreate tabId title chatDock =>
    simp only [applyBoardOp] at he
    split_ifs at he
    cases he
    exact unplaced_perm_of_widgets rfl (fun _ => rfl) (by simp)
  | tabUpdate tabId title chatDock position =>
    simp only [applyBoardOp] at he
    obtain ⟨tab, -, he⟩ := bind_eq_ok.mp he
    split_ifs at he
    refine unplaced_perm_of_widgets ?_ (fun _ => rfl) (by simp)
    rw [← Except.ok.inj he]
    cases position <;> rfl
  | tabsReorder tabIds =>
    simp only [applyBoardOp] at he
    split_ifs at he
    exact unplaced_perm_of_widgets (by rw [← Except.ok.inj he]) (fun _ => rfl) (by simp)
  | tabDelete tabId =>
    simp only [applyBoardOp] at he
    obtain ⟨tab, -, he⟩ := bind_eq_ok.mp he
    unfold tabDelete at he
    simp only at he
    split_ifs at he
    · split at he
      · cases he
      · rename_i fallback rest hrest
        rw [← Except.ok.inj he]
        -- widgets that move to another tab keep all but their place
        have hadopt : ∀ w : BoardWidget Props,
            (adopt tab.tabId fallback.tabId w).unplaced = w.unplaced := by
          intro w
          unfold adopt
          split_ifs <;> rfl
        have hmap : (before.widgets.map (adopt tab.tabId fallback.tabId)).map (·.unplaced) =
            before.widgets.map (·.unplaced) := by
          rw [List.map_map]
          exact List.map_congr_left fun w _ => hadopt w
        refine (List.Perm.of_eq hmap).trans ?_
        simp [BoardOp.removes, BoardOp.touch]
    · exact unplaced_perm_of_widgets (by rw [← Except.ok.inj he]) (fun _ => rfl) (by simp)
  | widgetMove name tabId position after =>
    simp only [applyBoardOp] at he
    obtain ⟨widget, hwidget, he⟩ := bind_eq_ok.mp he
    have hperm := moveWidget_perm (·.unplaced) (fun _ _ => rfl) (fun _ _ => rfl) h.names
      (requireWidget_eq_ok hwidget).1 he
    simpa [BoardOp.removes, BoardOp.touch] using hperm
  | widgetResize name sizeW sizeH heightMode =>
    simp only [applyBoardOp] at he
    obtain ⟨widget, -, he⟩ := bind_eq_ok.mp he
    rw [← Except.ok.inj he]
    have hmap : (modifyWidget before name fun w => w.resize sizeW sizeH heightMode).widgets.map
        (·.unplaced) = before.widgets.map fun w =>
          (BoardOp.widgetResize name sizeW sizeH heightMode).touch w.unplaced := by
      rw [modifyWidget, List.map_map]
      exact List.map_congr_left fun w _ => (unplaced_touch (.widgetResize ..) w)
    simpa [BoardOp.removes] using .of_eq hmap
  | widgetRemove name =>
    simp only [applyBoardOp] at he
    obtain ⟨widget, -, he⟩ := bind_eq_ok.mp he
    rw [← Except.ok.inj he]
    simp [BoardOp.removes, BoardOp.touch, eq_comm]

/-- No operation of the batch removes the name. -/
def keeps (ops : List BoardOp) (name : String) : Bool := ops.all fun op => !op.removes name

/-- What a batch leaves of the widgets. -/
structure BatchContents (layout : BoardLayout Props) (ops : List BoardOp)
    (next : BoardLayout Props) : Prop where
  settled : next.Settled
  unplaced : next.widgets.map (·.unplaced) ~
    (layout.widgets.filter fun w => keeps ops w.name).map fun w => touches ops w.unplaced

/-- A widget after the batch comes from one before. -/
theorem BatchContents.origin {layout next : BoardLayout Props} {ops : List BoardOp}
    (h : BatchContents layout ops next) {widget' : BoardWidget Props}
    (hm : widget' ∈ next.widgets) :
    ∃ widget ∈ layout.widgets, widget.name = widget'.name ∧ keeps ops widget.name ∧
      widget'.unplaced = touches ops widget.unplaced := by
  obtain ⟨widget, hw, he⟩ := List.mem_map.mp
    (h.unplaced.subset (List.mem_map_of_mem (f := BoardWidget.unplaced) hm))
  obtain ⟨hw, hkeeps⟩ := List.mem_filter.mp hw
  refine ⟨widget, hw, ?_, hkeeps, he.symm⟩
  rw [← widget'.unplaced_name, ← he, touches_name, widget.unplaced_name]

theorem BatchContents.mem_names {layout next : BoardLayout Props} {ops : List BoardOp}
    (h : BatchContents layout ops next) {name : String} :
    name ∈ next.names ↔ name ∈ layout.names ∧ keeps ops name := by
  have hnames : next.names ~ layout.names.filter (keeps ops) := by
    have hperm := h.unplaced.map (·.name)
    rw [List.map_map, List.map_map] at hperm
    refine hperm.trans (.of_eq ?_)
    rw [BoardLayout.names, List.filter_map]
    refine List.map_congr_left fun w _ => ?_
    simp
  rw [hnames.mem_iff, List.mem_filter]

theorem batchContents_runBoardOps {ops : List BoardOp} {cells : Cells Props}
    (h : cells.next.Normal) (he : (runBoardOps ops cells).1 = none) :
    BatchContents cells.next ops (normalizeBoardLayout (runBoardOps ops cells).2.next) := by
  induction ops generalizing cells with
  | nil =>
    refine ⟨normalize_settled h.toSound, ?_⟩
    refine (unplaced_normalize_perm cells.next).trans (.of_eq ?_)
    simp [keeps, touches]
  | cons op ops ih =>
    unfold runBoardOps at he ⊢
    split at he
    · cases he
    · rename_i made hmade
      have hop := opResult_of_ok h hmade
      obtain ⟨hsettled, hrest⟩ := @ih { cells with next := normalizeBoardLayout made }
        (normalize_normal hop.sound) he
      refine ⟨hsettled, hrest.trans ?_⟩
      rw [map_touches_filter]
      have hfirst := (unplaced_normalize_perm made).trans (unplaced_perm_of_ok h.toSound hmade)
      refine ((hfirst.filter fun w => keeps ops w.name).map (touches ops)).trans (.of_eq ?_)
      rw [List.filter_map, List.map_map, List.filter_filter]
      refine congrArg₂ List.map rfl (List.filter_congr fun w _ => ?_)
      simp [keeps, Bool.and_comm]

theorem batchContents_of_ok {layout next : BoardLayout Props} (h : layout.Normal)
    {ops : List BoardOp} (he : (applyBoardOps layout ops).1 = .ok next) :
    BatchContents layout ops next := by
  have hbatch := @batchContents_runBoardOps _ ops ⟨layout, layout⟩ h
  unfold applyBoardOps at he
  cases hrun : runBoardOps ops ⟨layout, layout⟩ with
  | mk error cells =>
    rw [hrun] at he hbatch
    cases error with
    | some e => cases he
    | none =>
      obtain rfl := Except.ok.inj he
      exact hbatch rfl

end Flashclaw.Board
