import Flashclaw.Board.Ops

/-!
# Boards: batches of operations
-/

namespace Flashclaw.Board

variable {Props : Type}

open BoardLayout Results

theorem opResult_of_ok {before made : BoardLayout Props} (h : before.Normal) {op : BoardOp}
    (he : applyBoardOp before op = .ok made) : OpResult before op made := by
  cases op with
  | tabCreate => exact opResult_tabCreate h he
  | tabUpdate => exact opResult_tabUpdate h he
  | tabDelete => exact opResult_tabDelete h he
  | tabsReorder => exact opResult_tabsReorder h he
  | widgetMove => exact opResult_widgetMove h he
  | widgetResize => exact opResult_widgetResize h he
  | widgetRemove => exact opResult_widgetRemove h he

/-- The layouts a batch goes through, each normal and in the order its operation asks for. -/
inductive Arranges : BoardLayout Props → List BoardOp → BoardLayout Props → Prop
  | nil {first final : BoardLayout Props} :
      final.tabIds = first.tabIds → (∀ t, final.namesOn t = first.namesOn t) →
      Arranges first [] final
  | cons {first mid final : BoardLayout Props} {op : BoardOp} {ops : List BoardOp} :
      OrderAfter first op mid → mid.Normal → Arranges mid ops final →
      Arranges first (op :: ops) final

/-- What a batch that returns establishes of a normal layout. -/
structure BatchResult (layout : BoardLayout Props) (ops : List BoardOp)
    (next : BoardLayout Props) : Prop where
  normal : next.Normal
  names : next.names.Perm (layout.names.filter fun name => ops.all fun op => !op.removes name)
  arranges : Arranges layout ops next

theorem BatchResult.nil {layout : BoardLayout Props} (h : layout.Normal) :
    BatchResult layout [] (normalizeBoardLayout layout) where
  normal := normalize_normal h.toSound
  names := by simpa using names_normalize_perm
  arranges := .nil (tabIds_normalize_of_sorted h.tabs_sorted)
    fun t => namesOn_normalize_of_sorted (h.onTab_sorted t)

theorem BatchResult.cons {layout made next : BoardLayout Props} {op : BoardOp}
    {ops : List BoardOp} (h : OpResult layout op made)
    (hrest : BatchResult (normalizeBoardLayout made) ops next) :
    BatchResult layout (op :: ops) next where
  normal := hrest.normal
  names := by
    have hperm := hrest.names.trans ((names_normalize_perm.trans h.names).filter _)
    rw [List.filter_filter] at hperm
    simpa [Bool.and_comm] using hperm
  arranges := .cons h.order (normalize_normal h.sound) hrest.arranges

/-- The loop writes the copy only. -/
theorem runBoardOps_layout (ops : List BoardOp) (cells : Cells Props) :
    (runBoardOps ops cells).2.layout = cells.layout := by
  induction ops generalizing cells with
  | nil => rfl
  | cons op ops ih =>
    unfold runBoardOps
    split
    · rfl
    · exact ih _

theorem batchResult_runBoardOps {ops : List BoardOp} {cells : Cells Props}
    (h : cells.next.Normal) (he : (runBoardOps ops cells).1 = none) :
    BatchResult cells.next ops (normalizeBoardLayout (runBoardOps ops cells).2.next) := by
  induction ops generalizing cells with
  | nil => exact .nil h
  | cons op ops ih =>
    unfold runBoardOps at he ⊢
    split at he
    · cases he
    · rename_i made hmade
      have hop := opResult_of_ok h hmade
      exact .cons hop (ih (normalize_normal hop.sound) he)

/-- A batch throws or keeps the layout invariant.  The caller's layout is as it was because the
operations get a copy. -/
theorem applyBoardOps_arranges {layout : BoardLayout Props} (h : layout.Normal)
    (ops : List BoardOp) :
    (applyBoardOps layout ops).2 = layout ∧
      ∀ next, (applyBoardOps layout ops).1 = .ok next → BatchResult layout ops next := by
  have hlayout := runBoardOps_layout ops ⟨layout, layout⟩
  have hbatch := @batchResult_runBoardOps _ ops ⟨layout, layout⟩ h
  unfold applyBoardOps
  cases hrun : runBoardOps ops ⟨layout, layout⟩ with
  | mk error cells =>
    rw [hrun] at hlayout hbatch
    cases error with
    | some e => exact ⟨hlayout, fun next hn => nomatch hn⟩
    | none =>
      refine ⟨hlayout, fun next hn => ?_⟩
      obtain rfl := Except.ok.inj hn
      exact hbatch rfl

section Example

/-- Two tabs, two widgets on the first and one on the second. -/
def twoTabs : BoardLayout String where
  tabs := [⟨"one", "One", 4, .right⟩, ⟨"two", "Two", 8, .bottom⟩]
  widgets := [card "alpha" "one" 3, card "beta" "one" 9, card "gamma" "two" 2]
where
  card (name tabId : String) (position : ℕ) : BoardWidget String :=
    { name, tabId, title := none, contentKind := .html, presentation := none, heightMode := none,
      pluginKind := none, props := none, sizeW := 6, sizeH := 4, position, grantState := .none,
      revision := 1, instanceId := none, declaredSummary := none, declared := none }

theorem twoTabs_normal : (normalizeBoardLayout twoTabs).Normal :=
  normalize_normal ⟨by decide, by decide, by decide, by decide⟩

theorem applyBoardOps_arranges_twoTabs :
    ((applyBoardOps (normalizeBoardLayout twoTabs)
      [.widgetMove "beta" none (some (1 / 2)) none, .tabDelete "two"]).1.map
        fun next => next.widgets.map fun widget => (widget.name, widget.tabId, widget.position)) =
      .ok [("beta", "one", 0), ("alpha", "one", 1), ("gamma", "one", 2)] ∧
    ∀ next, (applyBoardOps (normalizeBoardLayout twoTabs)
      [.widgetMove "beta" none (some (1 / 2)) none, .tabDelete "two"]).1 = .ok next →
        BatchResult (normalizeBoardLayout twoTabs)
          [.widgetMove "beta" none (some (1 / 2)) none, .tabDelete "two"] next :=
  ⟨by decide +kernel, (applyBoardOps_arranges twoTabs_normal _).2⟩

end Example

end Flashclaw.Board
