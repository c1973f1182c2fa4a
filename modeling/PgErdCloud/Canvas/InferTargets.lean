/-
  Where inferred edges go (erd/autoInfer.ts). The name that a column matches is stripped of all
  but letters, digits and underscores before the node is looked up, so that a name with other
  characters leads to another table, or nowhere.

  `rightTargets_iff` is about all nodes: every edge goes to the table whose name was matched
  exactly when the search by the stripped name finds that table.
-/
import PgErdCloud.Canvas.Integrity

namespace PgErdCloud.Canvas

open Lib Lib.PyStr

/-! ## The node of an inferred edge -/

/-- `colName.slice(0, -3)` -/
def targetEntity (colName : Str) : Str := colName.dropLast.dropLast.dropLast

/-- The names of tables that a column may refer to. -/
def targetNames (colName : Str) : List Str :=
  [targetEntity colName, targetEntity colName ++ "s".toList, targetEntity colName ++ "es".toList]

/-- A column refers to another table than its own by its name. -/
def Matches (nodes : List TableNode) (source : TableNode) (colName : Str) : Prop :=
  endsWith colName "_id".toList = true ∧ inferTargetTableName nodes colName ≠ [] ∧
    inferTargetTableName nodes colName ≠ titleTableName source.title

/-- `targetNode`, where there is an edge. -/
def inferTarget (nodes : List TableNode) (source : TableNode) (column : Column) :
    Option TableNode :=
  let colName := column.columnName
  if endsWith colName "_id".toList then
    let targetTableName := inferTargetTableName nodes colName
    if targetTableName ≠ [] ∧ targetTableName ≠ titleTableName source.title then
      (nodeByTableName nodes (sanitizeTableName targetTableName)).filter fun target =>
        inferTargetColumn target.columns ≠ []
    else none
  else none

theorem inferEdge_eq (nodes : List TableNode) (source : TableNode) (column : Column) :
    inferEdge nodes source column = (inferTarget nodes source column).map fun target =>
      inferredEdge source target column.columnName (inferTargetColumn target.columns) := by
  unfold inferEdge inferTarget
  dsimp only
  split_ifs with hid hname
  · cases nodeByTableName nodes
        (sanitizeTableName (inferTargetTableName nodes column.columnName)) with
    | none => rfl
    | some target =>
        by_cases hcol : inferTargetColumn target.columns = []
        · simp [Option.filter, hcol]
        · simp [Option.filter, hcol]
  · rfl
  · rfl

theorem inferTarget_eq_some {nodes : List TableNode} {source target : TableNode}
    {column : Column} :
    inferTarget nodes source column = some target ↔
      Matches nodes source column.columnName ∧
        nodeByTableName nodes (sanitizeTableName
          (inferTargetTableName nodes column.columnName)) = some target ∧
        inferTargetColumn target.columns ≠ [] := by
  unfold inferTarget Matches
  dsimp only
  split_ifs with hid hname
  · rw [Option.filter_eq_some_iff, decide_eq_true_eq]
    exact (and_iff_right ⟨hid, hname⟩).symm
  · exact iff_of_false nofun fun h => hname h.1.2
  · exact iff_of_false nofun fun h => hid h.1.1

/-! ## Names -/

theorem inferTargetTableName_mem {nodes : List TableNode} {colName : Str}
    (h : inferTargetTableName nodes colName ≠ []) :
    inferTargetTableName nodes colName ∈ targetNames colName := by
  have hdef : inferTargetTableName nodes colName =
      ((targetNames colName).find? fun name => (nodeByTableName nodes name).isSome).getD [] := rfl
  rw [hdef] at h ⊢
  cases hfind : (targetNames colName).find? fun name => (nodeByTableName nodes name).isSome with
  | none =>
      rw [hfind] at h
      exact absurd rfl h
  | some name => exact List.mem_of_find?_eq_some hfind

/-- A name of word characters is left as it is. -/
theorem sanitizeTableName_eq_self {name : Str} :
    sanitizeTableName name = name ↔ ∀ ch ∈ name, JsStr.isWordChar ch = true :=
  List.filter_eq_self

/-- The names differ in word characters only. -/
theorem isWordChar_of_mem_targetNames {colName name other : Str}
    (hname : name ∈ targetNames colName)
    (hother : other ∈ targetNames colName) (h : ∀ ch ∈ name, JsStr.isWordChar ch = true) :
    ∀ ch ∈ other, JsStr.isWordChar ch = true := by
  have hsplit : ∀ text ∈ targetNames colName, ∃ ending : Str,
      text = targetEntity colName ++ ending ∧ ∀ ch ∈ ending, JsStr.isWordChar ch = true := by
    intro text htext
    simp only [targetNames, List.mem_cons, List.not_mem_nil, or_false] at htext
    rcases htext with rfl | rfl | rfl
    · exact ⟨[], by simp, by simp⟩
    · exact ⟨"s".toList, rfl, List.all_eq_true.mp (by decide)⟩
    · exact ⟨"es".toList, rfl, List.all_eq_true.mp (by decide)⟩
  obtain ⟨_, rfl, -⟩ := hsplit name hname
  obtain ⟨ending, rfl, hending⟩ := hsplit other hother
  intro ch hch
  rcases List.mem_append.mp hch with hch | hch
  · exact h ch (List.mem_append_left _ hch)
  · exact hending ch hch

/-! ## Right targets -/

/-- The edge of the column `E_id` goes to another table called `E`, `Es` or `Ees`, and to a
    column that it has. -/
structure RightTarget (source target : TableNode) (colName : Str) : Prop where
  name : titleTableName target.title ∈ targetNames colName
  other : target ≠ source
  column : inferTargetColumn target.columns ∈ target.columnNames

/-- Every inferred edge goes where its column says. -/
def RightTargets (nodes : List TableNode) : Prop :=
  ∀ source ∈ nodes, ∀ column ∈ source.columns, ∀ target,
    inferTarget nodes source column = some target → RightTarget source target column.columnName

/-- A match is looked up under its own name, or under the other one there is nothing to
    refer to. -/
def FoundAsMatched (nodes : List TableNode) (name : Str) : Prop :=
  (∀ ch ∈ name, JsStr.isWordChar ch = true) ∨
    ∀ target, nodeByTableName nodes (sanitizeTableName name) = some target →
      inferTargetColumn target.columns = []

theorem titleTableName_of_found {nodes : List TableNode} {name : Str} {target : TableNode}
    (h : nodeByTableName nodes name = some target) : titleTableName target.title = name :=
  of_decide_eq_true (List.find?_eq_some_iff_append.mp h).1

/-- **Inference finds the right tables** exactly where every name that a column matches
    consists of letters, digits and underscores, or leads nowhere without the rest. -/
theorem rightTargets_iff (nodes : List TableNode) :
    RightTargets nodes ↔ ∀ source ∈ nodes, ∀ column ∈ source.columns,
      Matches nodes source column.columnName →
        FoundAsMatched nodes (inferTargetTableName nodes column.columnName) := by
  constructor
  · intro h source hsource column hcolumn hmatches
    by_contra hnot
    obtain ⟨hchars, hfound⟩ := not_or.mp hnot
    push Not at hfound
    obtain ⟨target, htarget, hcol⟩ := hfound
    have hright := h source hsource column hcolumn target
      (inferTarget_eq_some.mpr ⟨hmatches, htarget, hcol⟩)
    have hname := hright.name
    rw [titleTableName_of_found htarget] at hname
    have hsafe : ∀ ch ∈ sanitizeTableName (inferTargetTableName nodes column.columnName),
        JsStr.isWordChar ch = true :=
      fun ch hch => (List.mem_filter.mp hch).2
    exact hchars (isWordChar_of_mem_targetNames hname (inferTargetTableName_mem hmatches.2.1) hsafe)
  · intro h source hsource column hcolumn target htarget
    obtain ⟨hmatches, hfound, hcol⟩ := inferTarget_eq_some.mp htarget
    rcases h source hsource column hcolumn hmatches with hchars | hnone
    · rw [sanitizeTableName_eq_self.mpr hchars] at hfound
      have hname := titleTableName_of_found hfound
      refine ⟨?_, ?_, mem_inferTargetColumn hcol⟩
      · rw [hname]
        exact inferTargetTableName_mem hmatches.2.1
      · rintro rfl
        exact hmatches.2.2 hname.symm
    · exact absurd (hnone target hfound) hcol

/-- The tables `or-der` and `order`, and a line of the first. -/
def dashedOrders : List TableNode :=
  [⟨"1".toList, "shop.or-der".toList, none, [⟨"id".toList, "integer".toList, true, true, none⟩],
      [], ⟨true, false⟩⟩,
    ⟨"2".toList, "shop.order".toList, none, [⟨"id".toList, "integer".toList, true, true, none⟩],
      [], ⟨true, false⟩⟩,
    ⟨"3".toList, "shop.line".toList, none,
      [⟨"or-der_id".toList, "integer".toList, true, false, none⟩], [], ⟨false, false⟩⟩]

/-- The edge of `or-der_id` goes to the table `order`. -/
theorem not_rightTargets_dashedOrders : ¬ RightTargets dashedOrders := by
  intro h
  have hright := h ⟨"3".toList, "shop.line".toList, none,
      [⟨"or-der_id".toList, "integer".toList, true, false, none⟩], [], ⟨false, false⟩⟩ (by decide)
    ⟨"or-der_id".toList, "integer".toList, true, false, none⟩ (by decide)
    ⟨"2".toList, "shop.order".toList, none, [⟨"id".toList, "integer".toList, true, true, none⟩],
      [], ⟨true, false⟩⟩ (by decide)
  exact absurd hright.name (by decide)

end PgErdCloud.Canvas
