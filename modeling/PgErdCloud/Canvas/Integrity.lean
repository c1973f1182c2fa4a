/-
  References on the canvas: the ends of edges, the columns that edges name in their data and
  their handles, and the columns of applied indexes. Edges and indexes name columns by their
  names; the dialog changes the columns of a node and leaves both alone.

  `intact_iff` is about every run of the editor: all its states are intact exactly when each step
  keeps the names that edges and indexes use (`Keeps`). The function that draws an edge is a
  parameter with its documented behaviour (`AddsEdges`).
-/
import PgErdCloud.Canvas.Editor

namespace PgErdCloud.Canvas

open Lib Lib.PyStr

/-! ## References -/

/-- The edge needs a column of this name at its source. -/
def Edge.namesSource (edge : Edge) (name : Str) : Prop :=
  name ∈ (edge.data.bind EdgeData.sourceColumns).getD [] ∨
    edge.sourceHandle = some (sourceColumnHandleId name)

/-- The edge needs a column of this name at its target. -/
def Edge.namesTarget (edge : Edge) (name : Str) : Prop :=
  name ∈ (edge.data.bind EdgeData.targetColumns).getD [] ∨
    edge.targetHandle = some (targetColumnHandleId name)

/-- An edge at the node, or an index of it, names the column. -/
inductive Needed (edges : List Edge) (node : TableNode) (name : Str) : Prop
  | source (edge : Edge) (hedge : edge ∈ edges) (hid : edge.source = node.id)
      (hname : edge.namesSource name)
  | target (edge : Edge) (hedge : edge ∈ edges) (hid : edge.target = node.id)
      (hname : edge.namesTarget name)
  | index (index : IndexRecommendation) (hindex : index ∈ node.indexes)
      (hname : name ∈ index.columns)

/-- Edges end at nodes, and what is named exists. -/
structure Intact (nodes : List TableNode) (edges : List Edge) : Prop where
  ends : ∀ edge ∈ edges, (∃ node ∈ nodes, node.id = edge.source) ∧
    ∃ node ∈ nodes, node.id = edge.target
  columns : ∀ node ∈ nodes, ∀ name, Needed edges node name → name ∈ node.columnNames

theorem Needed.mono {edges edges' : List Edge} {node : TableNode} {name : Str}
    (h : Needed edges node name) (hsub : ∀ edge ∈ edges, edge ∈ edges') :
    Needed edges' node name := by
  cases h with
  | source edge hedge hid hname => exact .source edge (hsub edge hedge) hid hname
  | target edge hedge hid hname => exact .target edge (hsub edge hedge) hid hname
  | index index hindex hname => exact .index index hindex hname

/-- What is needed of a node depends on its id and its indexes. -/
theorem Needed.of_node {edges : List Edge} {node node' : TableNode} {name : Str}
    (h : Needed edges node name) (hid : node'.id = node.id)
    (hindexes : node'.indexes = node.indexes) : Needed edges node' name := by
  cases h with
  | source edge hedge hsource hname => exact .source edge hedge (hsource.trans hid.symm) hname
  | target edge hedge htarget hname => exact .target edge hedge (htarget.trans hid.symm) hname
  | index index hindex hname => exact .index index (hindexes ▸ hindex) hname

/-! ## Updates of a node -/

theorem mem_updateNode {id : Str} {f : TableNode → TableNode} {nodes : List TableNode}
    {node : TableNode} :
    node ∈ updateNode id f nodes ↔
      ∃ old ∈ nodes, (if old.id = id then f old else old) = node :=
  List.mem_map

theorem exists_updateNode {id : Str} {f : TableNode → TableNode}
    (hid : ∀ node, (f node).id = node.id) {nodes : List TableNode} {i : Str} :
    (∃ node ∈ updateNode id f nodes, node.id = i) ↔ ∃ node ∈ nodes, node.id = i := by
  have hsame : ∀ node : TableNode, (if node.id = id then f node else node).id = node.id := by
    intro node
    split_ifs
    · exact hid node
    · rfl
  constructor
  · rintro ⟨node, hnode, rfl⟩
    obtain ⟨old, hold, rfl⟩ := mem_updateNode.mp hnode
    exact ⟨old, hold, (hsame old).symm⟩
  · rintro ⟨old, hold, rfl⟩
    exact ⟨_, mem_updateNode.mpr ⟨old, hold, rfl⟩, hsame old⟩

/-- An update that keeps the indexes of the node has to keep the columns that are named. -/
theorem intact_updateNode_iff {nodes : List TableNode} {edges : List Edge} (h : Intact nodes edges)
    {id : Str} {f : TableNode → TableNode} (hid : ∀ node, (f node).id = node.id)
    (hindexes : ∀ node, (f node).indexes = node.indexes) :
    Intact (updateNode id f nodes) edges ↔
      ∀ node ∈ nodes, node.id = id → ∀ name, Needed edges node name →
        name ∈ (f node).columnNames := by
  constructor
  · intro hafter node hnode hnodeId name hneeded
    have hm : f node ∈ updateNode id f nodes := mem_updateNode.mpr ⟨node, hnode, if_pos hnodeId⟩
    exact hafter.columns (f node) hm name (hneeded.of_node (hid node) (hindexes node))
  · intro hkeep
    constructor
    · intro edge hedge
      rw [exists_updateNode hid, exists_updateNode hid]
      exact h.ends edge hedge
    · intro node hnode name hneeded
      obtain ⟨old, hold, rfl⟩ := mem_updateNode.mp hnode
      split_ifs at hneeded ⊢ with holdId
      · exact hkeep old hold holdId name
          (hneeded.of_node (hid old).symm (hindexes old).symm)
      · exact h.columns old hold name hneeded

theorem nodup_updateNode {id : Str} {f : TableNode → TableNode}
    (hid : ∀ node, (f node).id = node.id) {nodes : List TableNode}
    (h : (nodes.map TableNode.id).Nodup) : ((updateNode id f nodes).map TableNode.id).Nodup := by
  have hsame : (updateNode id f nodes).map TableNode.id = nodes.map TableNode.id := by
    rw [updateNode, List.map_map]
    refine List.map_congr_left fun node _ => ?_
    rw [Function.comp_apply]
    split_ifs
    · exact hid node
    · rfl
  exact hsame ▸ h

/-! ## More and fewer edges -/

/-- The edge may be added. -/
structure Fits (nodes : List TableNode) (edge : Edge) : Prop where
  source : ∃ node ∈ nodes, node.id = edge.source ∧ ∀ name, edge.namesSource name →
    name ∈ node.columnNames
  target : ∃ node ∈ nodes, node.id = edge.target ∧ ∀ name, edge.namesTarget name →
    name ∈ node.columnNames

theorem eq_of_id_eq {nodes : List TableNode} (hnodup : (nodes.map TableNode.id).Nodup)
    {a b : TableNode} (ha : a ∈ nodes) (hb : b ∈ nodes) (h : a.id = b.id) : a = b :=
  List.inj_on_of_nodup_map hnodup ha hb h

theorem Intact.append {nodes : List TableNode} {edges added : List Edge} (h : Intact nodes edges)
    (hnodup : (nodes.map TableNode.id).Nodup) (hfits : ∀ edge ∈ added, Fits nodes edge) :
    Intact nodes (edges ++ added) where
  ends := by
    intro edge hedge
    rcases List.mem_append.mp hedge with hedge | hedge
    · exact h.ends edge hedge
    · obtain ⟨source, hsource, hsourceId, -⟩ := (hfits edge hedge).source
      obtain ⟨target, htarget, htargetId, -⟩ := (hfits edge hedge).target
      exact ⟨⟨source, hsource, hsourceId⟩, ⟨target, htarget, htargetId⟩⟩
  columns := by
    intro node hnode name hneeded
    cases hneeded with
    | source edge hedge hid hname =>
        rcases List.mem_append.mp hedge with hedge | hedge
        · exact h.columns node hnode name (.source edge hedge hid hname)
        · obtain ⟨source, hsource, hsourceId, hnames⟩ := (hfits edge hedge).source
          exact eq_of_id_eq hnodup hsource hnode (hsourceId.trans hid) ▸ hnames name hname
    | target edge hedge hid hname =>
        rcases List.mem_append.mp hedge with hedge | hedge
        · exact h.columns node hnode name (.target edge hedge hid hname)
        · obtain ⟨target, htarget, htargetId, hnames⟩ := (hfits edge hedge).target
          exact eq_of_id_eq hnodup htarget hnode (htargetId.trans hid) ▸ hnames name hname
    | index index hindex hname => exact h.columns node hnode name (.index index hindex hname)

theorem Intact.filterEdges {nodes : List TableNode} {edges : List Edge} (h : Intact nodes edges)
    (p : Edge → Bool) : Intact nodes (edges.filter p) where
  ends := fun edge hedge => h.ends edge (List.mem_filter.mp hedge).1
  columns := fun node hnode name hneeded =>
    h.columns node hnode name (hneeded.mono fun _ hedge => (List.mem_filter.mp hedge).1)

theorem sourceColumnHandleId_injective {a b : Str}
    (h : sourceColumnHandleId a = sourceColumnHandleId b) : a = b :=
  sanitizeHandleId_injective (List.append_cancel_left h)

theorem targetColumnHandleId_injective {a b : Str}
    (h : targetColumnHandleId a = targetColumnHandleId b) : a = b :=
  sanitizeHandleId_injective (List.append_cancel_left h)

/-- A handle on the canvas names a column of its node, if it names one. -/
theorem exists_of_hasHandle {handleId : Str → Str} {nodes : List TableNode} {id : Str}
    {handle : Option Str} (hinj : ∀ a b, handleId a = handleId b → a = b)
    (h : hasHandle handleId nodes id handle = true) :
    ∃ node ∈ nodes, node.id = id ∧ ∀ name, handle = some (handleId name) →
      name ∈ node.columnNames := by
  obtain ⟨node, hnode, hfits⟩ := List.any_eq_true.mp h
  obtain ⟨hid, hhandle⟩ := Bool.and_eq_true_iff.mp hfits
  refine ⟨node, hnode, of_decide_eq_true hid, fun name hname => ?_⟩
  rcases Bool.or_eq_true_iff.mp hhandle with hnone | hcolumn
  · exact absurd (hname.symm.trans (of_decide_eq_true hnone)) (by simp)
  · obtain ⟨c, hc, hsame⟩ := List.any_eq_true.mp hcolumn
    have hsome := (of_decide_eq_true hsame).symm.trans hname
    exact List.mem_map.mpr ⟨c, hc, hinj _ _ (Option.some.inj hsome)⟩

theorem fits_connectedEdge {nodes : List TableNode} {source target : Str}
    {sourceHandle targetHandle : Option Str} (now : Nat)
    (hsource : hasHandle sourceColumnHandleId nodes source sourceHandle = true)
    (htarget : hasHandle targetColumnHandleId nodes target targetHandle = true) :
    Fits nodes (connectedEdge source target sourceHandle targetHandle now) where
  source := by
    obtain ⟨node, hnode, hid, hnames⟩ :=
      exists_of_hasHandle (fun _ _ => sourceColumnHandleId_injective) hsource
    refine ⟨node, hnode, hid, fun name hname => ?_⟩
    rcases hname with hdata | hhandle
    · exact absurd hdata List.not_mem_nil
    · exact hnames name hhandle
  target := by
    obtain ⟨node, hnode, hid, hnames⟩ :=
      exists_of_hasHandle (fun _ _ => targetColumnHandleId_injective) htarget
    refine ⟨node, hnode, hid, fun name hname => ?_⟩
    rcases hname with hdata | hhandle
    · exact absurd hdata List.not_mem_nil
    · exact hnames name hhandle

theorem mem_inferTargetColumn {columns : List Column} (h : inferTargetColumn columns ≠ []) :
    inferTargetColumn columns ∈ columns.map Column.columnName := by
  unfold inferTargetColumn at h ⊢
  split_ifs with hany
  · obtain ⟨c, hc, hname⟩ := List.any_eq_true.mp hany
    exact List.mem_map.mpr ⟨c, hc, of_decide_eq_true hname⟩
  · rw [if_neg hany] at h
    split at h
    · next pkCol hfind => exact List.mem_map.mpr ⟨pkCol, List.mem_of_find?_eq_some hfind, rfl⟩
    · cases columns with
      | nil => exact absurd rfl h
      | cons c columns => exact List.mem_map.mpr ⟨c, List.mem_cons_self, rfl⟩

/-- An inferred edge goes from an existing column to an existing column. -/
theorem exists_of_mem_inferRelationships {nodes : List TableNode} {edge : Edge}
    (h : edge ∈ inferRelationships nodes) :
    ∃ sourceNode ∈ nodes, ∃ targetNode ∈ nodes, ∃ colName ∈ sourceNode.columnNames,
      ∃ targetColName ∈ targetNode.columnNames,
        edge = inferredEdge sourceNode targetNode colName targetColName := by
  obtain ⟨sourceNode, hsource, hedge⟩ := List.mem_flatMap.mp h
  obtain ⟨column, hcolumn, hinfer⟩ := List.mem_filterMap.mp hedge
  unfold inferEdge at hinfer
  dsimp only at hinfer
  split_ifs at hinfer with hends hname
  obtain ⟨targetNode, hfind, hinfer⟩ := Option.bind_eq_some_iff.mp hinfer
  split_ifs at hinfer with hempty
  exact ⟨sourceNode, hsource, targetNode, List.mem_of_find?_eq_some hfind, column.columnName,
    List.mem_map.mpr ⟨column, hcolumn, rfl⟩, _, mem_inferTargetColumn hempty,
    (Option.some.inj hinfer).symm⟩

theorem fits_inferred {nodes : List TableNode} {edge : Edge}
    (h : edge ∈ inferRelationships nodes) : Fits nodes edge := by
  obtain ⟨sourceNode, hsource, targetNode, htarget, colName, hcol, targetColName, htargetCol,
    rfl⟩ := exists_of_mem_inferRelationships h
  constructor
  · refine ⟨sourceNode, hsource, rfl, fun name hname => ?_⟩
    rcases hname with hdata | hhandle
    · exact List.mem_singleton.mp hdata ▸ hcol
    · exact sourceColumnHandleId_injective (Option.some.inj hhandle) ▸ hcol
  · refine ⟨targetNode, htarget, rfl, fun name hname => ?_⟩
    rcases hname with hdata | hhandle
    · exact List.mem_singleton.mp hdata ▸ htargetCol
    · exact targetColumnHandleId_injective (Option.some.inj hhandle) ▸ htargetCol

/-! ## More and fewer nodes -/

theorem Intact.addNode {nodes : List TableNode} {edges : List Edge} (h : Intact nodes edges)
    {added : TableNode} (hfresh : ∀ node ∈ nodes, node.id ≠ added.id)
    (hindexes : added.indexes = []) : Intact (nodes ++ [added]) edges where
  ends := by
    intro edge hedge
    obtain ⟨⟨source, hsource, hsourceId⟩, ⟨target, htarget, htargetId⟩⟩ := h.ends edge hedge
    exact ⟨⟨source, List.mem_append_left _ hsource, hsourceId⟩,
      ⟨target, List.mem_append_left _ htarget, htargetId⟩⟩
  columns := by
    intro node hnode name hneeded
    rcases List.mem_append.mp hnode with hnode | hnode
    · exact h.columns node hnode name hneeded
    · obtain rfl := List.mem_singleton.mp hnode
      cases hneeded with
      | source edge hedge hid _ =>
          obtain ⟨⟨source, hsource, hsourceId⟩, -⟩ := h.ends edge hedge
          exact absurd (hsourceId.trans hid) (hfresh source hsource)
      | target edge hedge hid _ =>
          obtain ⟨-, ⟨target, htarget, htargetId⟩⟩ := h.ends edge hedge
          exact absurd (htargetId.trans hid) (hfresh target htarget)
      | index index hindex _ => exact absurd (hindexes ▸ hindex) List.not_mem_nil

/-- A node goes together with its edges. -/
theorem Intact.deleteNode {nodes : List TableNode} {edges : List Edge} (h : Intact nodes edges)
    (id : Str) :
    Intact (nodes.filter fun node => node.id ≠ id)
      (edges.filter fun edge => edge.source ≠ id && edge.target ≠ id) where
  ends := by
    intro edge hedge
    obtain ⟨hedge, hother⟩ := List.mem_filter.mp hedge
    obtain ⟨hsourceNe, htargetNe⟩ := Bool.and_eq_true_iff.mp hother
    obtain ⟨⟨source, hsource, hsourceId⟩, ⟨target, htarget, htargetId⟩⟩ := h.ends edge hedge
    exact ⟨⟨source, List.mem_filter.mpr ⟨hsource, by rw [hsourceId]; exact hsourceNe⟩, hsourceId⟩,
      ⟨target, List.mem_filter.mpr ⟨htarget, by rw [htargetId]; exact htargetNe⟩, htargetId⟩⟩
  columns := by
    intro node hnode name hneeded
    exact (h.filterEdges _).columns node (List.mem_filter.mp hnode).1 name hneeded

/-- The recommended columns are columns of the table. -/
theorem Intact.applyIndex {nodes : List TableNode} {edges : List Edge} (h : Intact nodes edges)
    (hnodup : (nodes.map TableNode.id).Nodup) {id : Str} {recommendation : IndexRecommendation}
    (hoffered : ∃ node ∈ nodes, node.id = id ∧ ∀ name ∈ recommendation.columns,
      name ∈ node.columnNames) : Intact (applyIndex id recommendation nodes) edges := by
  unfold Canvas.applyIndex
  split
  · exact h
  · next targetNode hfind =>
    dsimp only
    split_ifs
    · exact h
    · obtain ⟨offered, hofferedMem, hofferedId, hnames⟩ := hoffered
      have htarget : targetNode ∈ nodes := List.mem_of_find?_eq_some hfind
      have htargetId : targetNode.id = id := by simpa using List.find?_some hfind
      constructor
      · intro edge hedge
        have hends := h.ends edge hedge
        rw [exists_updateNode (by exact fun _ => rfl), exists_updateNode (by exact fun _ => rfl)]
        exact hends
      · intro node hnode name hneeded
        obtain ⟨old, hold, rfl⟩ := mem_updateNode.mp hnode
        split_ifs at hneeded ⊢ with holdId
        · obtain rfl := eq_of_id_eq hnodup hold htarget (holdId.trans htargetId.symm)
          obtain rfl := eq_of_id_eq hnodup hofferedMem hold (hofferedId.trans holdId.symm)
          cases hneeded with
          | source edge hedge hid hname =>
              exact h.columns offered hofferedMem name (.source edge hedge hid hname)
          | target edge hedge hid hname =>
              exact h.columns offered hofferedMem name (.target edge hedge hid hname)
          | index index hindex hname =>
              rcases List.mem_append.mp hindex with hindex | hindex
              · exact h.columns offered hofferedMem name (.index index hindex hname)
              · obtain rfl := List.mem_singleton.mp hindex
                exact hnames name hname
        · exact h.columns old hold name hneeded

/-! ## Snapshots -/

/-- The relation has a node. -/
def Shown (snapshot : SnapshotJson) (relationOid : Nat) : Prop :=
  ∃ r ∈ snapshot.relations, (r.relationKind = "r".toList ∨ r.relationKind = "p".toList) ∧
    r.relationOid = relationOid

/-- The relation has a node, with that column. -/
def ShownColumn (snapshot : SnapshotJson) (relationOid : Nat) (columnName : Str) : Prop :=
  Shown snapshot relationOid ∧
    ∃ c ∈ snapshot.columns, c.relationOid = relationOid ∧ c.columnName = columnName

/-- Foreign keys go from and to what the snapshot has, as when no schema is filtered out. -/
structure Closed (snapshot : SnapshotJson) : Prop where
  foreignKeys : ∀ row ∈ snapshot.fkEdges,
    ShownColumn snapshot row.childRelationOid row.childColumnName ∧
      ShownColumn snapshot row.parentRelationOid row.parentColumnName
  constraints : snapshot.fkEdges = [] → ∀ con ∈ snapshot.constraints,
    con.constraintType = "f".toList → Shown snapshot con.relationOid ∧
      ∃ foreign, con.foreignRelationOid = some foreign ∧ Shown snapshot foreign

theorem showNat_injective {a b : Nat} (h : showNat a = showNat b) : a = b := by
  have hvalue := congrArg (fun digits => Nat.ofDigitChars 10 digits 0) h
  simpa [showNat, Nat.ofDigitChars_ten_toDigits] using hvalue

theorem mem_snapshot_nodes {snapshot : SnapshotJson} {node : TableNode} :
    node ∈ (snapshotToGraph snapshot).nodes ↔ ∃ r ∈ snapshot.relations,
      (r.relationKind = "r".toList ∨ r.relationKind = "p".toList) ∧
        node = snapshotNode snapshot r := by
  simp only [snapshotToGraph, List.mem_map, List.mem_filter, Bool.or_eq_true, decide_eq_true_eq]
  constructor
  · rintro ⟨r, ⟨hr, hkind⟩, rfl⟩
    exact ⟨r, hr, hkind, rfl⟩
  · rintro ⟨r, hr, hkind, rfl⟩
    exact ⟨r, ⟨hr, hkind⟩, rfl⟩

theorem exists_node_iff {snapshot : SnapshotJson} {relationOid : Nat} :
    (∃ node ∈ (snapshotToGraph snapshot).nodes, node.id = showNat relationOid) ↔
      Shown snapshot relationOid := by
  constructor
  · rintro ⟨node, hnode, hid⟩
    obtain ⟨r, hr, hkind, rfl⟩ := mem_snapshot_nodes.mp hnode
    exact ⟨r, hr, hkind, showNat_injective hid⟩
  · rintro ⟨r, hr, hkind, rfl⟩
    exact ⟨_, mem_snapshot_nodes.mpr ⟨r, hr, hkind, rfl⟩, rfl⟩

theorem mem_snapshotNode_columnNames {snapshot : SnapshotJson} {r : RelationRow} {name : Str} :
    name ∈ (snapshotNode snapshot r).columnNames ↔
      ∃ c ∈ snapshot.columns, c.relationOid = r.relationOid ∧ c.columnName = name := by
  simp only [TableNode.columnNames, snapshotNode, snapshotColumns, List.map_map, List.mem_map,
    List.mem_filter, decide_eq_true_eq, Function.comp_apply]
  constructor
  · rintro ⟨c, ⟨hc, hoid⟩, rfl⟩
    exact ⟨c, hc, hoid, rfl⟩
  · rintro ⟨c, hc, hoid, rfl⟩
    exact ⟨c, ⟨hc, hoid⟩, rfl⟩

theorem exists_edge_of_row {snapshot : SnapshotJson} (hwf : WellFormed snapshot) {row : FkEdge}
    (hrow : row ∈ snapshot.fkEdges) :
    ∃ edge ∈ (snapshotToGraph snapshot).edges, edge.source = showNat row.childRelationOid ∧
      edge.target = showNat row.parentRelationOid ∧ edge.namesSource row.childColumnName ∧
        edge.namesTarget row.parentColumnName := by
  have hmem : row ∈ sortRows (snapshot.fkEdges.filter fun other =>
      other.fkConstraintOid = row.fkConstraintOid) :=
    (perm_sortRows _).mem_iff.mpr (List.mem_filter.mpr ⟨hrow, by simp⟩)
  cases hsort : sortRows (snapshot.fkEdges.filter fun other =>
      other.fkConstraintOid = row.fkConstraintOid) with
  | nil => exact absurd (hsort ▸ hmem) List.not_mem_nil
  | cons first rest =>
      rw [hsort] at hmem
      have hfirst : first ∈ snapshot.fkEdges.filter fun other =>
          other.fkConstraintOid = row.fkConstraintOid :=
        (perm_sortRows _).mem_iff.mp (hsort ▸ List.mem_cons_self)
      obtain ⟨hfirst, hoid⟩ := List.mem_filter.mp hfirst
      obtain ⟨hchild, hparent⟩ :=
        hwf.foreignKeys first hfirst row hrow (of_decide_eq_true hoid)
      refine ⟨foreignKeyEdge first rest, ?_, congrArg showNat hchild, congrArg showNat hparent,
        .inl (List.mem_map.mpr ⟨row, hmem, rfl⟩), .inl (List.mem_map.mpr ⟨row, hmem, rfl⟩)⟩
      exact (mem_snapshotEdges_iff (List.ne_nil_of_mem hrow)).mpr ⟨_, first, rest, hsort, rfl⟩

/-- What the edge of a foreign key names comes from its rows. -/
theorem rows_of_edge {snapshot : SnapshotJson} (hwf : WellFormed snapshot)
    (hrows : snapshot.fkEdges ≠ []) {edge : Edge}
    (hedge : edge ∈ (snapshotToGraph snapshot).edges) :
    ∃ first ∈ snapshot.fkEdges, edge.source = showNat first.childRelationOid ∧
      edge.target = showNat first.parentRelationOid ∧
      (∀ name, edge.namesSource name → ∃ row ∈ snapshot.fkEdges,
        row.childRelationOid = first.childRelationOid ∧ row.childColumnName = name) ∧
      ∀ name, edge.namesTarget name → ∃ row ∈ snapshot.fkEdges,
        row.parentRelationOid = first.parentRelationOid ∧ row.parentColumnName = name := by
  obtain ⟨oid, first, rest, hsort, rfl⟩ := (mem_snapshotEdges_iff hrows).mp hedge
  have hmem : ∀ row ∈ first :: rest, row ∈ snapshot.fkEdges ∧ row.fkConstraintOid = oid := by
    intro row hrow
    have hfilter := (perm_sortRows (snapshot.fkEdges.filter fun row =>
      row.fkConstraintOid = oid)).mem_iff.mp (hsort ▸ hrow)
    exact ⟨(List.mem_filter.mp hfilter).1, of_decide_eq_true (List.mem_filter.mp hfilter).2⟩
  obtain ⟨hfirst, hfirstOid⟩ := hmem first List.mem_cons_self
  have hsame : ∀ row ∈ first :: rest, row ∈ snapshot.fkEdges ∧
      row.childRelationOid = first.childRelationOid ∧
        row.parentRelationOid = first.parentRelationOid := by
    intro row hrow
    obtain ⟨hrowMem, hrowOid⟩ := hmem row hrow
    exact ⟨hrowMem, hwf.foreignKeys row hrowMem first hfirst (hrowOid.trans hfirstOid.symm)⟩
  refine ⟨first, hfirst, rfl, rfl, fun name hname => ?_, fun name hname => ?_⟩
  · rcases hname with hdata | hhandle
    · obtain ⟨row, hrow, rfl⟩ := List.mem_map.mp hdata
      exact ⟨row, (hsame row hrow).1, (hsame row hrow).2.1, rfl⟩
    · change (if rest = [] then _ else none) = _ at hhandle
      split_ifs at hhandle
      exact ⟨first, hfirst, rfl, sourceColumnHandleId_injective (Option.some.inj hhandle)⟩
  · rcases hname with hdata | hhandle
    · obtain ⟨row, hrow, rfl⟩ := List.mem_map.mp hdata
      exact ⟨row, (hsame row hrow).1, (hsame row hrow).2.2, rfl⟩
    · change (if rest = [] then _ else none) = _ at hhandle
      split_ifs at hhandle
      exact ⟨first, hfirst, rfl, targetColumnHandleId_injective (Option.some.inj hhandle)⟩

theorem showNat_ne_null (n : Nat) : showNat n ≠ "null".toList := by
  intro he
  have hm : 'n' ∈ Nat.toDigits 10 n := by
    change 'n' ∈ showNat n
    rw [he]
    decide
  exact absurd (Nat.isDigit_of_mem_toDigits (by decide) (by decide) hm) (by decide)

theorem mem_constraint_edges {snapshot : SnapshotJson} (hrows : snapshot.fkEdges = [])
    {edge : Edge} :
    edge ∈ (snapshotToGraph snapshot).edges ↔ ∃ con ∈ snapshot.constraints,
      con.constraintType = "f".toList ∧ constraintEdge con = edge := by
  change edge ∈ snapshotEdges snapshot ↔ _
  rw [snapshotEdges, if_neg (not_not.mpr hrows)]
  simp only [List.mem_map, List.mem_filter, decide_eq_true_eq, and_assoc]

theorem closed_of_intact {snapshot : SnapshotJson} (hwf : WellFormed snapshot)
    (h : Intact (snapshotToGraph snapshot).nodes (snapshotToGraph snapshot).edges) :
    Closed snapshot where
  foreignKeys := by
    intro row hrow
    obtain ⟨edge, hedge, hsource, htarget, hsourceName, htargetName⟩ :=
      exists_edge_of_row hwf hrow
    obtain ⟨hsourceNode, htargetNode⟩ := h.ends edge hedge
    rw [hsource] at hsourceNode
    rw [htarget] at htargetNode
    constructor
    · obtain ⟨r, hr, hkind, hoid⟩ := exists_node_iff.mp hsourceNode
      refine ⟨⟨r, hr, hkind, hoid⟩, ?_⟩
      have hname := h.columns (snapshotNode snapshot r) (mem_snapshot_nodes.mpr ⟨r, hr, hkind, rfl⟩)
        row.childColumnName
        (.source edge hedge (hsource.trans (congrArg showNat hoid.symm)) hsourceName)
      obtain ⟨c, hc, hcOid, hcName⟩ := mem_snapshotNode_columnNames.mp hname
      exact ⟨c, hc, hcOid.trans hoid, hcName⟩
    · obtain ⟨r, hr, hkind, hoid⟩ := exists_node_iff.mp htargetNode
      refine ⟨⟨r, hr, hkind, hoid⟩, ?_⟩
      have hname := h.columns (snapshotNode snapshot r) (mem_snapshot_nodes.mpr ⟨r, hr, hkind, rfl⟩)
        row.parentColumnName
        (.target edge hedge (htarget.trans (congrArg showNat hoid.symm)) htargetName)
      obtain ⟨c, hc, hcOid, hcName⟩ := mem_snapshotNode_columnNames.mp hname
      exact ⟨c, hc, hcOid.trans hoid, hcName⟩
  constraints := by
    intro hrows con hcon htype
    have hedge := (mem_constraint_edges hrows).mpr ⟨con, hcon, htype, rfl⟩
    obtain ⟨hsourceNode, htargetNode⟩ := h.ends _ hedge
    refine ⟨exists_node_iff.mp hsourceNode, ?_⟩
    cases hforeign : con.foreignRelationOid with
    | none =>
        obtain ⟨node, hnode, hid⟩ := htargetNode
        obtain ⟨r, -, -, rfl⟩ := mem_snapshot_nodes.mp hnode
        rw [constraintEdge, hforeign] at hid
        exact absurd hid (showNat_ne_null r.relationOid)
    | some foreign =>
        rw [constraintEdge, hforeign] at htargetNode
        exact ⟨foreign, rfl, exists_node_iff.mp htargetNode⟩

theorem intact_of_closed {snapshot : SnapshotJson} (hwf : WellFormed snapshot)
    (h : Closed snapshot) :
    Intact (snapshotToGraph snapshot).nodes (snapshotToGraph snapshot).edges where
  ends := by
    intro edge hedge
    by_cases hrows : snapshot.fkEdges = []
    · obtain ⟨con, hcon, htype, rfl⟩ := (mem_constraint_edges hrows).mp hedge
      obtain ⟨hsource, foreign, hforeign, htarget⟩ := h.constraints hrows con hcon htype
      refine ⟨exists_node_iff.mpr hsource, ?_⟩
      rw [constraintEdge, hforeign]
      exact exists_node_iff.mpr htarget
    · obtain ⟨first, hfirst, hsource, htarget, -, -⟩ := rows_of_edge hwf hrows hedge
      rw [hsource, htarget]
      obtain ⟨hchild, hparent⟩ := h.foreignKeys first hfirst
      exact ⟨exists_node_iff.mpr hchild.1, exists_node_iff.mpr hparent.1⟩
  columns := by
    intro node hnode name hneeded
    obtain ⟨r, -, -, rfl⟩ := mem_snapshot_nodes.mp hnode
    rw [mem_snapshotNode_columnNames]
    cases hneeded with
    | source edge hedge hid hname =>
        by_cases hrows : snapshot.fkEdges = []
        · obtain ⟨con, -, -, rfl⟩ := (mem_constraint_edges hrows).mp hedge
          rcases hname with hdata | hhandle
          · exact absurd hdata List.not_mem_nil
          · exact absurd hhandle (by simp [constraintEdge])
        · obtain ⟨first, -, hsource, -, hnames, -⟩ := rows_of_edge hwf hrows hedge
          obtain ⟨row, hrow, hchild, rfl⟩ := hnames name hname
          obtain ⟨c, hc, hcOid, hcName⟩ := (h.foreignKeys row hrow).1.2
          exact ⟨c, hc, hcOid.trans (hchild.trans (showNat_injective (hsource.symm.trans hid))),
            hcName⟩
    | target edge hedge hid hname =>
        by_cases hrows : snapshot.fkEdges = []
        · obtain ⟨con, -, -, rfl⟩ := (mem_constraint_edges hrows).mp hedge
          rcases hname with hdata | hhandle
          · exact absurd hdata List.not_mem_nil
          · exact absurd hhandle (by simp [constraintEdge])
        · obtain ⟨first, -, -, htarget, -, hnames⟩ := rows_of_edge hwf hrows hedge
          obtain ⟨row, hrow, hparent, rfl⟩ := hnames name hname
          obtain ⟨c, hc, hcOid, hcName⟩ := (h.foreignKeys row hrow).2.2
          exact ⟨c, hc, hcOid.trans (hparent.trans (showNat_injective (htarget.symm.trans hid))),
            hcName⟩
    | index index hindex _ => exact absurd hindex List.not_mem_nil

/-! ## Steps -/

/-- The ids of nodes tell them apart. -/
def UniqueIds (s : Editor) : Prop := (s.nodes.map TableNode.id).Nodup

variable {addEdge : Edge → List Edge → List Edge}

theorem uniqueIds_step {s t : Editor} {a : Action} (h : UniqueIds s)
    (hst : step addEdge s a = some t) : UniqueIds t := by
  cases a with
  | loadSnapshot snapshot =>
      simp only [step] at hst
      split_ifs at hst with hwf
      obtain rfl := Option.some.inj hst
      have hsub : (snapshot.relations.filter fun r =>
          r.relationKind = "r".toList || r.relationKind = "p".toList).map RelationRow.relationOid
            |>.Nodup := hwf.relations.sublist (List.filter_sublist.map _)
      change (List.map _ (List.map _ _)).Nodup
      rw [List.map_map]
      have hcomp : TableNode.id ∘ snapshotNode snapshot = showNat ∘ RelationRow.relationOid := rfl
      rw [hcomp, ← List.map_map]
      exact hsub.map fun _ _ => showNat_injective
  | clearCanvas =>
      obtain rfl := Option.some.inj hst
      exact List.nodup_nil
  | addTable name now =>
      simp only [step] at hst
      split_ifs at hst with hempty hfresh
      · exact Option.some.inj hst ▸ h
      · obtain rfl := Option.some.inj hst
        change (List.map _ (_ ++ [_])).Nodup
        rw [List.map_append, List.nodup_append]
        refine ⟨h, List.nodup_singleton _, ?_⟩
        rintro id hid other hother rfl
        obtain ⟨node, hnode, hnodeId⟩ := List.mem_map.mp hid
        exact hfresh (List.any_eq_true.mpr
          ⟨node, hnode, decide_eq_true (hnodeId.trans (List.mem_singleton.mp hother))⟩)
  | openTable id =>
      obtain ⟨node, -, rfl⟩ := Option.map_eq_some_iff.mp hst
      exact h
  | addColumn now now' =>
      obtain ⟨editing, -, rfl⟩ := Option.map_eq_some_iff.mp hst
      exact nodup_updateNode (by exact fun _ => rfl) h
  | deleteColumn idx =>
      obtain ⟨editing, -, rfl⟩ := Option.map_eq_some_iff.mp hst
      exact nodup_updateNode (by exact fun _ => rfl) h
  | submitTable form =>
      obtain ⟨editing, -, rfl⟩ := Option.map_eq_some_iff.mp hst
      split_ifs
      · exact h
      · exact nodup_updateNode (by exact fun _ => rfl) h
  | cancelTable =>
      obtain rfl := Option.some.inj hst
      exact h
  | deleteTable =>
      obtain ⟨editing, -, rfl⟩ := Option.map_eq_some_iff.mp hst
      exact h.sublist (List.filter_sublist.map _)
  | connect source target sourceHandle targetHandle now =>
      simp only [step] at hst
      split_ifs at hst
      obtain rfl := Option.some.inj hst
      exact h
  | deleteRelation id =>
      obtain rfl := Option.some.inj hst
      exact h
  | inferRelationships =>
      obtain rfl := Option.some.inj hst
      exact h
  | applyIndex id recommendation =>
      simp only [step] at hst
      split_ifs at hst
      · exact Option.some.inj hst ▸ h
      · obtain rfl := Option.some.inj hst
        change ((applyIndex id recommendation s.nodes).map TableNode.id).Nodup
        unfold applyIndex
        split
        · exact h
        · dsimp only
          split_ifs
          · exact h
          · exact nodup_updateNode (by exact fun _ => rfl) h

/-- The new columns of the node with the id have all the names that are needed. -/
def KeepsColumns (s : Editor) (id : Str) (columns : TableNode → List Column) : Prop :=
  ∀ node ∈ s.nodes, node.id = id → ∀ name, Needed s.edges node name →
    name ∈ (columns node).map Column.columnName

/-- A snapshot that is loaded is closed, a column that is deleted is not named by an edge or an
    index, and neither is one that the dialog renames. -/
def Keeps (s : Editor) : Action → Prop
  | .loadSnapshot snapshot => Closed snapshot
  | .deleteColumn idx => ∀ editing, s.editingNode = some editing →
      KeepsColumns s editing.id fun node => node.columns.eraseIdx idx
  | .submitTable form => ∀ editing, s.editingNode = some editing → JsStr.trim form.title ≠ [] →
      KeepsColumns s editing.id fun _ => updatedColumns editing.columns form
  | _ => True

theorem intact_step_iff (hadds : AddsEdges addEdge) {s t : Editor} {a : Action}
    (hids : UniqueIds s) (h : Intact s.nodes s.edges) (hst : step addEdge s a = some t) :
    Intact t.nodes t.edges ↔ Keeps s a := by
  cases a with
  | loadSnapshot snapshot =>
      simp only [step] at hst
      split_ifs at hst with hwf
      obtain rfl := Option.some.inj hst
      exact ⟨closed_of_intact hwf, intact_of_closed hwf⟩
  | clearCanvas =>
      obtain rfl := Option.some.inj hst
      exact iff_of_true ⟨fun _ hedge => absurd hedge List.not_mem_nil,
        fun _ hnode => absurd hnode List.not_mem_nil⟩ trivial
  | addTable name now =>
      simp only [step] at hst
      split_ifs at hst with hempty hfresh
      · exact iff_of_true (Option.some.inj hst ▸ h) trivial
      · obtain rfl := Option.some.inj hst
        refine iff_of_true (h.addNode (fun node hnode hid => hfresh ?_) rfl) trivial
        exact List.any_eq_true.mpr ⟨node, hnode, decide_eq_true hid⟩
  | openTable id =>
      obtain ⟨node, -, rfl⟩ := Option.map_eq_some_iff.mp hst
      exact iff_of_true h trivial
  | addColumn now now' =>
      obtain ⟨editing, -, rfl⟩ := Option.map_eq_some_iff.mp hst
      refine iff_of_true ((intact_updateNode_iff h (by exact fun _ => rfl)
        (by exact fun _ => rfl)).mpr fun node hnode _ name hneeded => ?_) trivial
      rw [TableNode.columnNames, appendColumn, List.map_append]
      exact List.mem_append_left _ (h.columns node hnode name hneeded)
  | deleteColumn idx =>
      obtain ⟨editing, hediting, rfl⟩ := Option.map_eq_some_iff.mp hst
      have hiff : Intact (updateNode editing.id (removeColumn idx) s.nodes) s.edges ↔ _ :=
        intact_updateNode_iff h (fun _ => rfl) fun _ => rfl
      constructor
      · intro hafter other hother
        obtain rfl := Option.some.inj (hediting.symm.trans hother)
        exact hiff.mp hafter
      · exact fun hkeeps => hiff.mpr (hkeeps editing hediting)
  | submitTable form =>
      obtain ⟨editing, hediting, rfl⟩ := Option.map_eq_some_iff.mp hst
      have hiff : Intact (updateNode editing.id (editTable editing form) s.nodes) s.edges ↔ _ :=
        intact_updateNode_iff h (fun _ => rfl) fun _ => rfl
      split_ifs with htitle
      · exact iff_of_true h fun _ _ hne => absurd htitle hne
      · constructor
        · intro hafter other hother _
          obtain rfl := Option.some.inj (hediting.symm.trans hother)
          exact hiff.mp hafter
        · exact fun hkeeps => hiff.mpr (hkeeps editing hediting htitle)
  | cancelTable =>
      obtain rfl := Option.some.inj hst
      exact iff_of_true h trivial
  | deleteTable =>
      obtain ⟨editing, -, rfl⟩ := Option.map_eq_some_iff.mp hst
      exact iff_of_true (h.deleteNode editing.id) trivial
  | connect source target sourceHandle targetHandle now =>
      simp only [step] at hst
      split_ifs at hst with hoffered
      obtain rfl := Option.some.inj hst
      refine iff_of_true ?_ trivial
      change Intact s.nodes (addEdge _ s.edges)
      by_cases hdrawn : NotDrawn s.edges
          (connectedEdge source target sourceHandle targetHandle now)
      · rw [hadds.refused _ _ hdrawn]
        exact h
      · rw [hadds.added _ _ hdrawn]
        refine h.append hids fun edge hedge => ?_
        rw [List.mem_singleton.mp hedge]
        exact fits_connectedEdge now hoffered.1 hoffered.2
  | deleteRelation id =>
      obtain rfl := Option.some.inj hst
      exact iff_of_true (h.filterEdges _) trivial
  | inferRelationships =>
      obtain rfl := Option.some.inj hst
      exact iff_of_true (h.append hids fun edge hedge => fits_inferred hedge) trivial
  | applyIndex id recommendation =>
      simp only [step] at hst
      split_ifs at hst with hoffered hskip
      · exact iff_of_true (Option.some.inj hst ▸ h) trivial
      · obtain rfl := Option.some.inj hst
        refine iff_of_true (h.applyIndex hids ?_) trivial
        obtain ⟨node, hnode, hfits⟩ := List.any_eq_true.mp hoffered
        obtain ⟨hid, hnames⟩ := Bool.and_eq_true_iff.mp hfits
        refine ⟨node, hnode, of_decide_eq_true hid, fun name hname => ?_⟩
        exact of_decide_eq_true (List.all_eq_true.mp hnames name hname)

/-! ## Runs -/

/-- **The canvas is intact all along a run exactly when every snapshot that is loaded is closed,
    and no dialog takes away the name of a column that an edge or an index uses.** -/
theorem intact_iff (hadds : AddsEdges addEdge) {actions : List Action} {t : Editor}
    (h : run (step addEdge) Editor.initial actions = some t) :
    (∀ before after u, actions = before ++ after →
      run (step addEdge) Editor.initial before = some u → Intact u.nodes u.edges) ↔
        EveryStep (step addEdge) Keeps Editor.initial actions := by
  have hempty : Intact Editor.initial.nodes Editor.initial.edges :=
    ⟨fun _ hedge => absurd hedge List.not_mem_nil, fun _ hnode => absurd hnode List.not_mem_nil⟩
  have hiff : ∀ s a t, UniqueIds s → Intact s.nodes s.edges → step addEdge s a = some t →
      (Intact t.nodes t.edges ↔ Keeps s a) :=
    fun _ _ _ hids hs hst => intact_step_iff hadds hids hs hst
  exact forall_state_iff_everyStep (fun _ _ _ hids hst => uniqueIds_step hids hst) hiff
    (List.nodup_nil : UniqueIds Editor.initial) hempty h

theorem closed_postsSnapshot : Closed postsSnapshot where
  foreignKeys := by
    intro row hrow
    obtain rfl := List.mem_singleton.mp hrow
    have hposts : Shown postsSnapshot 2 :=
      ⟨_, List.mem_cons_of_mem _ List.mem_cons_self, .inl rfl, rfl⟩
    have husers : Shown postsSnapshot 1 := ⟨_, List.mem_cons_self, .inl rfl, rfl⟩
    exact ⟨⟨hposts, _, List.mem_cons_of_mem _ List.mem_cons_self, rfl, rfl⟩,
      ⟨husers, _, List.mem_cons_self, rfl, rfl⟩⟩
  constraints := fun hnone => absurd hnone (by decide)

/-- A snapshot is loaded, relationships are inferred, and a table is added. -/
def inferAndAdd : List Action :=
  [.loadSnapshot postsSnapshot, .inferRelationships, .addTable "tags".toList 1]

theorem intact_iff_at_inferAndAdd :
    ∃ t, run (step appendNewEdge) Editor.initial inferAndAdd = some t ∧ t.edges.length = 2 ∧
      ∀ before after u, inferAndAdd = before ++ after →
        run (step appendNewEdge) Editor.initial before = some u → Intact u.nodes u.edges := by
  obtain ⟨t, ht, hedges⟩ :
      ∃ t, run (step appendNewEdge) Editor.initial inferAndAdd = some t ∧ t.edges.length = 2 :=
    ⟨_, rfl, rfl⟩
  refine ⟨t, ht, hedges,
    (intact_iff addsEdges_appendNewEdge ht).mpr fun before a after u he _ => ?_⟩
  have hm : a ∈ inferAndAdd := by simp [he]
  simp only [inferAndAdd, List.mem_cons, List.not_mem_nil, or_false] at hm
  rcases hm with rfl | rfl | rfl
  · exact closed_postsSnapshot
  · trivial
  · trivial

/-- The column of a foreign key is renamed in the dialog. -/
def renameUserId : List Action :=
  [.loadSnapshot postsSnapshot, .openTable "2".toList,
    .submitTable ⟨"public.posts".toList, [],
      [some ⟨"author_id".toList, "integer".toList, false, true⟩]⟩]

/-- The edge still names the column by its old name. -/
theorem not_every_run_intact :
    ¬ ∀ actions s, run (step appendNewEdge) Editor.initial actions = some s →
      Intact s.nodes s.edges := by
  intro hall
  obtain ⟨s, hs, node, hnode, hnames, edge, hedge, hsource, hdata⟩ :
      ∃ s, run (step appendNewEdge) Editor.initial renameUserId = some s ∧ ∃ node ∈ s.nodes,
        node.columnNames = ["author_id".toList] ∧ ∃ edge ∈ s.edges, edge.source = node.id ∧
          edge.data.bind EdgeData.sourceColumns = some ["user_id".toList] :=
    ⟨_, rfl, _, List.mem_cons_of_mem _ List.mem_cons_self, rfl, _, List.mem_cons_self, rfl, rfl⟩
  have hneeded : Needed s.edges node "user_id".toList :=
    .source edge hedge hsource (.inl (by rw [hdata]; exact List.mem_cons_self))
  have hm := (hall renameUserId s hs).columns node hnode _ hneeded
  rw [hnames] at hm
  exact absurd hm (by decide)

end PgErdCloud.Canvas
