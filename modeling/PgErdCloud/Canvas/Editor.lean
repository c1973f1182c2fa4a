/-
  The editor (App.tsx, components/modals/EditTableModal.tsx, erd/autoInfer.ts): what the user's
  actions do to the nodes and the edges.

  Nodes, edges and the table that is being edited are three pieces of state. The table being
  edited is a copy of its node, taken when its dialog opens. A state update is one step. What
  the canvas offers is a condition on the action: handles that columns have, and
  recommendations for columns that exist. Ids from the clock are new, and a snapshot has each
  relation once, and one child and one parent for each foreign key.
-/
import PgErdCloud.Canvas.Graph
import PgErdCloud.Lib.Machine

namespace PgErdCloud.Canvas

open Lib Lib.PyStr

/-! ## State -/

/-- The state of the canvas: nodes, edges, and the table whose dialog is open. -/
structure Editor where
  nodes : List TableNode
  edges : List Edge
  editingNode : Option TableNode

/-- An empty canvas. -/
def Editor.initial : Editor := ⟨[], [], none⟩

/-- `nodes.map((n) => n.id === id ? f(n) : n)` -/
def updateNode (id : Str) (f : TableNode → TableNode) (nodes : List TableNode) : List TableNode :=
  nodes.map fun node => if node.id = id then f node else node

/-! ## Inferring relationships -/

/-- The last part of a title. -/
def titleTableName (title : Str) : Str := (split '.' title).getLastD []

/-- `nodesByTableName.get(name)`: the first node with the name. -/
def nodeByTableName (nodes : List TableNode) (tableName : Str) : Option TableNode :=
  nodes.find? fun node => titleTableName node.title = tableName

/-- The table that `colName` seems to refer to; empty when there is none. -/
def inferTargetTableName (nodes : List TableNode) (colName : Str) : Str :=
  let targetEntity := colName.dropLast.dropLast.dropLast
  let candidates := [targetEntity, targetEntity ++ "s".toList, targetEntity ++ "es".toList]
  (candidates.find? fun name => (nodeByTableName nodes name).isSome).getD []

/-- `sanitizeTableName`: the word characters of a name. -/
def sanitizeTableName (name : Str) : Str := name.filter JsStr.isWordChar

/-- The column `id`, or else the first key column, or else the first column. -/
def inferTargetColumn (columns : List Column) : Str :=
  if columns.any fun c => c.columnName = "id".toList then "id".toList
  else
    match columns.find? Column.isPk with
    | some pkCol => pkCol.columnName
    | none => (columns.head?.map Column.columnName).getD []

/-- The edge from a column to the table that its name leads to. -/
def inferredEdge (sourceNode targetNode : TableNode) (colName targetColName : Str) : Edge :=
  { id := "inferred_".toList ++ sourceNode.id ++ "_".toList ++ colName ++ "_".toList ++
      targetNode.id ++ "_".toList ++ targetColName
    source := sourceNode.id
    target := targetNode.id
    sourceHandle := some (sourceColumnHandleId colName)
    targetHandle := some (targetColumnHandleId targetColName)
    label := some "inferred_fk".toList
    data := some ⟨some [colName], some [targetColName]⟩ }

/-- The edge of a column, if its name leads to a table with a column for it. -/
def inferEdge (nodes : List TableNode) (sourceNode : TableNode) (column : Column) :
    Option Edge :=
  let colName := column.columnName
  if endsWith colName "_id".toList then
    let targetTableName := inferTargetTableName nodes colName
    if targetTableName ≠ [] ∧ targetTableName ≠ titleTableName sourceNode.title then
      (nodeByTableName nodes (sanitizeTableName targetTableName)).bind fun targetNode =>
        let targetColName := inferTargetColumn targetNode.columns
        if targetColName = [] then none
        else some (inferredEdge sourceNode targetNode colName targetColName)
    else none
  else none

/-- `inferRelationships` -/
def inferRelationships (nodes : List TableNode) : List Edge :=
  nodes.flatMap fun sourceNode => sourceNode.columns.filterMap (inferEdge nodes sourceNode)

/-! ## Editing a table -/

/-- The inputs of one column in the dialog. -/
structure ColumnForm where
  name : Str
  type : Str
  isPk : Bool
  isNotNull : Bool

/-- What the dialog is submitted with; a column without inputs has been deleted. -/
structure TableForm where
  title : Str
  comment : Str
  columns : List (Option ColumnForm)

/-- A column with what the dialog says of it. -/
def updateColumn (i : Nat) (column : Column) (form : ColumnForm) : Column :=
  { column with
    columnName := JsStr.orElse (JsStr.trim form.name) ("col_".toList ++ showNat i)
    dataType := JsStr.orElse (JsStr.trim form.type) "text".toList
    isPk := form.isPk
    isNotNull := form.isNotNull }

/-- The columns that the dialog has kept, with what it says of them. -/
def updatedColumns (columns : List Column) (form : TableForm) : List Column :=
  columns.zipIdx.filterMap fun (column, i) =>
    form.columns[i]?.join.map (updateColumn i column)

/-- The node after the dialog for `editingNode` was submitted. -/
def editTable (editingNode : TableNode) (form : TableForm) (node : TableNode) : TableNode :=
  let columns := updatedColumns editingNode.columns form
  let comment := JsStr.trim form.comment
  { node with
    title := JsStr.trim form.title
    comment := if comment = [] then none else some comment
    columns := columns
    badges := { node.badges with pk := columns.any Column.isPk } }

/-- A column as the dialog adds it; `now` is `Date.now()`. -/
def newColumn (now : Nat) : Column :=
  ⟨"new_col_".toList ++ showNat now, "text".toList, false, false, none⟩

/-- The table with a new column at its end. -/
def appendColumn (now : Nat) (node : TableNode) : TableNode :=
  { node with columns := node.columns ++ [newColumn now] }

/-- The table without a column. -/
def removeColumn (idx : Nat) (node : TableNode) : TableNode :=
  { node with columns := node.columns.eraseIdx idx }

/-! ## Other updates -/

/-- A table that is added by hand. -/
def newTable (name : Str) (now : Nat) : TableNode :=
  { id := "new_table_".toList ++ showNat now
    title := JsStr.trim name
    comment := none
    columns := [⟨"id".toList, "integer".toList, true, true, none⟩]
    indexes := []
    badges := ⟨true, false⟩ }

/-- The edge that `onConnect` makes of a connection. -/
def connectedEdge (source target : Str) (sourceHandle targetHandle : Option Str) (now : Nat) :
    Edge :=
  { id := "edge_".toList ++ showNat now
    source := source
    target := target
    sourceHandle := sourceHandle
    targetHandle := targetHandle
    label := some "fk_new_relation".toList
    data := none }

/-- A connection that is not drawn, as an end is missing or the edge is there. -/
def NotDrawn (edges : List Edge) (edge : Edge) : Prop :=
  edge.source = [] ∨ edge.target = [] ∨ ∃ other ∈ edges,
    other.source = edge.source ∧ other.target = edge.target ∧
      other.sourceHandle.getD [] = edge.sourceHandle.getD [] ∧
      other.targetHandle.getD [] = edge.targetHandle.getD []

/-- What `addEdge` of @xyflow/react does by its documentation: it appends the edge, and leaves the
    edges as they are where the edge is not valid or there is one with its ends and handles. -/
structure AddsEdges (addEdge : Edge → List Edge → List Edge) : Prop where
  refused : ∀ edge edges, NotDrawn edges edge → addEdge edge edges = edges
  added : ∀ edge edges, ¬ NotDrawn edges edge → addEdge edge edges = edges ++ [edge]

instance (edges : List Edge) (edge : Edge) : Decidable (NotDrawn edges edge) :=
  inferInstanceAs (Decidable (_ ∨ _))

/-- A function that does so. -/
def appendNewEdge (edge : Edge) (edges : List Edge) : List Edge :=
  if NotDrawn edges edge then edges else edges ++ [edge]

theorem addsEdges_appendNewEdge : AddsEdges appendNewEdge :=
  ⟨fun _ _ h => if_pos h, fun _ _ h => if_neg h⟩

/-- `onApplyCardinalityRecommendation` for the table with the id. -/
def applyIndex (id : Str) (recommendation : IndexRecommendation) (nodes : List TableNode) :
    List TableNode :=
  match nodes.find? fun node => node.id = id with
  | none => nodes
  | some targetNode =>
      let existing := targetNode.indexes
      let recColumns := join ",".toList recommendation.columns
      let hasName := recommendation.indexName ≠ [] ∧
        existing.any fun index => index.indexName = recommendation.indexName
      let hasColumns := recColumns ≠ [] ∧ existing.any fun index =>
        index.columns ≠ [] && join ",".toList index.columns = recColumns
      if hasName ∨ hasColumns then nodes
      else updateNode id (fun node => { node with indexes := existing ++ [recommendation] }) nodes

/-! ## Steps -/

/-- What a user can do, with the time on the clock where an id is made of it. -/
inductive Action
  | loadSnapshot (snapshot : SnapshotJson)
  | clearCanvas
  | addTable (name : Str) (now : Nat)
  | openTable (id : Str)
  /-- The clock is read for the node and for the copy. -/
  | addColumn (now now' : Nat)
  | deleteColumn (idx : Nat)
  | submitTable (form : TableForm)
  | cancelTable
  | deleteTable
  | connect (source target : Str) (sourceHandle targetHandle : Option Str) (now : Nat)
  | deleteRelation (id : Str)
  | inferRelationships
  | applyIndex (id : Str) (recommendation : IndexRecommendation)

/-- A node with the id, and the handle of one of its columns or the one of the table. -/
def hasHandle (handleId : Str → Str) (nodes : List TableNode) (id : Str) (handle : Option Str) :
    Bool :=
  nodes.any fun node => node.id = id &&
    (handle = none || node.columns.any fun c => handle = some (handleId c.columnName))

/-- What every snapshot of a database has. -/
structure WellFormed (snapshot : SnapshotJson) : Prop where
  relations : (snapshot.relations.map RelationRow.relationOid).Nodup
  foreignKeys : ∀ row ∈ snapshot.fkEdges, ∀ other ∈ snapshot.fkEdges,
    row.fkConstraintOid = other.fkConstraintOid →
      row.childRelationOid = other.childRelationOid ∧
        row.parentRelationOid = other.parentRelationOid

instance (snapshot : SnapshotJson) : Decidable (WellFormed snapshot) :=
  decidable_of_iff
    ((snapshot.relations.map RelationRow.relationOid).Nodup ∧
      ∀ row ∈ snapshot.fkEdges, ∀ other ∈ snapshot.fkEdges,
        row.fkConstraintOid = other.fkConstraintOid →
          row.childRelationOid = other.childRelationOid ∧
            row.parentRelationOid = other.parentRelationOid)
    ⟨fun h => ⟨h.1, h.2⟩, fun h => ⟨h.relations, h.foreignKeys⟩⟩

/-- One update; `none` when the action is not offered. The library's `addEdge` is a parameter. -/
def step (addEdge : Edge → List Edge → List Edge) (s : Editor) : Action → Option Editor
  | .loadSnapshot snapshot =>
      let graph := snapshotToGraph snapshot
      if WellFormed snapshot then some { s with nodes := graph.nodes, edges := graph.edges }
      else none
  | .clearCanvas => some { s with nodes := [], edges := [] }
  | .addTable name now =>
      if JsStr.trim name = [] then some s
      else if s.nodes.any fun node => node.id = (newTable name now).id then none
      else some { s with nodes := s.nodes ++ [newTable name now] }
  | .openTable id =>
      (s.nodes.find? fun node => node.id = id).map fun node => { s with editingNode := some node }
  | .addColumn now now' =>
      s.editingNode.map fun editing =>
        { s with
          nodes := updateNode editing.id (appendColumn now) s.nodes
          editingNode := some (appendColumn now' editing) }
  | .deleteColumn idx =>
      s.editingNode.map fun editing =>
        { s with
          nodes := updateNode editing.id (removeColumn idx) s.nodes
          editingNode := some (removeColumn idx editing) }
  | .submitTable form =>
      s.editingNode.map fun editing =>
        if JsStr.trim form.title = [] then s
        else
          { s with
            nodes := updateNode editing.id (editTable editing form) s.nodes
            editingNode := none }
  | .cancelTable => some { s with editingNode := none }
  | .deleteTable =>
      s.editingNode.map fun editing =>
        { nodes := s.nodes.filter fun node => node.id ≠ editing.id
          edges := s.edges.filter fun edge => edge.source ≠ editing.id && edge.target ≠ editing.id
          editingNode := none }
  | .connect source target sourceHandle targetHandle now =>
      if hasHandle sourceColumnHandleId s.nodes source sourceHandle ∧
          hasHandle targetColumnHandleId s.nodes target targetHandle then
        let edge := connectedEdge source target sourceHandle targetHandle now
        some { s with edges := addEdge edge s.edges }
      else none
  | .deleteRelation id => some { s with edges := s.edges.filter fun edge => edge.id ≠ id }
  | .inferRelationships => some { s with edges := s.edges ++ inferRelationships s.nodes }
  | .applyIndex id recommendation =>
      if s.nodes.any fun node => node.id = id &&
          recommendation.columns.all fun name => name ∈ node.columnNames then
        if recommendation.strength = .skip then some s
        else some { s with nodes := applyIndex id recommendation s.nodes }
      else none

end PgErdCloud.Canvas
