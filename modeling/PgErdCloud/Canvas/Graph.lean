/-
  The diagram of the editor: table nodes and edges, the handles that edges are drawn between
  (erd/handleUtils.ts), and the graph of a snapshot (`snapshotToGraph` of erd/convert.ts).

  Positions, colours and what is only displayed are left out.
-/
import PgErdCloud.Lib.Dict
import PgErdCloud.Lib.Hex

namespace PgErdCloud.Canvas

open Lib Lib.PyStr Lib.Hex

/-! ## Nodes and edges -/

/-- A column of a node. -/
structure Column where
  columnName : Str
  dataType : Str
  isNotNull : Bool
  isPk : Bool
  columnComment : Option Str
  deriving DecidableEq

/-- How strongly an index is recommended. -/
inductive Strength
  | recommended
  | consider
  | skip
  deriving DecidableEq

/-- An index that was applied to a table. -/
structure IndexRecommendation where
  indexName : Str
  columns : List Str
  strength : Strength
  deriving DecidableEq

/-- Whether a table has a primary key and foreign keys. -/
structure Badges where
  pk : Bool
  fk : Bool
  deriving DecidableEq

/-- A table on the canvas. -/
structure TableNode where
  id : Str
  title : Str
  comment : Option Str
  columns : List Column
  indexes : List IndexRecommendation
  badges : Badges
  deriving DecidableEq

/-- `ForeignKeyEdgeData` -/
structure EdgeData where
  sourceColumns : Option (List Str)
  targetColumns : Option (List Str)
  deriving DecidableEq

/-- A relationship on the canvas, between two tables and maybe two of their columns. -/
structure Edge where
  id : Str
  source : Str
  target : Str
  sourceHandle : Option Str
  targetHandle : Option Str
  label : Option Str
  data : Option EdgeData
  deriving DecidableEq

/-- The canvas. -/
structure Graph where
  nodes : List TableNode
  edges : List Edge
  deriving DecidableEq

/-- `nodesById.get(id)`, of the map that is filled node by node. -/
def nodeById (nodes : List TableNode) (id : Str) : Option TableNode :=
  nodes.reverse.find? fun node => node.id = id

/-- The names of the columns. -/
def TableNode.columnNames (node : TableNode) : List Str := node.columns.map Column.columnName

/-! ## Handles -/

/-- A code point in hexadecimal, at least four digits. -/
def hexCode (ch : Char) : Str := JsStr.padStart 4 '0' (Nat.toDigits 16 ch.toNat)

/-- `sanitizeHandleId`: the code points in hexadecimal. -/
def sanitizeHandleId (columnName : Str) : Str :=
  let encoded := join ['-'] (columnName.map hexCode)
  "c-".toList ++ JsStr.orElse encoded "empty".toList

/-- The handle at which edges begin. -/
def sourceColumnHandleId (columnName : Str) : Str := "src-".toList ++ sanitizeHandleId columnName

/-- The handle at which edges end. -/
def targetColumnHandleId (columnName : Str) : Str := "tgt-".toList ++ sanitizeHandleId columnName

example : sourceColumnHandleId "id".toList = "src-c-0069-0064".toList := by decide

theorem four_le_length_hexCode (ch : Char) : 4 ≤ (hexCode ch).length :=
  width_le_length_paddedHex 4 ch.toNat

theorem length_le_join_hexCode (ch : Char) (name : Str) :
    5 * name.length + 4 ≤ (join ['-'] ((ch :: name).map hexCode)).length := by
  induction name generalizing ch with
  | nil => simpa using four_le_length_hexCode ch
  | cons next name ih =>
      have hlen := four_le_length_hexCode ch
      have hrest := ih next
      rw [List.map_cons, List.map_cons, join_cons_cons, ← List.map_cons]
      simp only [List.length_append, List.length_cons, List.length_nil]
      omega

/-- A handle is much longer than the name it encodes. -/
theorem length_lt_sanitizeHandleId (columnName : Str) :
    2 * columnName.length + 2 < (sanitizeHandleId columnName).length := by
  cases columnName with
  | nil => decide
  | cons ch name =>
      have hlen := length_le_join_hexCode ch name
      have hne : join ['-'] ((ch :: name).map hexCode) ≠ [] := by
        intro he
        rw [he] at hlen
        simp at hlen
      rw [sanitizeHandleId, JsStr.orElse, if_neg hne, List.length_append, List.length_cons]
      have htwo : "c-".toList.length = 2 := rfl
      omega

theorem sanitizeHandleId_ne (columnName : Str) : sanitizeHandleId columnName ≠ columnName := by
  intro he
  have hlen := length_lt_sanitizeHandleId columnName
  rw [he] at hlen
  omega

/-- The handle of a name by its code points. -/
def encodePoints (points : List Nat) : Str :=
  "c-".toList ++ JsStr.orElse (join ['-'] (points.map (paddedHex 4))) "empty".toList

theorem sanitizeHandleId_eq (columnName : Str) :
    sanitizeHandleId columnName = encodePoints (columnName.map Char.toNat) := by
  rw [sanitizeHandleId, encodePoints, List.map_map]
  rfl

/-- The digits of code points are no letters after `f`, and no dash. -/
theorem not_mem_paddedHex {width n : Nat} {ch : Char} (h : ch ∈ paddedHex width n) :
    ch ∉ "-mpty".toList := by
  obtain ⟨d, hd, rfl⟩ := mem_paddedHex h
  have hdigits : ∀ d < 16, Nat.digitChar d ∉ "-mpty".toList := by decide
  exact hdigits d hd

/-- Handles tell lists of code points apart. -/
theorem encodePoints_injective : Function.Injective encodePoints := by
  have hdash : ∀ points : List Nat, ∀ part ∈ points.map (paddedHex 4), '-' ∉ part := by
    intro points part hpart hm
    obtain ⟨n, -, rfl⟩ := List.mem_map.mp hpart
    exact not_mem_paddedHex hm (by decide)
  have hempty : ∀ n points, join ['-'] ((n :: points).map (paddedHex 4)) ≠ "empty".toList := by
    intro n points he
    have hm : 'm' ∈ join ['-'] ((n :: points).map (paddedHex 4)) := by rw [he]; decide
    rcases mem_join hm with hm | ⟨part, hpart, hm⟩
    · exact absurd hm (by decide)
    · obtain ⟨other, -, rfl⟩ := List.mem_map.mp hpart
      exact not_mem_paddedHex hm (by decide)
  have hne : ∀ n points, join ['-'] ((n :: points).map (paddedHex 4)) ≠ [] := by
    intro n points he
    have hlen := width_le_length_paddedHex 4 n
    cases points with
    | nil =>
        rw [List.map_cons, List.map_nil, join_singleton] at he
        rw [he] at hlen
        exact absurd hlen (by decide)
    | cons m points =>
        rw [List.map_cons, List.map_cons, join_cons_cons, List.append_eq_nil_iff] at he
        rw [he.1] at hlen
        exact absurd hlen (by decide)
  intro a b h
  rw [encodePoints, encodePoints, List.append_cancel_left_eq] at h
  cases a with
  | nil =>
      cases b with
      | nil => rfl
      | cons n b =>
          rw [JsStr.orElse, JsStr.orElse, if_neg (hne n b)] at h
          exact absurd h.symm (hempty n b)
  | cons m a =>
      cases b with
      | nil =>
          rw [JsStr.orElse, JsStr.orElse, if_neg (hne m a)] at h
          exact absurd h (hempty m a)
      | cons n b =>
          rw [JsStr.orElse, JsStr.orElse, if_neg (hne m a), if_neg (hne n b)] at h
          have hsplit := congrArg (List.splitOn '-') h
          rw [join, join, List.splitOn_intercalate '-' (hdash _) (by simp),
            List.splitOn_intercalate '-' (hdash _) (by simp)] at hsplit
          exact List.map_injective_iff.mpr (paddedHex_injective 4) hsplit

/-- Handles tell columns apart. -/
theorem sanitizeHandleId_injective {a b : Str} (h : sanitizeHandleId a = sanitizeHandleId b) :
    a = b := by
  rw [sanitizeHandleId_eq, sanitizeHandleId_eq] at h
  exact List.map_injective_iff.mpr (fun _ _ => Char.toNat_inj.mp) (encodePoints_injective h)

/-! ## The graph of a snapshot -/

/-- A row of `relations`. -/
structure RelationRow where
  relationOid : Nat
  relationKind : Str
  schemaName : Str
  relationName : Str
  relationComment : Option Str
  deriving DecidableEq

/-- A row of `columns`. -/
structure ColumnRow where
  relationOid : Nat
  columnName : Str
  dataType : Str
  isNotNull : Bool
  columnComment : Option Str
  deriving DecidableEq

/-- A row of `pk_columns`. -/
structure PkColumn where
  relationOid : Nat
  columnName : Str
  deriving DecidableEq

/-- A row of `fk_edges`. -/
structure FkEdge where
  fkConstraintOid : Nat
  fkConstraintName : Str
  childRelationOid : Nat
  parentRelationOid : Nat
  childColumnName : Str
  parentColumnName : Str
  columnOrdinal : Nat
  deriving DecidableEq

/-- A row of `constraints`. -/
structure ConstraintRow where
  constraintOid : Nat
  constraintName : Str
  constraintType : Str
  relationOid : Nat
  foreignRelationOid : Option Nat
  deriving DecidableEq

/-- The parts of a snapshot that the diagram is made of. -/
structure SnapshotJson where
  relations : List RelationRow
  columns : List ColumnRow
  pkColumns : List PkColumn
  fkEdges : List FkEdge
  constraints : List ConstraintRow
  deriving DecidableEq

/-- `String(n)` -/
def showNat (n : Nat) : Str := Nat.toDigits 10 n

/-- The rows of each foreign key, by its oid. -/
def groupByConstraint (rows : List FkEdge) : Dict Nat (List FkEdge) :=
  rows.foldl
    (Dict.upsertAt (fun row => some row.fkConstraintOid) [] fun row group => group ++ [row]) .empty

/-- The columns of a foreign key in their order. -/
def sortRows (rows : List FkEdge) : List FkEdge :=
  rows.insertionSort fun a b => a.columnOrdinal ≤ b.columnOrdinal

/-- The edge of a foreign key with at least one row. -/
def foreignKeyEdge (first : FkEdge) (rest : List FkEdge) : Edge :=
  let orderedRows := first :: rest
  { id := showNat first.fkConstraintOid
    source := showNat first.childRelationOid
    target := showNat first.parentRelationOid
    sourceHandle := if rest = [] then some (sourceColumnHandleId first.childColumnName) else none
    targetHandle := if rest = [] then some (targetColumnHandleId first.parentColumnName) else none
    label :=
      if rest = [] then
        some (first.fkConstraintName ++ ": ".toList ++ first.childColumnName ++ " → ".toList ++
          first.parentColumnName)
      else
        some (first.fkConstraintName ++ " (".toList ++ showNat orderedRows.length ++
          " cols)".toList)
    data := some ⟨some (orderedRows.map FkEdge.childColumnName),
      some (orderedRows.map FkEdge.parentColumnName)⟩ }

/-- The edge of a foreign key, with all of its columns. -/
def groupEdge (rows : List FkEdge) : Option Edge :=
  match sortRows rows with
  | [] => none
  | first :: rest => some (foreignKeyEdge first rest)

/-- An edge of the constraints list, for snapshots without `fk_edges`. -/
def constraintEdge (con : ConstraintRow) : Edge :=
  { id := showNat con.constraintOid
    source := showNat con.relationOid
    target := con.foreignRelationOid.elim "null".toList showNat
    sourceHandle := none
    targetHandle := none
    label := some con.constraintName
    data := none }

/-- The edges of a snapshot; constraints only stand in where there are no rows of `fk_edges`. -/
def snapshotEdges (snapshot : SnapshotJson) : List Edge :=
  if snapshot.fkEdges ≠ [] then
    (groupByConstraint snapshot.fkEdges).values.filterMap groupEdge
  else (snapshot.constraints.filter fun con => con.constraintType = "f".toList).map constraintEdge

/-- The columns of a table. -/
def snapshotColumns (snapshot : SnapshotJson) (relationOid : Nat) : List Column :=
  (snapshot.columns.filter fun c => c.relationOid = relationOid).map fun c =>
    { columnName := c.columnName
      dataType := c.dataType
      isNotNull := c.isNotNull
      isPk := snapshot.pkColumns.any fun p =>
        p.relationOid = relationOid && p.columnName = c.columnName
      columnComment := c.columnComment }

/-- Whether a relation gets the badges, from its rows or from the constraints list. -/
def snapshotBadges (snapshot : SnapshotJson) (relationOid : Nat) : Badges :=
  let fromConstraints (kind : Str) : Bool := snapshot.fkEdges = [] &&
    snapshot.constraints.any fun con =>
      con.constraintType = kind && con.relationOid = relationOid
  { pk := (snapshot.pkColumns.any fun p => p.relationOid = relationOid) ||
      fromConstraints "p".toList
    fk := (snapshot.fkEdges.any fun r => r.childRelationOid = relationOid) ||
      fromConstraints "f".toList }

/-- The node of a table. -/
def snapshotNode (snapshot : SnapshotJson) (t : RelationRow) : TableNode :=
  { id := showNat t.relationOid
    title := t.schemaName ++ ".".toList ++ t.relationName
    comment := t.relationComment
    columns := snapshotColumns snapshot t.relationOid
    indexes := []
    badges := snapshotBadges snapshot t.relationOid }

/-- `snapshotToGraph` -/
def snapshotToGraph (snapshot : SnapshotJson) : Graph :=
  { nodes := (snapshot.relations.filter fun r =>
      r.relationKind = "r".toList || r.relationKind = "p".toList).map (snapshotNode snapshot)
    edges := snapshotEdges snapshot }

/-- A table with posts, each of a user. -/
def postsSnapshot : SnapshotJson :=
  { relations := [⟨1, "r".toList, "public".toList, "users".toList, none⟩,
      ⟨2, "r".toList, "public".toList, "posts".toList, none⟩]
    columns := [⟨1, "id".toList, "integer".toList, true, none⟩,
      ⟨2, "user_id".toList, "integer".toList, true, none⟩]
    pkColumns := [⟨1, "id".toList⟩]
    fkEdges := [⟨3, "posts_user_id_fkey".toList, 2, 1, "user_id".toList, "id".toList, 1⟩]
    constraints := [] }

/-! ## The foreign keys of a snapshot -/

/-- The row is a foreign key of its own. -/
def SingleColumn (snapshot : SnapshotJson) (row : FkEdge) : Prop :=
  snapshot.fkEdges.filter (fun other => other.fkConstraintOid = row.fkConstraintOid) = [row]

theorem get?_groupByConstraint (rows : List FkEdge) (oid : Nat) :
    (groupByConstraint rows).get? oid =
      if rows.filter (fun row => row.fkConstraintOid = oid) = [] then none
      else some (rows.filter fun row => row.fkConstraintOid = oid) := by
  have happend : ∀ group rest : List FkEdge,
      rest.foldl (fun group row => group ++ [row]) group = group ++ rest := by
    intro group rest
    induction rest generalizing group with
    | nil => exact (List.append_nil group).symm
    | cons row rest ih => rw [List.foldl_cons, ih, List.append_assoc]; rfl
  have hfilter : rows.filter (fun row => some row.fkConstraintOid = some oid) =
      rows.filter fun row => row.fkConstraintOid = oid :=
    List.filter_congr fun row _ => by simp
  rw [groupByConstraint, Dict.get?_foldl_upsertAt, hfilter, happend]
  simp

theorem perm_sortRows (rows : List FkEdge) : (sortRows rows).Perm rows :=
  List.perm_insertionSort _ rows

/-- The edges of a snapshot with foreign key rows: one for each constraint. -/
theorem mem_snapshotEdges_iff {snapshot : SnapshotJson} (hrows : snapshot.fkEdges ≠ [])
    {edge : Edge} :
    edge ∈ snapshotEdges snapshot ↔ ∃ oid first rest,
      sortRows (snapshot.fkEdges.filter fun row => row.fkConstraintOid = oid) = first :: rest ∧
        edge = foreignKeyEdge first rest := by
  rw [snapshotEdges, if_pos hrows, List.mem_filterMap]
  constructor
  · rintro ⟨rows, hrows, hedge⟩
    obtain ⟨⟨oid, group⟩, hitem, hgroup⟩ := List.mem_map.mp hrows
    obtain rfl : group = rows := hgroup
    have hget := Dict.mem_items_iff.mp hitem
    rw [get?_groupByConstraint] at hget
    split_ifs at hget
    have hfilter := Option.some.inj hget
    unfold groupEdge at hedge
    split at hedge
    · exact absurd hedge (by simp)
    · next first rest hsort =>
      exact ⟨oid, first, rest, hfilter ▸ hsort, (Option.some.inj hedge).symm⟩
  · rintro ⟨oid, first, rest, hsort, rfl⟩
    refine ⟨snapshot.fkEdges.filter fun row => row.fkConstraintOid = oid, ?_, ?_⟩
    · have hne : snapshot.fkEdges.filter (fun row => row.fkConstraintOid = oid) ≠ [] := by
        intro hempty
        rw [hempty] at hsort
        exact absurd hsort (by simp [sortRows])
      refine List.mem_map.mpr ⟨(oid, _), Dict.mem_items_iff.mpr ?_, rfl⟩
      rw [get?_groupByConstraint, if_neg hne]
    · rw [groupEdge, hsort]

end PgErdCloud.Canvas
