/-
  The logical schema of a snapshot: what its rows say about the database. It is defined on the
  rows, with a table named by the pair of its schema and its name, and knows nothing of the
  keys and signatures of the index.

  A foreign key is told by its tables and the name of its constraint, as constraints are in a
  database; the object ids of constraints play no part.

  The index represents it where the keys of tables tell them apart: see `exists_table` for the
  tables and `mem_keys_fks_iff` for the foreign keys.
-/
import PgErdCloud.Diff.IndexFacts

namespace PgErdCloud.Diff

open Lib Lib.PyStr

/-! ## Logical schemas -/

/-- A foreign key whatever its name: the columns of the child and, in the same order, those of
    the parent that they refer to. -/
structure LogicalFk where
  child : TableName
  childColumns : List Str
  parent : TableName
  parentColumns : List Str
  deriving DecidableEq

/-- What two snapshots are compared for: tables, columns, keys and comments, without numbers and
    without order. -/
@[ext] structure Schema where
  tables : Set TableName
  column : TableName → Str → Option Col
  primaryKey : TableName → List Str
  comment : TableName → Option Str
  foreignKeys : Set LogicalFk

variable {Oid : Type} [DecidableEq Oid]

/-- A missing schema or name is empty. -/
def Relation.tableName (rel : Relation Oid) : TableName :=
  ⟨rel.schemaName.getD [], rel.relationName.getD []⟩

namespace Snapshot

variable (s : Snapshot Oid)

/-- The tables of the rows. -/
def tableNames : List TableName := s.relations.map Relation.tableName

/-- The table of an object id; of relations that share one, the last. -/
def tableOf (oid : Option Oid) : Option TableName :=
  (s.relations.reverse.find? (·.relationOid = oid)).map Relation.tableName

/-- A column of a table. -/
def column (table : TableName) (name : Str) : Option Col :=
  (s.columns.find? fun col =>
    s.tableOf col.relationOid = some table ∧ col.columnName = some name).map fun col =>
      ⟨col.dataType, col.isNotNull⟩

/-- The columns of the primary key by their ordinals; a row without one counts by its place. -/
def primaryKey (table : TableName) : List Str :=
  let rows := s.pkColumns.filter fun pk =>
    s.tableOf pk.relationOid = some table ∧ pk.columnName ≠ none
  (sortByOrdinal (rows.zipIdx.map fun row =>
    (row.1.columnOrdinal.getD row.2, row.1.columnName.getD []))).map Prod.snd

/-- The comment on a table. -/
def comment (table : TableName) : Option Str :=
  (s.relations.find? (·.tableName = table)).bind Relation.relationComment

/-- Two edges of one constraint: it is identified by its name and the tables at its ends. -/
def SameConstraint (e e' : FkEdge Oid) : Prop :=
  e.fkConstraintName.getD [] = e'.fkConstraintName.getD [] ∧
  s.tableOf e.childRelationOid = s.tableOf e'.childRelationOid ∧
  s.tableOf e.parentRelationOid = s.tableOf e'.parentRelationOid

instance : DecidableRel s.SameConstraint :=
  fun _ _ => inferInstanceAs (Decidable (_ ∧ _ ∧ _))

/-- The foreign key that an edge is part of, if the snapshot has both of its tables. -/
def foreignKey (edge : FkEdge Oid) : Option LogicalFk :=
  match s.tableOf edge.childRelationOid, s.tableOf edge.parentRelationOid with
  | some child, some parent =>
      let parts := sortByOrdinal ((s.fkEdges.filter (s.SameConstraint edge)).map edgePart)
      some ⟨child, parts.map fun part => part.2.1, parent, parts.map fun part => part.2.2⟩
  | _, _ => none

/-- The foreign keys of the rows. -/
def foreignKeys : List LogicalFk := s.fkEdges.filterMap s.foreignKey

/-- What the snapshot says about the database. -/
def schema : Schema where
  tables := {table | table ∈ s.tableNames}
  column := s.column
  primaryKey := s.primaryKey
  comment := s.comment
  foreignKeys := {fk | fk ∈ s.foreignKeys}

/-- Tables have distinct names, and the named columns of a table have. -/
structure WellFormed : Prop where
  tables : s.tableNames.Nodup
  columns : s.columns.Pairwise fun col col' =>
    s.tableOf col.relationOid = s.tableOf col'.relationOid → s.tableOf col.relationOid ≠ none →
      col.columnName = col'.columnName → col.columnName = none

end Snapshot

/-! ## Keys -/

/-- The text that the code knows a foreign key by. -/
def LogicalFk.signature (fk : LogicalFk) : Str :=
  fkSignature fk.child.key fk.childColumns fk.parent.key fk.parentColumns

/-- The tables have distinct keys. -/
def KeysDistinct (tables : List TableName) : Prop :=
  ∀ table ∈ tables, ∀ table' ∈ tables, table.key = table'.key → table = table'

omit [DecidableEq Oid] in
theorem Relation.key_eq (rel : Relation Oid) : rel.key = rel.tableName.key := by
  simp [Relation.key, TableName.key, Relation.tableName, tableKey]

/-- The object ids of the index are resolved to the keys of their tables. -/
theorem get?_oidToTable (s : Snapshot Oid) (oid : Option Oid) :
    (oidToTable s.relations).get? oid = (s.tableOf oid).map TableName.key := by
  unfold Snapshot.tableOf oidToTable
  have hfold : ∀ oids : Dict (Option Oid) Str,
      (s.relations.foldl (fun oids rel => oids.set rel.relationOid rel.key) oids).get? oid =
        (((s.relations.reverse.find? (·.relationOid = oid)).map Relation.tableName).map
          TableName.key).or (oids.get? oid) := by
    induction s.relations with
    | nil => exact fun oids => rfl
    | cons rel relations ih =>
        intro oids
        rw [List.foldl_cons, ih, List.reverse_cons, List.find?_append]
        cases relations.reverse.find? (·.relationOid = oid) with
        | some rel' => rfl
        | none =>
            by_cases h : rel.relationOid = oid
            · simp [h, Relation.key_eq]
            · have h' : ¬ oid = rel.relationOid := fun he => h he.symm
              simp [h, h', Dict.get?_set]
  rw [hfold, Dict.get?_empty, Option.or_none]

namespace Snapshot

variable {s : Snapshot Oid}

theorem mem_tableNames_of_tableOf {oid : Option Oid} {table : TableName}
    (h : s.tableOf oid = some table) : table ∈ s.tableNames := by
  obtain ⟨rel, hrel, rfl⟩ := Option.map_eq_some_iff.mp h
  exact List.mem_map_of_mem (List.mem_reverse.mp (List.mem_of_find?_eq_some hrel))

/-- Where keys are distinct, a row belongs to a key as it belongs to the table. -/
theorem get?_oidToTable_eq_some (hkeys : KeysDistinct s.tableNames) {oid : Option Oid}
    {table : TableName} (htable : table ∈ s.tableNames) :
    (oidToTable s.relations).get? oid = some table.key ↔ s.tableOf oid = some table := by
  rw [get?_oidToTable, Option.map_eq_some_iff]
  constructor
  · rintro ⟨table', h, hkey⟩
    rw [← hkeys table' (mem_tableNames_of_tableOf h) table htable hkey]
    exact h
  · intro h
    exact ⟨table, h, rfl⟩

/-! ## Tables of the index -/

/-- Where keys are distinct, the index has the keys of the tables. -/
theorem mem_keys_tables_iff {key : Str} :
    key ∈ (indexSnapshot s).tables.keys ↔ ∃ table ∈ s.tableNames, table.key = key := by
  have hkeys := Dict.mem_keys_foldl_set Relation.key newTable s.relations .empty key
  unfold indexSnapshot
  rw [keys_tables]
  refine hkeys.trans ?_
  simp [Dict.keys, Dict.empty, tableNames, Relation.key_eq]

theorem columnTable_eq_some (hkeys : KeysDistinct s.tableNames) {table : TableName}
    (htable : table ∈ s.tableNames) (col : Column Oid) :
    columnTable (oidToTable s.relations).get? col = some table.key ↔
      s.tableOf col.relationOid = some table ∧ col.columnName ≠ none := by
  unfold columnTable
  cases hn : col.columnName with
  | none => simp
  | some name => simp [get?_oidToTable_eq_some hkeys htable]

theorem pkTable_eq_some (hkeys : KeysDistinct s.tableNames) {table : TableName}
    (htable : table ∈ s.tableNames) (pk : PkColumn Oid) :
    pkTable (oidToTable s.relations).get? pk = some table.key ↔
      s.tableOf pk.relationOid = some table ∧ pk.columnName ≠ none := by
  unfold pkTable
  cases hn : pk.columnName with
  | none => simp
  | some name => simp [get?_oidToTable_eq_some hkeys htable]

/-- The columns that the index collects for a table are those of the table. -/
theorem get?_columns_eq (hwf : s.WellFormed) (hkeys : KeysDistinct s.tableNames)
    {table : TableName} (htable : table ∈ s.tableNames) (name : Str) :
    ((s.columns.filter fun col => columnTable (oidToTable s.relations).get? col =
      some table.key).foldl setColumn .empty).get? name = s.column table name := by
  simp only [columnTable_eq_some hkeys htable]
  have hnodup : ((s.columns.filter fun col => s.tableOf col.relationOid = some table ∧
      col.columnName ≠ none).map fun col => col.columnName.getD []).Nodup := by
    rw [List.Nodup, List.pairwise_map]
    refine (hwf.columns.filter _).imp_of_mem ?_
    intro col col' hm hm' hdistinct he
    simp only [List.mem_filter, decide_eq_true_eq] at hm hm'
    obtain ⟨a, ha⟩ := Option.ne_none_iff_exists'.mp hm.2.2
    obtain ⟨a', ha'⟩ := Option.ne_none_iff_exists'.mp hm'.2.2
    rw [ha, ha', Option.getD_some, Option.getD_some] at he
    have hsame : s.tableOf col.relationOid = s.tableOf col'.relationOid :=
      hm.2.1.trans hm'.2.1.symm
    exact hm.2.2 (hdistinct hsame (by simp [hm.2.1]) (by rw [ha, ha', he]))
  refine (Dict.get?_foldl_set_find hnodup (fun col => (⟨col.dataType, col.isNotNull⟩ : Col))
    name).trans ?_
  rw [column, List.find?_filter]
  congr 2
  funext col
  cases hn : col.columnName with
  | none => simp
  | some a => simp

omit [DecidableEq Oid] in
theorem foldl_addPkColumn (rows : List (PkColumn Oid)) :
    rows.foldl addPkColumn [] = rows.zipIdx.map fun row =>
      (row.1.columnOrdinal.getD row.2, row.1.columnName.getD []) := by
  induction rows using List.reverseRecOn with
  | nil => rfl
  | append_singleton rows row ih =>
      rw [List.foldl_append, ih, List.zipIdx_append, List.map_append]
      simp [addPkColumn]

/-- **The index represents the tables.** Where keys are distinct, a table is found at its key,
    with its columns, its primary key and its comment. -/
theorem exists_table (hwf : s.WellFormed) (hkeys : KeysDistinct s.tableNames)
    {table : TableName} (htable : table ∈ s.tableNames) :
    ∃ tbl, (indexSnapshot s).tables.get? table.key = some tbl ∧
      (∀ name, tbl.columns.get? name = s.column table name) ∧
      tbl.pk = s.primaryKey table ∧ tbl.comment = s.comment table := by
  obtain ⟨rel, hrel⟩ : ∃ rel, s.relations.find? (·.tableName = table) = some rel := by
    obtain ⟨rel, hm, he⟩ := List.mem_map.mp htable
    rw [← Option.isSome_iff_exists, List.find?_isSome]
    exact ⟨rel, hm, decide_eq_true he⟩
  have hname : rel.tableName = table := by simpa using List.find?_some hrel
  have hnodup : (s.relations.map Relation.key).Nodup := by
    have hmap : s.relations.map Relation.key = s.tableNames.map TableName.key := by
      simp [tableNames, Relation.key_eq]
    rw [hmap]
    exact hwf.tables.map_on fun n hn n' hn' => hkeys n hn n' hn'
  have hentry : (relationTables s.relations).get? table.key = some (newTable rel) := by
    rw [← hname, ← Relation.key_eq]
    exact Dict.get?_foldl_set hnodup newTable (List.mem_of_find?_eq_some hrel) .empty
  unfold indexSnapshot
  rw [get?_tables, hentry]
  refine ⟨_, rfl, get?_columns_eq hwf hkeys htable, ?_, ?_⟩
  · have hpk : pkAt (oidToTable s.relations).get? s table.key = s.primaryKey table := by
      unfold pkAt primaryKey
      simp only [pkTable_eq_some hkeys htable, foldl_addPkColumn]
    rw [← hpk]
    split_ifs with hrows
    · simp [pkAt, hrows, sortByOrdinal, newTable]
    · rfl
  · rw [comment, hrel]
    rfl

/-! ## Foreign keys of the index -/

theorem fkGroup_eq_some (hkeys : KeysDistinct s.tableNames) {child parent : TableName}
    (hc : child ∈ s.tableNames) (hp : parent ∈ s.tableNames) (name : Str) (edge : FkEdge Oid) :
    fkGroup (oidToTable s.relations).get? edge = some (child.key, parent.key, name) ↔
      s.tableOf edge.childRelationOid = some child ∧
      s.tableOf edge.parentRelationOid = some parent ∧ edge.fkConstraintName.getD [] = name := by
  rw [← get?_oidToTable_eq_some hkeys hc, ← get?_oidToTable_eq_some hkeys hp]
  unfold fkGroup
  cases (oidToTable s.relations).get? edge.childRelationOid with
  | none => simp
  | some childKey =>
      cases (oidToTable s.relations).get? edge.parentRelationOid with
      | none => simp
      | some parentKey => simp

theorem exists_of_fkGroup {edge : FkEdge Oid} {group : Str × Str × Str}
    (h : fkGroup (oidToTable s.relations).get? edge = some group) :
    ∃ child parent, s.tableOf edge.childRelationOid = some child ∧
      s.tableOf edge.parentRelationOid = some parent ∧
      group = (child.key, parent.key, edge.fkConstraintName.getD []) := by
  unfold fkGroup at h
  rw [get?_oidToTable, get?_oidToTable, Option.bind_eq_some_iff] at h
  obtain ⟨childKey, hchild, h⟩ := h
  obtain ⟨parentKey, hparent, rfl⟩ := Option.map_eq_some_iff.mp h
  obtain ⟨child, hc, rfl⟩ := Option.map_eq_some_iff.mp hchild
  obtain ⟨parent, hp, rfl⟩ := Option.map_eq_some_iff.mp hparent
  exact ⟨child, parent, hc, hp, rfl⟩

/-- The group of an edge is its constraint. -/
theorem groupEdges_eq (hkeys : KeysDistinct s.tableNames) {edge : FkEdge Oid}
    {child parent : TableName} (hc : s.tableOf edge.childRelationOid = some child)
    (hp : s.tableOf edge.parentRelationOid = some parent) :
    groupEdges (oidToTable s.relations).get? s
        (child.key, parent.key, edge.fkConstraintName.getD []) =
      s.fkEdges.filter (s.SameConstraint edge) := by
  apply List.filter_congr
  intro e he
  rw [decide_eq_decide, fkGroup_eq_some hkeys (mem_tableNames_of_tableOf hc)
    (mem_tableNames_of_tableOf hp), SameConstraint, hc, hp]
  constructor
  · rintro ⟨hce, hpe, hn⟩
    exact ⟨hn.symm, hce.symm, hpe.symm⟩
  · rintro ⟨hn, hce, hpe⟩
    exact ⟨hce.symm, hpe.symm, hn.symm⟩

theorem tableOf_of_foreignKey {edge : FkEdge Oid} {fk : LogicalFk}
    (h : s.foreignKey edge = some fk) : ∃ child parent,
      s.tableOf edge.childRelationOid = some child ∧
      s.tableOf edge.parentRelationOid = some parent := by
  unfold foreignKey at h
  split at h
  · exact ⟨_, _, ‹_›, ‹_›⟩
  · exact absurd h (by simp)

/-- **The index represents the foreign keys.** Where keys are distinct, the signatures of the
    index are those of the foreign keys. -/
theorem mem_keys_fks_iff (hkeys : KeysDistinct s.tableNames) {signature : Str} :
    signature ∈ (indexSnapshot s).fks.keys ↔
      ∃ fk ∈ s.foreignKeys, fk.signature = signature := by
  unfold indexSnapshot
  rw [mem_keys_fks]
  -- an edge gives its constraint the signature that the index gives to its group
  have hsignature : ∀ edge child parent,
      s.tableOf edge.childRelationOid = some child →
      s.tableOf edge.parentRelationOid = some parent →
      ∃ fk, s.foreignKey edge = some fk ∧
        (fkAt (oidToTable s.relations).get? s
          (child.key, parent.key, edge.fkConstraintName.getD [])).signature = fk.signature := by
    intro edge child parent hc hp
    refine ⟨_, by rw [foreignKey, hc, hp], ?_⟩
    rw [fkAt, groupEdges_eq hkeys hc hp]
    rfl
  constructor
  · rintro ⟨group, hne, rfl⟩
    obtain ⟨edge, hm⟩ := List.exists_mem_of_ne_nil _ hne
    obtain ⟨hedge, hgroup⟩ := List.mem_filter.mp hm
    obtain ⟨child, parent, hc, hp, rfl⟩ := exists_of_fkGroup (of_decide_eq_true hgroup)
    obtain ⟨fk, hfk, hsig⟩ := hsignature edge child parent hc hp
    exact ⟨fk, List.mem_filterMap.mpr ⟨edge, hedge, hfk⟩, hsig.symm⟩
  · rintro ⟨fk, hfk, rfl⟩
    obtain ⟨edge, hedge, hfk⟩ := List.mem_filterMap.mp hfk
    obtain ⟨child, parent, hc, hp⟩ := tableOf_of_foreignKey hfk
    obtain ⟨fk', hfk', hsig⟩ := hsignature edge child parent hc hp
    rw [hfk, Option.some.injEq] at hfk'
    refine ⟨_, ?_, by rw [hsig, hfk']⟩
    have hmem : edge ∈ groupEdges (oidToTable s.relations).get? s
        (child.key, parent.key, edge.fkConstraintName.getD []) := by
      rw [groupEdges_eq hkeys hc hp]
      exact List.mem_filter.mpr ⟨hedge, decide_eq_true ⟨rfl, rfl, rfl⟩⟩
    exact List.ne_nil_of_mem hmem

end Snapshot

end PgErdCloud.Diff
