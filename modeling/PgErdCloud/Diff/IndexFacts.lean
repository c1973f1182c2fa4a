/-
  What the index holds at a key: the columns, the primary key and the foreign keys of the rows
  whose object ids are resolved to that key. Each loop of `indexRows` is a loop of the
  dictionary library, which reduces it to the rows with one key.
-/
import PgErdCloud.Diff.Snapshot

namespace PgErdCloud.Diff

open Lib Lib.PyStr

variable {Oid : Type} (lookup : Option Oid → Option Str)

/-! ## Columns -/

/-- The table of a column row that is not skipped. -/
def columnTable (col : Column Oid) : Option Str :=
  col.columnName.bind fun _ => lookup col.relationOid

/-- A column is put under its name. -/
def setColumn (columns : Dict Str Col) (col : Column Oid) : Dict Str Col :=
  columns.set (col.columnName.getD []) ⟨col.dataType, col.isNotNull⟩

theorem indexColumn_eq :
    indexColumn lookup = Dict.modifyAt (columnTable lookup) fun (col : Column Oid) t =>
      { t with columns := setColumn t.columns col } := by
  funext tables col
  unfold indexColumn Dict.modifyAt columnTable setColumn
  cases hn : col.columnName with
  | none => cases lookup col.relationOid <;> simp
  | some name => cases lookup col.relationOid <;> simp [hn]

theorem foldl_columns (cols : List (Column Oid)) (t : Table) :
    cols.foldl (fun t col => { t with columns := setColumn t.columns col }) t =
      { t with columns := cols.foldl setColumn t.columns } := by
  induction cols generalizing t with
  | nil => rfl
  | cons col cols ih => exact ih _

/-! ## Primary keys -/

/-- The table of a primary key row that is not skipped. -/
def pkTable (pk : PkColumn Oid) : Option Str :=
  pk.columnName.bind fun _ => lookup pk.relationOid

/-- A key column is put behind the others, with its place in the key. -/
def addPkColumn (items : List (Int × Str)) (pk : PkColumn Oid) : List (Int × Str) :=
  items ++ [(pk.columnOrdinal.getD items.length, pk.columnName.getD [])]

theorem indexPkColumn_eq (tables : Dict Str Table) :
    indexPkColumn lookup tables = Dict.upsertAt
      (fun pk : PkColumn Oid => (pkTable lookup pk).filter (· ∈ tables.keys)) []
      fun pk items => addPkColumn items pk := by
  funext pkTmp pk
  unfold indexPkColumn Dict.upsertAt pkTable addPkColumn
  cases hn : pk.columnName with
  | none => cases lookup pk.relationOid <;> simp [hn]
  | some name =>
      cases hl : lookup pk.relationOid with
      | none => simp [hl, hn]
      | some table => by_cases h : table ∈ tables.keys <;> simp [hl, hn, h, Option.filter_some]

/-- The primary key at a key. -/
def pkAt (s : Snapshot Oid) (key : Str) : List Str :=
  (sortByOrdinal ((s.pkColumns.filter fun pk => pkTable lookup pk = some key).foldl
    addPkColumn [])).map Prod.snd

/-! ## Tables -/

theorem keys_tables (s : Snapshot Oid) :
    (indexRows lookup s).tables.keys = (relationTables s.relations).keys := by
  have hassign : assignPk = Dict.modifyAt (fun entry : Str × List (Int × Str) => some entry.1)
      fun entry t => { t with pk := (sortByOrdinal entry.2).map Prod.snd } := rfl
  simp only [indexRows, hassign, indexColumn_eq, Dict.keys_foldl_modifyAt]

/-- **The table at a key:** the entry of its relation with the columns and the primary key of
    the rows resolved to the key. -/
theorem get?_tables (s : Snapshot Oid) (key : Str) :
    (indexRows lookup s).tables.get? key =
      ((relationTables s.relations).get? key).map fun t =>
        { t with
          columns := (s.columns.filter fun col => columnTable lookup col = some key).foldl
            setColumn t.columns
          pk := if s.pkColumns.filter (fun pk => pkTable lookup pk = some key) = [] then t.pk
            else pkAt lookup s key } := by
  have hassign : assignPk = Dict.modifyAt (fun entry : Str × List (Int × Str) => some entry.1)
      fun entry t => { t with pk := (sortByOrdinal entry.2).map Prod.snd } := rfl
  simp only [indexRows, hassign, Dict.get?_foldl_modifyAt, indexColumn_eq, indexPkColumn_eq,
    Option.some.injEq, Dict.filter_items_key, Dict.get?_foldl_upsertAt, Dict.keys_foldl_modifyAt,
    foldl_columns]
  cases hrel : (relationTables s.relations).get? key with
  | none => rfl
  | some t =>
      have hmem : key ∈ (relationTables s.relations).keys := Dict.mem_keys_iff.mpr ⟨t, hrel⟩
      have hfilter : (s.pkColumns.filter fun pk =>
            (pkTable lookup pk).filter (· ∈ (relationTables s.relations).keys) = some key) =
          s.pkColumns.filter fun pk => pkTable lookup pk = some key := by
        apply List.filter_congr
        intro pk _
        cases pkTable lookup pk with
        | none => rfl
        | some table =>
            by_cases h : table = key
            · simp [h, hmem]
            · simp [Option.filter_some, h]
      rw [hfilter]
      by_cases hpk : s.pkColumns.filter (fun pk => pkTable lookup pk = some key) = []
      · simp [hpk]
      · simp [hpk, pkAt]

/-! ## Foreign keys -/

/-- The group of an edge whose ends are both resolved. -/
def fkGroup (edge : FkEdge Oid) : Option (Str × Str × Str) :=
  (lookup edge.childRelationOid).bind fun child =>
    (lookup edge.parentRelationOid).map fun parent =>
      (child, parent, edge.fkConstraintName.getD [])

/-- What a row of `fk_edges` says of one pair of columns. -/
def edgePart (edge : FkEdge Oid) : Int × Str × Str :=
  (edge.columnOrdinal.getD 0, edge.childColumnName.getD [], edge.parentColumnName.getD [])

theorem indexFkEdge_eq :
    indexFkEdge lookup = Dict.upsertAt (fkGroup lookup) []
      fun (edge : FkEdge Oid) parts => parts ++ [edgePart edge] := by
  funext fkParts edge
  unfold indexFkEdge Dict.upsertAt fkGroup edgePart
  cases lookup edge.childRelationOid <;> cases lookup edge.parentRelationOid <;> simp

/-- The edges of a group. -/
def groupEdges (s : Snapshot Oid) (group : Str × Str × Str) : List (FkEdge Oid) :=
  s.fkEdges.filter fun edge => fkGroup lookup edge = some group

/-- The foreign key that the index makes of a group. -/
def fkAt (s : Snapshot Oid) (group : Str × Str × Str) : Fk :=
  groupFk (group, (groupEdges lookup s group).map edgePart)

theorem foldl_append_singleton {α β : Type} (f : α → β) (xs : List α) (ys : List β) :
    xs.foldl (fun ys x => ys ++ [f x]) ys = ys ++ xs.map f := by
  induction xs generalizing ys with
  | nil => simp
  | cons x xs ih => simp [ih]

theorem mem_fkParts {s : Snapshot Oid} {group : Str × Str × Str}
    {parts : List (Int × Str × Str)} :
    (group, parts) ∈ (s.fkEdges.foldl (indexFkEdge lookup) .empty).items ↔
      groupEdges lookup s group ≠ [] ∧ parts = (groupEdges lookup s group).map edgePart := by
  rw [Dict.mem_items_iff, indexFkEdge_eq, Dict.get?_foldl_upsertAt]
  unfold groupEdges
  split_ifs with h
  · simp [h]
  · rw [Option.some.injEq, Dict.get?_empty, foldl_append_singleton]
    exact ⟨fun he => ⟨h, he.symm⟩, fun he => he.2.symm⟩

/-- Every entry is stored under its signature and comes from a group. -/
theorem get?_fks {s : Snapshot Oid} {signature : Str} {fk : Fk}
    (h : (indexRows lookup s).fks.get? signature = some fk) :
    fk.signature = signature ∧
      ∃ group, groupEdges lookup s group ≠ [] ∧ fk = fkAt lookup s group := by
  have hstored : ∃ entry ∈ (s.fkEdges.foldl (indexFkEdge lookup) .empty).items,
      (groupFk entry).signature = signature ∧ groupFk entry = fk :=
    Dict.exists_of_get?_foldl_set h
  obtain ⟨⟨group, parts⟩, hm, hsig, rfl⟩ := hstored
  obtain ⟨hne, rfl⟩ := (mem_fkParts lookup).mp hm
  exact ⟨hsig, group, hne, rfl⟩

/-- The signatures of the index are those of the groups. -/
theorem mem_keys_fks {s : Snapshot Oid} {signature : Str} :
    signature ∈ (indexRows lookup s).fks.keys ↔
      ∃ group, groupEdges lookup s group ≠ [] ∧ (fkAt lookup s group).signature = signature := by
  have hkeys := Dict.mem_keys_foldl_set (fun entry => (groupFk entry).signature) groupFk
    (s.fkEdges.foldl (indexFkEdge lookup) .empty).items .empty signature
  refine hkeys.trans ?_
  simp only [Dict.keys, Dict.empty, List.map_nil, List.not_mem_nil, false_or]
  constructor
  · rintro ⟨⟨group, parts⟩, hm, hsig⟩
    obtain ⟨hne, rfl⟩ := (mem_fkParts lookup).mp hm
    exact ⟨group, hne, hsig⟩
  · rintro ⟨group, hne, hsig⟩
    exact ⟨(group, _), (mem_fkParts lookup).mpr ⟨hne, rfl⟩, hsig⟩

/-! ## Keys and names -/

/-- The key of a table by its entry. -/
def Table.key (t : Table) : Str := tableKey (some t.schemaName) (some t.relationName)

theorem newTable_key (rel : Relation Oid) : (newTable rel).key = rel.key := by
  simp [Table.key, newTable, Relation.key, tableKey]

theorem get?_relationTables {relations : List (Relation Oid)} {key : Str} {t : Table}
    (h : (relationTables relations).get? key = some t) :
    ∃ rel ∈ relations, rel.key = key ∧ newTable rel = t :=
  Dict.exists_of_get?_foldl_set h

/-- A table is stored under its key. -/
theorem key_of_get?_tables {s : Snapshot Oid} {key : Str} {t : Table}
    (h : (indexRows lookup s).tables.get? key = some t) : t.key = key := by
  rw [get?_tables, Option.map_eq_some_iff] at h
  obtain ⟨t', ht', rfl⟩ := h
  obtain ⟨rel, -, rfl, rfl⟩ := get?_relationTables ht'
  exact newTable_key rel

/-- The columns of a table of the index are rows of the snapshot. -/
theorem get?_columns {s : Snapshot Oid} {key name : Str} {t : Table} {c : Col}
    (ht : (indexRows lookup s).tables.get? key = some t) (hc : t.columns.get? name = some c) :
    ∃ col ∈ s.columns, columnTable lookup col = some key ∧ col.columnName.getD [] = name ∧
      c = ⟨col.dataType, col.isNotNull⟩ := by
  rw [get?_tables, Option.map_eq_some_iff] at ht
  obtain ⟨t', ht', rfl⟩ := ht
  obtain ⟨rel, -, -, rfl⟩ := get?_relationTables ht'
  have hrow : ∃ col ∈ s.columns.filter fun col => columnTable lookup col = some key,
      col.columnName.getD [] = name ∧ (⟨col.dataType, col.isNotNull⟩ : Col) = c :=
    Dict.exists_of_get?_foldl_set hc
  obtain ⟨col, hm, hname, rfl⟩ := hrow
  rw [List.mem_filter, decide_eq_true_eq] at hm
  exact ⟨col, hm.1, hm.2, hname, rfl⟩

/-- Every table is stored under its key. -/
def Index.Keyed (i : Index) : Prop := ∀ key tbl, i.tables.get? key = some tbl → tbl.key = key

theorem keyed_indexSnapshot [DecidableEq Oid] (s : Snapshot Oid) : (indexSnapshot s).Keyed :=
  fun _ _ h => key_of_get?_tables _ h

end PgErdCloud.Diff
