/-
  The keys of a Snowflake snapshot and their export. The introspector turns the columns of a key
  into positions, by the column rows of the table, and drops a column that has none; the exporter
  turns the positions back into columns. A key keeps its columns exactly when that way leads from
  each of them back to itself.

  `snapshotKeys_iff` is about all rows for which there is a snapshot.
-/
import PgErdCloud.Ddl.MigrationContainment
import PgErdCloud.Snowflake.Introspect

namespace PgErdCloud.Snowflake

open Lib Lib.PyStr Ddl
open Mysql (stripNul)

/-! ## The snapshot that the exporter reads -/

/-- The row as the exporter reads it. -/
def Column.toExport (col : Column) : ExportColumn where
  relationOid := some col.relationOid
  columnPosition := some col.columnPosition
  columnName := some col.columnName
  type := ⟨some col.dataType, none, false⟩
  hasDefault := col.hasDefault
  defaultExpr := col.defaultExpr
  isNotNull := col.isNotNull

/-- The row as the exporter reads it. -/
def Constraint.toExport (con : Constraint) : ExportConstraint where
  relationOid := some con.relationOid
  schemaName := some con.schemaName
  relationName := some con.relationName
  constraintName := some con.constraintName
  constraintType := some con.constraintType
  constraintDef := some con.constraintDef
  constrainedAttnums := some (con.constrainedAttnums.map some)

/-- A primary key or a unique constraint. -/
def Constraint.IsKey (con : Constraint) : Prop :=
  con.constraintType = "p".toList ∨ con.constraintType = "u".toList

instance (con : Constraint) : Decidable con.IsKey := inferInstanceAs (Decidable (_ ∨ _))

/-- The text of a key on the columns. -/
def keyText (con : Constraint) (columns : List Str) : Str :=
  piecesText
    (TableDef.keyConstraint con.constraintName (con.constraintType = "p".toList) columns).pieces

/-- The key lists the positions of its columns, in their order, and is exported as a key on
    them. -/
structure KeepsColumns (s : Snapshot) (con : Constraint) (columns : List Str) : Prop where
  aligned : List.Forall₂
    (fun attnum column => ∃ col ∈ s.columns, col.relationOid = con.relationOid ∧
      col.columnPosition = attnum ∧ col.columnName = stripNul column)
    con.constrainedAttnums columns
  exported : (renderTableConstraintSnowflake (s.columns.map Column.toExport) con.toExport).map
    (fun d => piecesText d.pieces) = some (keyText con (columns.map stripNul))

/-- The constraint has the name and the table of the group. -/
def GroupKey.Names (key : GroupKey) (con : Constraint) : Prop :=
  con.constraintName = stripNul key.name ∧ con.schemaName = stripNul key.table.1 ∧
    con.relationName = stripNul key.table.2

variable (unicode : Unicode) (digits : Digits)

/-! ## The rows -/

/-- The columns that a group of rows names, in the order of their positions. -/
def groupColumns (groupRows : List ConstraintRow) : Option (List Str) :=
  (sortedRows digits groupRows).map fun rows => rows.filterMap ConstraintRow.columnName

/-- The groups of the rows whose table is known. -/
def knownGroups (tableRows : List TableRow) (constraintRows : List ConstraintRow) :
    List (GroupKey × List ConstraintRow) :=
  (groupConstraintRows unicode constraintRows).items.filter fun group =>
    decide (group.1.table ∈ tableRows.map TableRow.key)

/-- The name and the position of a column that has both. -/
def ColumnRow.entry (row : ColumnRow) : Option (Str × Int) :=
  match strOrNone row.columnName, intOrNone digits row.ordinalPosition with
  | some name, some (some position) => some (name, position)
  | _, _ => none

/-- The columns of a table with their places. -/
def tableEntries (table : TableKey) (columnRows : List ColumnRow) : List (Str × Int) :=
  (columnRows.filter fun row => row.key = table).filterMap (ColumnRow.entry digits)

/-- The position of a column; of two rows the later counts. -/
def positionOf (entries : List (Str × Int)) (column : Str) : Option Int :=
  ((entries.filter fun e => e.1 = column).getLast?).map Prod.snd

/-- The column at a position; of two rows the later counts. -/
def columnAt (entries : List (Str × Int)) (position : Int) : Option Str :=
  ((entries.filter fun e => e.2 = position).getLast?).map fun e => stripNul e.1

/-- The rows lead from the column to its position, and from there back to it. -/
def Placed (entries : List (Str × Int)) (column : Str) : Prop :=
  (positionOf entries column).bind (columnAt entries) = some (stripNul column)

instance (entries : List (Str × Int)) (column : Str) : Decidable (Placed entries column) :=
  inferInstanceAs (Decidable (_ = _))

/-- The constraint keeps the columns that its rows name. -/
def KeyKept (s : Snapshot) (group : GroupKey × List ConstraintRow) (con : Constraint) : Prop :=
  ∃ columns, groupColumns digits group.2 = some columns ∧ KeepsColumns s con columns

/-- The column rows lead from each column that the rows of the constraint name back to it. -/
def KeyPlaced (columnRows : List ColumnRow) (group : GroupKey × List ConstraintRow) : Prop :=
  ∃ columns, groupColumns digits group.2 = some columns ∧
    ∀ column ∈ columns, Placed (tableEntries digits group.1.table columnRows) column

/-! ## Columns and positions -/

section
variable {unicode digits} {ids : Dict TableKey Nat}

/-- What a row becomes. -/
theorem newColumn_spec {row : ColumnRow} {out : Option Column}
    (h : newColumn unicode digits ids row = some out) :
    (∀ oid, ids.get? row.key = some oid →
      (out.map fun col => (col.columnName, col.columnPosition)) = row.entry digits) ∧
    ∀ col ∈ out, col.key = row.key ∧ ids.get? row.key = some col.relationOid := by
  rw [newColumn] at h
  cases hid : ids.get? row.key with
  | none =>
      rw [hid] at h
      obtain rfl := Option.some.inj h
      exact ⟨nofun, nofun⟩
  | some oid =>
      simp only [hid] at h
      obtain ⟨position, hposition, h⟩ := Option.bind_eq_some_iff.mp h
      rw [ColumnRow.entry, hposition]
      cases hname : strOrNone row.columnName with
      | none =>
          rw [hname] at h
          obtain rfl := Option.some.inj h
          exact ⟨fun _ _ => rfl, nofun⟩
      | some name =>
          rw [hname] at h
          cases position with
          | none =>
              obtain rfl := Option.some.inj h
              exact ⟨fun _ _ => rfl, nofun⟩
          | some position =>
              obtain ⟨dataType, -, h⟩ := Option.bind_eq_some_iff.mp h
              obtain rfl := Option.some.inj h
              refine ⟨fun _ _ => rfl, ?_⟩
              rintro col ⟨⟩
              exact ⟨rfl, rfl⟩

/-- The columns of a known table, and that every column is of one. -/
theorem reduceOption_newColumns {rows : List ColumnRow} {outs : List (Option Column)}
    (h : rows.mapM (newColumn unicode digits ids) = some outs) :
    (∀ table oid, ids.get? table = some oid →
      ((outs.reduceOption.filter fun col => col.key = table).map fun col =>
        (col.columnName, col.columnPosition)) = tableEntries digits table rows) ∧
    ∀ col ∈ outs.reduceOption, ids.get? col.key = some col.relationOid := by
  induction rows generalizing outs with
  | nil =>
      rw [List.mapM_nil] at h
      obtain rfl := Option.some.inj h
      exact ⟨fun _ _ _ => rfl, nofun⟩
  | cons row rows ih =>
      rw [List.mapM_cons] at h
      obtain ⟨out, hout, h⟩ := Option.bind_eq_some_iff.mp h
      obtain ⟨outs, hrest, h⟩ := Option.bind_eq_some_iff.mp h
      obtain rfl := Option.some.inj h
      obtain ⟨hentries, hids⟩ := ih hrest
      obtain ⟨hentry, hcol⟩ := newColumn_spec hout
      constructor
      · intro table oid htable
        have ih := hentries table oid htable
        cases out with
        | none =>
            rw [List.reduceOption_cons_of_none, ih, tableEntries, tableEntries]
            by_cases hkey : row.key = table
            · have hnone := hentry oid (hkey ▸ htable)
              rw [List.filter_cons_of_pos (by simpa using hkey),
                List.filterMap_cons_none hnone.symm]
            · rw [List.filter_cons_of_neg (by simpa using hkey)]
        | some col =>
            obtain ⟨hk, -⟩ := hcol col rfl
            rw [List.reduceOption_cons_of_some, tableEntries]
            by_cases hkey : row.key = table
            · have hsome := hentry oid (hkey ▸ htable)
              rw [List.filter_cons_of_pos (by simpa [hk] using hkey), List.map_cons, ih,
                List.filter_cons_of_pos (by simpa using hkey),
                List.filterMap_cons_some hsome.symm]
              rfl
            · rw [List.filter_cons_of_neg (by simpa [hk] using hkey), ih,
                List.filter_cons_of_neg (by simpa using hkey)]
              rfl
      · cases out with
        | none => exact hids
        | some col =>
            obtain ⟨hk, hid⟩ := hcol col rfl
            rw [List.reduceOption_cons_of_some, List.forall_mem_cons]
            exact ⟨hk ▸ hid, hids⟩

theorem buildColumns_spec {rows : List ColumnRow} {columns : List Column}
    (h : buildColumns unicode digits ids rows = some columns) :
    (∀ table oid, ids.get? table = some oid →
      ((columns.filter fun col => col.key = table).map fun col =>
        (col.columnName, col.columnPosition)) = tableEntries digits table rows) ∧
    ∀ col ∈ columns, ids.get? col.key = some col.relationOid := by
  obtain ⟨outs, houts, h⟩ := Option.bind_eq_some_iff.mp h
  obtain rfl := Option.some.inj h
  exact reduceOption_newColumns houts

/-- The introspector's positions are those of the entries. -/
theorem get?_columnPositions (columns : List Column) (table : TableKey) (column : Str) :
    (((columnPositions columns).get? table).getD .empty).get? column =
      positionOf ((columns.filter fun col => col.key = table).map fun col =>
        (col.columnName, col.columnPosition)) column := by
  have hget : ((columnPositions columns).get? table).getD .empty =
      (columns.filter fun col => col.key = table).foldl
        (fun positions col => positions.set col.columnName col.columnPosition) .empty := by
    rw [columnPositions, Dict.get?_foldl_upsertAt]
    simp only [Option.some.injEq]
    by_cases hnil : (columns.filter fun col => col.key = table) = []
    · rw [if_pos hnil, hnil]
      rfl
    · rw [if_neg hnil]
      rfl
  rw [hget, Dict.get?_foldl_set_getLast?, positionOf, List.filter_map, List.getLast?_map,
    Option.map_map]
  rfl

end

/-! ## Tables -/

/-- Distinct tables have distinct numbers. -/
theorem relationIds_injective {keys : List TableKey} {table table' : TableKey} {oid : Nat}
    (h : (relationIds keys).get? table = some oid)
    (h' : (relationIds keys).get? table' = some oid) :
    table = table' := by
  obtain ⟨x, hx, rfl, rfl⟩ := Dict.exists_of_get?_foldl_set h
  obtain ⟨y, hy, rfl, he⟩ := Dict.exists_of_get?_foldl_set h'
  rw [List.mem_zipIdx_iff_le_and_getElem?_sub] at hx hy
  rw [he] at hy
  exact Option.some.inj (hx.2.symm.trans hy.2)

theorem exists_get?_relationIds {tableRows : List TableRow} {table : TableKey} :
    (∃ oid, (relationIds (relationKeys tableRows)).get? table = some oid) ↔
      table ∈ tableRows.map TableRow.key := by
  have hmem : table ∈ relationKeys tableRows ↔ table ∈ tableRows.map TableRow.key := by
    rw [relationKeys, Mysql.sortedBy, List.mem_insertionSort, List.mem_dedup]
  rw [← hmem, ← Dict.mem_keys_iff, relationIds, Dict.mem_keys_foldl_set]
  constructor
  · rintro (h | ⟨x, hx, rfl⟩)
    · exact absurd h List.not_mem_nil
    · exact List.fst_mem_of_mem_zipIdx hx
  · intro h
    obtain ⟨i, hi⟩ := List.mem_iff_getElem?.mp h
    exact .inr ⟨(table, 1 + i), List.mk_add_mem_zipIdx_iff_getElem?.mpr hi, rfl⟩

/-! ## Groups -/

/-- What a constraint takes from the group that it is built of. -/
structure BuiltFrom (ids : Dict TableKey Nat) (positions : Dict TableKey (Dict Str Int))
    (group : GroupKey × List ConstraintRow) (con : Constraint) : Prop where
  name : con.constraintName = group.1.name
  table : (con.schemaName, con.relationName) = group.1.table
  oid : ids.get? group.1.table = some con.relationOid
  type : con.IsKey ∨ con.constraintType = "f".toList
  columns : ∃ columns, groupColumns digits group.2 = some columns ∧
    con.constrainedAttnums =
      columns.filterMap ((positions.get? group.1.table).getD .empty).get? ∧
    (con.IsKey → con.constraintDef = constraintDef con.constraintType columns none none [])

section
variable {unicode digits} {ids : Dict TableKey Nat} {positions : Dict TableKey (Dict Str Int)}

theorem constraintType_cases {value : Option Str} {ctype : Str}
    (h : constraintType unicode value = some ctype) :
    ctype = "p".toList ∨ ctype = "u".toList ∨ ctype = "f".toList := by
  unfold constraintType at h
  dsimp only at h
  split_ifs at h
  · exact .inl (Option.some.inj h).symm
  · exact .inr (.inl (Option.some.inj h).symm)
  · exact .inr (.inr (Option.some.inj h).symm)

theorem map_snd_of_mapM {α β : Type} {f : α → Option β} {xs : List α} {keyed : List (β × α)}
    (h : xs.mapM (fun x => do return (← f x, x)) = some keyed) : keyed.map Prod.snd = xs := by
  induction xs generalizing keyed with
  | nil =>
      rw [List.mapM_nil] at h
      obtain rfl := Option.some.inj h
      rfl
  | cons x xs ih =>
      rw [List.mapM_cons] at h
      obtain ⟨first, hfirst, hkeyed⟩ := Option.bind_eq_some_iff.mp h
      obtain ⟨rest, hrest, hkeyed⟩ := Option.bind_eq_some_iff.mp hkeyed
      obtain rfl := Option.some.inj hkeyed
      obtain ⟨y, -, hfirst⟩ := Option.bind_eq_some_iff.mp hfirst
      obtain rfl := Option.some.inj hfirst
      rw [List.map_cons, ih hrest]

theorem perm_sortedRows {groupRows rows : List ConstraintRow}
    (h : sortedRows digits groupRows = some rows) : rows.Perm groupRows := by
  obtain ⟨keyed, hkeyed, hrows⟩ := Option.bind_eq_some_iff.mp h
  obtain rfl := Option.some.inj hrows
  exact map_snd_of_mapM hkeyed ▸ (List.perm_insertionSort _ keyed).map Prod.snd

/-- A group of rows with types becomes a constraint if its table is known, and nothing
    otherwise. -/
theorem processConstraintGroup_spec {group : GroupKey × List ConstraintRow} {constraintOid : Nat}
    {out : Option Constraint × List PkColumn × List FkEdge} (hne : group.2 ≠ [])
    (htype : ∀ row ∈ group.2, ∃ ctype, constraintType unicode row.constraintType = some ctype)
    (h : processConstraintGroup unicode digits group.1 group.2 ids positions constraintOid =
      some out) :
    (ids.get? group.1.table = none ∧ out.1 = none) ∨
      ∃ con, out.1 = some con ∧ BuiltFrom digits ids positions group con := by
  obtain ⟨rows, hrows, h⟩ := Option.bind_eq_some_iff.mp h
  have hperm := perm_sortedRows hrows
  obtain ⟨row, rest, rfl⟩ := List.exists_cons_of_ne_nil fun hnil =>
    hne (List.nil_perm.mp (hnil ▸ hperm))
  obtain ⟨ctype, hctype⟩ := htype row (hperm.subset List.mem_cons_self)
  have hcolumns : groupColumns digits group.2 =
      some ((row :: rest).filterMap ConstraintRow.columnName) := by
    rw [groupColumns, hrows, Option.map_some]
  dsimp only [List.head?_cons, Option.bind_some] at h
  rw [hctype] at h
  cases hid : ids.get? group.1.table with
  | none =>
      rw [hid] at h
      exact .inl ⟨rfl, congrArg Prod.fst (Option.some.inj h).symm⟩
  | some oid =>
      rw [hid] at h
      dsimp only at h
      refine .inr ?_
      obtain rfl | rfl | rfl := constraintType_cases hctype
      · rw [if_pos rfl] at h
        obtain rfl := Option.some.inj h
        exact ⟨_, rfl, rfl, rfl, hid, .inl (.inl rfl), _, hcolumns, rfl, fun _ => rfl⟩
      · rw [if_neg (by decide), if_pos rfl] at h
        obtain rfl := Option.some.inj h
        exact ⟨_, rfl, rfl, rfl, hid, .inl (.inr rfl), _, hcolumns, rfl, fun _ => rfl⟩
      · rw [if_neg (by decide), if_neg (by decide), if_pos rfl] at h
        obtain rfl := Option.some.inj h
        refine ⟨_, rfl, rfl, rfl, hid, .inr rfl, _, hcolumns, rfl, ?_⟩
        rintro (hp | hu)
        · exact absurd hp (show "f".toList ≠ "p".toList by decide)
        · exact absurd hu (show "f".toList ≠ "u".toList by decide)

/-- One round of the loop over the groups. -/
theorem addGroup_spec {keys keys' : Keys} {group : GroupKey × List ConstraintRow}
    (hne : group.2 ≠ [])
    (htype : ∀ row ∈ group.2, ∃ ctype, constraintType unicode row.constraintType = some ctype)
    (h : addGroup unicode digits ids positions keys group = some keys') :
    (ids.get? group.1.table = none ∧ keys' = keys) ∨
      ∃ con, keys'.constraints = keys.constraints ++ [con] ∧
        BuiltFrom digits ids positions group con := by
  obtain ⟨⟨con, pkColumns, fkEdges⟩, hout, h⟩ := Option.bind_eq_some_iff.mp h
  obtain ⟨hid, rfl⟩ | ⟨con, rfl, hbuilt⟩ := processConstraintGroup_spec hne htype hout
  · exact .inl ⟨hid, (Option.some.inj h).symm⟩
  · exact .inr ⟨con, congrArg Keys.constraints (Option.some.inj h).symm, hbuilt⟩

/-- The constraints are those of the groups of known tables, in their order. -/
theorem foldlM_addGroup {groups done : List (GroupKey × List ConstraintRow)} {keys keys' : Keys}
    (hgroups : ∀ group ∈ groups, group.2 ≠ [] ∧
      ∀ row ∈ group.2, ∃ ctype, constraintType unicode row.constraintType = some ctype)
    (hdone : List.Forall₂ (BuiltFrom digits ids positions) done keys.constraints)
    (h : groups.foldlM (addGroup unicode digits ids positions) keys = some keys') :
    List.Forall₂ (BuiltFrom digits ids positions)
      (done ++ groups.filter fun group => (ids.get? group.1.table).isSome) keys'.constraints := by
  induction groups generalizing done keys with
  | nil =>
      obtain rfl := Option.some.inj h
      rwa [List.filter_nil, List.append_nil]
  | cons group groups ih =>
      rw [List.forall_mem_cons] at hgroups
      rw [List.foldlM_cons] at h
      obtain ⟨next, hnext, hrest⟩ := Option.bind_eq_some_iff.mp h
      obtain ⟨hid, rfl⟩ | ⟨con, hcons, hbuilt⟩ :=
        addGroup_spec hgroups.1.1 hgroups.1.2 hnext
      · rw [List.filter_cons_of_neg (by rw [hid]; exact Bool.false_ne_true)]
        exact ih hgroups.2 hdone hrest
      · rw [List.filter_cons_of_pos (by rw [hbuilt.oid]; rfl), List.append_cons]
        refine ih hgroups.2 ?_ hrest
        rw [hcons]
        exact List.rel_append hdone (.cons hbuilt .nil)

end

/-! ## There and back -/

section
variable {f : Str → Option Int} {g : Int → Option Str} {columns : List Str}

theorem forall₂_filterMap_iff {R : Int → Str → Prop} (hf : ∀ c ∈ columns, ∃ p, f c = some p) :
    List.Forall₂ R (columns.filterMap f) columns ↔ ∀ c ∈ columns, ∀ p, f c = some p → R p c := by
  induction columns with
  | nil => exact ⟨fun _ => nofun, fun _ => .nil⟩
  | cons c columns ih =>
      rw [List.forall_mem_cons] at hf ⊢
      obtain ⟨⟨p, hp⟩, hf⟩ := hf
      rw [List.filterMap_cons_some hp, List.forall₂_cons, ih hf, hp]
      simp only [Option.some.injEq, forall_eq']

/-- All the positions are found, and the way back gives as many columns. They are the columns
    themselves exactly when the way leads from each to itself. -/
theorem exists_mapM_filterMap (name : Str → Str) (hf : ∀ c ∈ columns, ∃ p, f c = some p)
    (hg : ∀ c ∈ columns, ∀ p, f c = some p → ∃ s, g p = some s) :
    ∃ names, (columns.filterMap f).mapM g = some names ∧ names.length = columns.length ∧
      (names = columns.map name ↔ ∀ c ∈ columns, (f c).bind g = some (name c)) := by
  induction columns with
  | nil => exact ⟨[], rfl, rfl, fun _ => nofun, fun _ => rfl⟩
  | cons c columns ih =>
      rw [List.forall_mem_cons] at hf hg
      obtain ⟨⟨p, hp⟩, hf⟩ := hf
      obtain ⟨s, hs⟩ := hg.1 p hp
      obtain ⟨names, hnames, hlength, hiff⟩ := ih hf hg.2
      refine ⟨s :: names, ?_, by rw [List.length_cons, hlength, List.length_cons], ?_⟩
      · rw [List.filterMap_cons_some hp, List.mapM_cons, hs, hnames]
        rfl
      · rw [List.map_cons, List.cons.injEq, hiff, List.forall_mem_cons, hp, Option.bind_some, hs,
          Option.some.injEq]

theorem mem_of_positionOf {entries : List (Str × Int)} {column : Str} {position : Int}
    (h : positionOf entries column = some position) : (column, position) ∈ entries := by
  obtain ⟨e, he, rfl⟩ := Option.map_eq_some_iff.mp h
  obtain ⟨hmem, hname⟩ := List.mem_filter.mp (List.mem_of_getLast? he)
  exact of_decide_eq_true hname ▸ hmem

theorem exists_columnAt {entries : List (Str × Int)} {e : Str × Int} (h : e ∈ entries) :
    ∃ column, columnAt entries e.2 = some column := by
  have hmem : e ∈ entries.filter fun e' => e'.2 = e.2 := List.mem_filter.mpr ⟨h, by simp⟩
  rw [columnAt, List.getLast?_eq_getLast_of_ne_nil (List.ne_nil_of_mem hmem)]
  exact ⟨_, rfl⟩

end

/-! ## The export -/

/-- The exporter finds the columns at the positions. -/
theorem constraintColumnNames_toExport (cols : List Column) (con : Constraint) :
    constraintColumnNames (cols.map Column.toExport) con.toExport =
      (con.constrainedAttnums.mapM fun attnum =>
        (((cols.filter fun col => col.relationOid = con.relationOid).filter fun col =>
          col.columnPosition = attnum).getLast?).map Column.columnName).getD [] := by
  have hgroup : groupByRelation ExportColumn.relationOid (cols.map Column.toExport)
      con.relationOid = (cols.filter fun col => col.relationOid = con.relationOid).map
        Column.toExport := by
    rw [groupByRelation, List.filter_map]
    congr 1
    refine List.filter_congr fun col _ => ?_
    simp [Column.toExport]
  unfold constraintColumnNames
  dsimp only [Constraint.toExport]
  rw [hgroup, List.foldl_map, List.mapM_map]
  dsimp only [Column.toExport]
  simp only [Function.comp_def, Option.bind_some, Dict.get?_foldl_set_getLast?]

theorem render_toExport (cols : List ExportColumn) {con : Constraint} (h : con.IsKey) :
    renderTableConstraintSnowflake cols con.toExport =
      match constraintColumnNames cols con.toExport with
      | [] => some (.constraint con.constraintName con.constraintDef)
      | names =>
          some (.keyConstraint con.constraintName (con.constraintType = "p".toList) names) := by
  have htype : con.toExport.constraintType = some "p".toList ∨
      con.toExport.constraintType = some "u".toList :=
    h.imp (congrArg some) (congrArg some)
  have hprimary : decide (con.toExport.constraintType = some "p".toList) =
      decide (con.constraintType = "p".toList) := decide_eq_decide.mpr Option.some_inj
  unfold renderTableConstraintSnowflake
  rw [show con.toExport.defined = some (con.constraintName, con.constraintDef) from rfl,
    Option.bind_some]
  dsimp only
  rw [if_pos htype]
  cases constraintColumnNames cols con.toExport with
  | nil => rfl
  | cons name names =>
      exact congrArg
        (fun isPrimary =>
          some (TableDef.keyConstraint con.constraintName isPrimary (name :: names)))
        hprimary

/-- A quoted name at the front, from behind its opening quote, and the rest. -/
def readName : Str → Option (Str × Str)
  | [] => none
  | c :: s =>
      if c = '"' then
        match s with
        | [] => some ([], [])
        | d :: rest =>
            if d = '"' then (readName rest).map fun read => ('"' :: read.1, read.2)
            else some ([], s)
      else (readName s).map fun read => (c :: read.1, read.2)

theorem readName_replaceChar (name : Str) {rest : Str} (hrest : rest.head? ≠ some '"') :
    readName (replaceChar '"' "\"\"".toList name ++ '"' :: rest) = some (name, rest) := by
  induction name with
  | nil =>
      cases rest with
      | nil => rfl
      | cons d rest =>
          have hd : d ≠ '"' := fun he => hrest (congrArg some he)
          show readName ('"' :: d :: rest) = _
          rw [readName.eq_def]
          simp only [if_true, if_neg hd]
  | cons c name ih =>
      have hcons : replaceChar '"' "\"\"".toList (c :: name) =
          (if c = '"' then "\"\"".toList else [c]) ++ replaceChar '"' "\"\"".toList name := rfl
      rw [hcons]
      by_cases h : c = '"'
      · subst h
        show (readName (replaceChar '"' "\"\"".toList name ++ '"' :: rest)).map _ = _
        rw [ih]
        rfl
      · rw [if_neg h]
        show readName (c :: (replaceChar '"' "\"\"".toList name ++ '"' :: rest)) = _
        rw [readName.eq_def]
        simp only [if_neg h, ih, Option.map_some]

/-- A quoted name ends at its last quote. -/
theorem q_append_inj {name name' rest rest' : Str} (hrest : rest.head? ≠ some '"')
    (hrest' : rest'.head? ≠ some '"') (h : q name ++ rest = q name' ++ rest') :
    name = name' ∧ rest = rest' := by
  simp only [q, List.cons_append, List.cons.injEq, true_and, List.append_assoc,
    List.nil_append] at h
  have hread := congrArg readName h
  rw [readName_replaceChar name hrest, readName_replaceChar name' hrest'] at hread
  exact Prod.mk.inj (Option.some.inj hread)

/-- Behind the first name each one follows a comma. -/
theorem quotedList_cons (name : Str) (names : List Str) :
    quotedList (name :: names) = q name ++ names.flatMap fun name => ", ".toList ++ q name := by
  induction names generalizing name with
  | nil => simp [quotedList, join]
  | cons next names ih =>
      have hnext := ih next
      rw [quotedList, join, List.map_cons] at hnext
      rw [quotedList, join, List.map_cons, List.map_cons, List.intercalate_cons_cons, hnext,
        List.flatMap_cons, List.append_assoc, List.append_assoc]

theorem quotedList_injective : Function.Injective quotedList := by
  have hhead : ∀ names : List Str,
      (names.flatMap fun name => ", ".toList ++ q name).head? ≠ some '"' := by
    intro names
    cases names with
    | nil => exact nofun
    | cons name names => exact fun he => absurd (Option.some.inj he) (by decide)
  have htail : ∀ names names' : List Str,
      (names.flatMap fun name => ", ".toList ++ q name) =
        (names'.flatMap fun name => ", ".toList ++ q name) → names = names' := by
    intro names
    induction names with
    | nil =>
        intro names' h
        cases names' with
        | nil => rfl
        | cons name names' => exact absurd h nofun
    | cons name names ih =>
        intro names' h
        cases names' with
        | nil => exact absurd h nofun
        | cons name' names' =>
            rw [List.flatMap_cons, List.flatMap_cons, List.append_assoc, List.append_assoc] at h
            obtain ⟨hname, hrest⟩ :=
              q_append_inj (hhead names) (hhead names') (List.append_cancel_left h)
            rw [hname, ih names' hrest]
  intro names names' h
  cases names with
  | nil =>
      cases names' with
      | nil => rfl
      | cons name names' =>
          rw [quotedList_cons] at h
          exact absurd h nofun
  | cons name names =>
      cases names' with
      | nil =>
          rw [quotedList_cons] at h
          exact absurd h nofun
      | cons name' names' =>
          rw [quotedList_cons, quotedList_cons] at h
          obtain ⟨hname, hrest⟩ := q_append_inj (hhead names) (hhead names') h
          rw [hname, htail names names' hrest]

theorem keyText_eq (con : Constraint) (names : List Str) :
    keyText con names = "CONSTRAINT ".toList ++ (q con.constraintName ++
      ((if con.constraintType = "p".toList then " PRIMARY KEY (" else " UNIQUE (").toList ++
        (quotedList names ++ ")".toList))) := by
  unfold keyText TableDef.pieces
  simp [piecesText_append, piecesText_namePieces, sql, Piece.text]

theorem keyText_injective (con : Constraint) {names names' : List Str}
    (h : keyText con names = keyText con names') : names = names' := by
  rw [keyText_eq, keyText_eq] at h
  exact quotedList_injective (List.append_cancel_right (List.append_cancel_left
    (List.append_cancel_left (List.append_cancel_left h))))

/-- Without columns the definition is written as it is, which is the same text. -/
theorem keyText_nil {con : Constraint} (h : con.IsKey)
    (hdef : con.constraintDef = constraintDef con.constraintType [] none none []) :
    piecesText (TableDef.constraint con.constraintName con.constraintDef).pieces =
      keyText con [] := by
  rw [keyText_eq, hdef]
  obtain hp | hu := h
  · rw [hp]
    simp [constraintDef, TableDef.pieces, sql, Piece.text, quotedList, join]
  · rw [hu]
    simp [constraintDef, TableDef.pieces, sql, Piece.text, quotedList, join]

/-! ## Keys and their columns -/

section
variable {unicode digits}

/-- A key of the snapshot was one before the `NUL`s were stripped, and has the same type. -/
theorem BuiltFrom.isKey {ids : Dict TableKey Nat} {positions : Dict TableKey (Dict Str Int)}
    {group : GroupKey × List ConstraintRow} {con : Constraint}
    (h : BuiltFrom digits ids positions group con) (hkey : con.sanitize.IsKey) :
    con.IsKey ∧ con.sanitize.constraintType = con.constraintType := by
  have htype : con.sanitize.constraintType = stripNul con.constraintType := rfl
  obtain (hp | hu) | hf := h.type
  · exact ⟨.inl hp, by rw [htype, hp]; decide⟩
  · exact ⟨.inr hu, by rw [htype, hu]; decide⟩
  · rw [Constraint.IsKey, htype, hf] at hkey
    exact absurd hkey (by decide)

theorem keepsColumns_iff {tableRows : List TableRow} {columnRows : List ColumnRow}
    {cols : List Column} {s : Snapshot} {group : GroupKey × List ConstraintRow} {con : Constraint}
    {columns : List Str}
    (hcols : buildColumns unicode digits (relationIds (relationKeys tableRows)) columnRows =
      some cols)
    (hs : s.columns = cols.map Column.sanitize)
    (hbuilt : BuiltFrom digits (relationIds (relationKeys tableRows)) (columnPositions cols) group
      con)
    (hcolumns : groupColumns digits group.2 = some columns) (hkey : con.sanitize.IsKey) :
    KeepsColumns s con.sanitize columns ↔
      ∀ column ∈ columns, Placed (tableEntries digits group.1.table columnRows) column := by
  obtain ⟨hentries, hids⟩ := buildColumns_spec hcols
  obtain ⟨columns', hcolumns', hattnums, hdef⟩ := hbuilt.columns
  obtain rfl : columns = columns' := Option.some.inj (hcolumns.symm.trans hcolumns')
  obtain ⟨hkey', htype⟩ := hbuilt.isKey hkey
  have htable := hentries group.1.table _ hbuilt.oid
  generalize hE : tableEntries digits group.1.table columnRows = entries at htable ⊢
  have hpos : con.constrainedAttnums = columns.filterMap (positionOf entries) := by
    rw [hattnums]
    congr 1
    funext column
    rw [get?_columnPositions, htable]
  have hof : (cols.filter fun col => col.relationOid = con.relationOid) =
      cols.filter fun col => col.key = group.1.table := by
    refine List.filter_congr fun col hm => decide_eq_decide.mpr ⟨fun he => ?_, fun he => ?_⟩
    · exact relationIds_injective (hids col hm) (he ▸ hbuilt.oid)
    · exact Option.some.inj ((hids col hm).symm.trans (he ▸ hbuilt.oid))
  have hnames : constraintColumnNames (s.columns.map Column.toExport) con.sanitize.toExport =
      ((columns.filterMap (positionOf entries)).mapM (columnAt entries)).getD [] := by
    rw [constraintColumnNames_toExport, ← hpos]
    congr 2
    funext attnum
    rw [hs, columnAt, ← htable, ← hof]
    simp only [List.filter_map, List.getLast?_map, Option.map_map]
    rfl
  have haligned : List.Forall₂
      (fun attnum column => ∃ col ∈ s.columns, col.relationOid = con.sanitize.relationOid ∧
        col.columnPosition = attnum ∧ col.columnName = stripNul column)
      con.sanitize.constrainedAttnums columns ↔
        ∀ column ∈ columns, ∃ p, positionOf entries column = some p := by
    rw [show con.sanitize.constrainedAttnums = con.constrainedAttnums from rfl, hpos]
    constructor
    · intro h column hm
      exact Option.isSome_iff_exists.mp (List.filterMap_length_eq_length.mp h.length_eq column hm)
    · intro h
      refine (forall₂_filterMap_iff h).mpr fun column _ p hp => ?_
      have hmem := mem_of_positionOf hp
      rw [← htable, ← hof] at hmem
      obtain ⟨col, hcol, he⟩ := List.mem_map.mp hmem
      obtain ⟨hcol, hoid⟩ := List.mem_filter.mp hcol
      obtain ⟨hname, hposition⟩ := Prod.mk.inj he
      refine ⟨col.sanitize, hs ▸ List.mem_map_of_mem hcol, of_decide_eq_true hoid, hposition, ?_⟩
      exact congrArg stripNul hname
  have hexported : ∀ names, ((columns.filterMap (positionOf entries)).mapM (columnAt entries)) =
      some names → names.length = columns.length →
      ((renderTableConstraintSnowflake (s.columns.map Column.toExport) con.sanitize.toExport).map
        (fun d => piecesText d.pieces) = some (keyText con.sanitize (columns.map stripNul)) ↔
        names = columns.map stripNul) := by
    intro names hmapM hlength
    rw [render_toExport _ hkey, hnames, hmapM, Option.getD_some]
    cases names with
    | nil =>
        obtain rfl := List.eq_nil_of_length_eq_zero hlength.symm
        have hdef' : con.sanitize.constraintDef =
            constraintDef con.sanitize.constraintType [] none none [] := by
          rw [htype, show con.sanitize.constraintDef = stripNul con.constraintDef from rfl,
            hdef hkey']
          obtain hp | hu := hkey'
          · rw [hp]
            decide
          · rw [hu]
            decide
        exact ⟨fun _ => rfl, fun _ => congrArg some (keyText_nil hkey hdef')⟩
    | cons name names =>
        rw [Option.map_some, Option.some_inj]
        exact ⟨keyText_injective con.sanitize, fun he => congrArg (keyText con.sanitize) he⟩
  have hfound : ∀ column ∈ columns, ∀ p, positionOf entries column = some p →
      ∃ name, columnAt entries p = some name :=
    fun _ _ _ hp => exists_columnAt (mem_of_positionOf hp)
  constructor
  · rintro ⟨hal, hex⟩
    obtain ⟨names, hmapM, hlength, hiff⟩ :=
      exists_mapM_filterMap stripNul (haligned.mp hal) hfound
    exact hiff.mp ((hexported names hmapM hlength).mp hex)
  · intro hplaced
    have hall : ∀ column ∈ columns, ∃ p, positionOf entries column = some p := fun column hm =>
      (Option.bind_eq_some_iff.mp (hplaced column hm)).imp fun _ h => h.1
    obtain ⟨names, hmapM, hlength, hiff⟩ := exists_mapM_filterMap stripNul hall hfound
    exact ⟨haligned.mpr hall, (hexported names hmapM hlength).mpr (hiff.mpr hplaced)⟩

/-- **A key keeps its columns exactly when the column rows of its table lead from each of them
    to a position, and from that position back to it.** The constraints are those of the groups
    of known tables, in their order. -/
theorem snapshotKeys_iff {schemaRows : List SchemaRow} {tableRows : List TableRow}
    {columnRows : List ColumnRow} {constraintRows : List ConstraintRow} {s : Snapshot}
    (h : buildSnapshot unicode digits schemaRows tableRows columnRows constraintRows = some s) :
    List.Forall₂
      (fun group con => group.1.Names con ∧
        (con.IsKey → (KeyKept digits s group con ↔ KeyPlaced digits columnRows group)))
      (knownGroups unicode tableRows constraintRows) s.constraints := by
  obtain ⟨cols, hcols, h⟩ := Option.bind_eq_some_iff.mp h
  obtain ⟨built, hbuilt, h⟩ := Option.bind_eq_some_iff.mp h
  obtain rfl := Option.some.inj h
  have hgroups : ∀ group ∈ (groupConstraintRows unicode constraintRows).items, group.2 ≠ [] ∧
      ∀ row ∈ group.2, ∃ ctype, constraintType unicode row.constraintType = some ctype := by
    intro group hm
    obtain ⟨hne, hrows⟩ := Dict.mem_foldl_groupAt.mp hm
    rw [List.map_id] at hrows
    refine ⟨hrows ▸ hne, fun row hrow => ?_⟩
    rw [hrows, List.mem_filter] at hrow
    obtain ⟨ctype, hctype, -⟩ := Option.bind_eq_some_iff.mp (of_decide_eq_true hrow.2)
    exact ⟨ctype, hctype⟩
  have hall := foldlM_addGroup hgroups .nil hbuilt
  have hknown : ((groupConstraintRows unicode constraintRows).items.filter fun group =>
      ((relationIds (relationKeys tableRows)).get? group.1.table).isSome) =
        knownGroups unicode tableRows constraintRows := by
    refine List.filter_congr fun group _ => ?_
    rw [Bool.eq_iff_iff, Option.isSome_iff_exists, exists_get?_relationIds, decide_eq_true_iff]
  rw [List.nil_append, hknown] at hall
  show List.Forall₂ _ _ (built.constraints.map Constraint.sanitize)
  rw [List.forall₂_map_right_iff]
  refine hall.imp fun group con hcon => ⟨⟨congrArg stripNul hcon.name, ?_, ?_⟩, fun hkey => ?_⟩
  · exact congrArg (fun table : TableKey => stripNul table.1) hcon.table
  · exact congrArg (fun table : TableKey => stripNul table.2) hcon.table
  · refine exists_congr fun columns => and_congr_right fun hcolumns => ?_
    exact keepsColumns_iff hcols rfl hcon hcolumns hkey

end

/-! ## A table of two columns -/

/-- The table `s.t`. -/
def pairTable : TableRow := ⟨some "s".toList, some "t".toList, some "BASE TABLE".toList, none⟩

/-- A column of that table. -/
def pairColumn (name : String) (position : Int) : ColumnRow where
  tableSchema := some "s".toList
  tableName := some "t".toList
  ordinalPosition := .int position
  columnName := some name.toList
  dataType := some "TEXT".toList
  characterMaximumLength := .null
  numericPrecision := .null
  numericScale := .null
  datetimePrecision := .null
  isNullable := some "NO".toList
  columnDefault := none
  comment := none

/-- A row of its primary key. -/
def pairKey (name : String) (position : Int) : ConstraintRow where
  constraintSchema := some "s".toList
  constraintName := some "pk".toList
  constraintType := some "PRIMARY KEY".toList
  tableSchema := some "s".toList
  tableName := some "t".toList
  columnName := some name.toList
  ordinalPosition := .int position
  referencedTableSchema := none
  referencedTableName := none
  referencedColumnName := none

theorem snapshotKeys_pair :
    ∃ s, buildSnapshot asciiUnicode asciiDigits [] [pairTable]
        [pairColumn "a" 1, pairColumn "b" 2] [pairKey "a" 1, pairKey "b" 2] = some s ∧
      List.Forall₂
        (fun group con => group.1.Names con ∧
          (con.IsKey → (KeyKept asciiDigits s group con ↔
            KeyPlaced asciiDigits [pairColumn "a" 1, pairColumn "b" 2] group)))
        (knownGroups asciiUnicode [pairTable] [pairKey "a" 1, pairKey "b" 2]) s.constraints := by
  have hsome : (buildSnapshot asciiUnicode asciiDigits [] [pairTable]
      [pairColumn "a" 1, pairColumn "b" 2] [pairKey "a" 1, pairKey "b" 2]).isSome = true := by
    decide +kernel
  obtain ⟨s, hs⟩ := Option.isSome_iff_exists.mp hsome
  exact ⟨s, hs, snapshotKeys_iff hs⟩

/-- The primary key on the first column only. -/
def keyOnFirst : Constraint where
  constraintOid := 1
  constraintName := "pk".toList
  constraintType := "p".toList
  schemaName := "s".toList
  relationOid := 1
  relationName := "t".toList
  foreignRelationOid := none
  foreignSchemaName := none
  foreignRelationName := none
  constrainedAttnums := [1]
  constraintDef := "PRIMARY KEY (\"a\", \"b\")".toList

/-- **A key loses the column that has no column row.** -/
theorem not_snapshotKeys_missing :
    ∃ s, buildSnapshot asciiUnicode asciiDigits [] [pairTable] [pairColumn "a" 1]
        [pairKey "a" 1, pairKey "b" 2] = some s ∧
      ¬ List.Forall₂ (fun group con => con.IsKey → KeyKept asciiDigits s group con)
        (knownGroups asciiUnicode [pairTable] [pairKey "a" 1, pairKey "b" 2]) s.constraints := by
  have hconstraints : (buildSnapshot asciiUnicode asciiDigits [] [pairTable] [pairColumn "a" 1]
      [pairKey "a" 1, pairKey "b" 2]).map Snapshot.constraints = some [keyOnFirst] := by
    decide +kernel
  have hgroups : knownGroups asciiUnicode [pairTable] [pairKey "a" 1, pairKey "b" 2] =
      [(⟨"s".toList, "pk".toList, ("s".toList, "t".toList)⟩,
        [pairKey "a" 1, pairKey "b" 2])] := by
    decide +kernel
  have hnamed : groupColumns asciiDigits [pairKey "a" 1, pairKey "b" 2] =
      some ["a".toList, "b".toList] := by
    decide +kernel
  obtain ⟨s, hs, hcon⟩ := Option.map_eq_some_iff.mp hconstraints
  refine ⟨s, hs, fun hall => ?_⟩
  rw [hgroups, hcon, List.forall₂_cons] at hall
  obtain ⟨columns, hcolumns, hkept⟩ := hall.1 (.inl rfl)
  obtain rfl := Option.some.inj (hnamed.symm.trans hcolumns)
  exact absurd hkept.aligned.length_eq (by decide)

end PgErdCloud.Snowflake
