/-
  Duplicate and prefix-shadowed indexes (app/spec/index_redundancy.py). The columns of an index
  are read from its definition; a definition that is not understood is skipped. On each table
  every two indexes are compared, and one may be suggested for dropping.

  A field of a row is `none` where the row has no such key or null there.
-/
import PgErdCloud.Spec.Snapshot
import PgErdCloud.Lib.Dict
import PgErdCloud.Lib.Cut

namespace PgErdCloud.Spec

open Lib Lib.PyStr

/-! ## Rows -/

/-- A row of `indexes`. -/
structure IndexRow where
  relationOid : Option Int
  tableOid : Option Int
  indexName : Option Str
  isUnique : Bool
  isPrimary : Bool
  indexDef : Option Str

/-- The rows that the analysis reads. -/
structure IndexSnapshot where
  relations : List RelationRow
  indexes : List IndexRow

/-- `idx.get("relation_oid") or idx.get("table_oid")` -/
def IndexRow.table (row : IndexRow) : Option Int :=
  if row.relationOid.getD 0 ≠ 0 then row.relationOid else row.tableOid

/-- `str(idx.get("index_name") or "")` -/
def IndexRow.name (row : IndexRow) : Str := row.indexName.getD []

/-- A primary key counts as unique, whatever the row says. -/
def IndexRow.unique (row : IndexRow) : Bool := row.isUnique || row.isPrimary

/-! ## Columns of a definition -/

/-- The scan of `_first_paren_group`: whether it is in a quoted identifier, how many groups are
    open, and the text of the outermost one so far. -/
def firstParenGroupFrom : Bool → Nat → Str → Str → Option Str
  | _, _, _, [] => none
  | true, depth, group, '"' :: '"' :: text =>
      firstParenGroupFrom true depth (group ++ ['"', '"']) text
  | true, depth, group, '"' :: text => firstParenGroupFrom false depth (group ++ ['"']) text
  | true, depth, group, ch :: text => firstParenGroupFrom true depth (group ++ [ch]) text
  | false, depth, group, '"' :: text => firstParenGroupFrom true depth (group ++ ['"']) text
  | false, 0, _, '(' :: text => firstParenGroupFrom false 1 [] text
  | false, depth + 1, group, '(' :: text =>
      firstParenGroupFrom false (depth + 2) (group ++ ['(']) text
  | false, 1, group, ')' :: _ => some group
  | false, depth + 2, group, ')' :: text =>
      firstParenGroupFrom false (depth + 1) (group ++ [')']) text
  | false, depth, group, ch :: text => firstParenGroupFrom false depth (group ++ [ch]) text

/-- `_first_paren_group` -/
def firstParenGroup (text : Str) : Option Str := firstParenGroupFrom false 0 [] text

section
variable (unicode : Unicode)

/-- The column of a part of the list; `none` when the index is not comparable. -/
def partColumn (part : Str) : Option Str :=
  match words (stripChars ['"'] (strip part)) with
  | [] => none
  | word :: _ =>
      if '(' ∈ part then none else some (unicode.lower (stripChars ['"'] word))

/-- A definition with a condition, wherever the word stands. -/
def isPartial (text : Str) : Bool := contains " where ".toList (unicode.lower text)

/-- `_index_columns` -/
def indexColumns (indexDef : Option Str) : List Str :=
  let text := indexDef.getD []
  if isPartial unicode text then []
  else match firstParenGroup text with
    | none => []
    | some group => ((split ',' group).mapM (partColumn unicode)).getD []

/-! ## Suggestions -/

/-- The two kinds of findings. -/
inductive Category
  | duplicateIndex
  | prefixRedundantIndex
  deriving DecidableEq

/-- An item of the report: drop `index`, `kept` serves for it. -/
structure Item where
  category : Category
  severity : Severity
  table : Str
  index : Str
  kept : Str
  columns : List Str
  detail : Str
  deriving DecidableEq

/-- A comparable index. -/
structure Entry where
  name : Str
  cols : List Str
  unique : Bool
  deriving DecidableEq

/-- What is kept of an index that can be compared. -/
def newEntry (row : IndexRow) : Entry where
  name := row.name
  cols := indexColumns unicode row.indexDef
  unique := row.unique

/-- Columns as a finding names them. -/
def joined (cols : List Str) : Str := join ", ".toList cols

/-- The finding of two indexes on the same columns: of them one that is not unique is dropped, else
    the second. -/
def duplicateItem (table : Str) (a b : Entry) : Item :=
  let drop :=
    if a.unique && !b.unique then b.name else if b.unique && !a.unique then a.name else b.name
  let kept := if drop = b.name then a.name else b.name
  { category := .duplicateIndex
    severity := .warning
    table := table
    index := drop
    kept := kept
    columns := a.cols
    detail := "'".toList ++ drop ++ "' duplicates '".toList ++ kept ++ "' on (".toList ++
      joined a.cols ++ ") — drop it.".toList }

/-- The finding of an index that another begins with. -/
def prefixItem (table : Str) (shorter longer : Entry) : Item where
  category := .prefixRedundantIndex
  severity := .info
  table := table
  index := shorter.name
  kept := longer.name
  columns := shorter.cols
  detail := "'".toList ++ shorter.name ++ "' on (".toList ++ joined shorter.cols ++
    ") is a prefix of '".toList ++ longer.name ++ "' on (".toList ++ joined longer.cols ++
    ") — likely droppable.".toList

/-- The item for an index and a later one of the same table. -/
def pairItem (table : Str) (a b : Entry) : Option Item :=
  if a.cols = b.cols then some (duplicateItem table a b)
  else if a.cols.isPrefixOf b.cols then if a.unique then none else some (prefixItem table a b)
  else if b.cols.isPrefixOf a.cols then if b.unique then none else some (prefixItem table b a)
  else none

/-- The items of a table. -/
def tableItems (table : Str) : List Entry → List Item
  | [] => []
  | a :: rest => rest.filterMap (pairItem table a) ++ tableItems table rest

/-! ## The report -/

/-- The label of a table; a table without a row has neither a schema nor a name. -/
def tableLabel (relations : List RelationRow) (oid : Option Int) : Str :=
  ((relByOid relations oid).getD ⟨oid, none, none⟩).label

/-- The table of a comparable index. -/
def comparableOn (row : IndexRow) : Option (Option Int) :=
  if indexColumns unicode row.indexDef = [] then none else some row.table

/-- `by_table` -/
def byTable (indexes : List IndexRow) : Dict (Option Int) (List Entry) :=
  indexes.foldl (Dict.groupAt (comparableOn unicode) (newEntry unicode)) .empty

/-- The order of the findings: by severity, table and index. -/
def itemLe (i j : Item) : Bool :=
  decide (i.severity.rank < j.severity.rank) || (decide (i.severity.rank = j.severity.rank) &&
    (decide (i.table < j.table) || (decide (i.table = j.table) && decide (i.index ≤ j.index))))

/-- The findings and their numbers. -/
structure Report where
  items : List Item
  duplicates : Nat
  prefixRedundant : Nat
  total : Nat

/-- `detect_index_redundancy` -/
def detectIndexRedundancy (snapshot : IndexSnapshot) : Report :=
  let items := (byTable unicode snapshot.indexes).items.flatMap fun entry =>
    tableItems (tableLabel snapshot.relations entry.1) entry.2
  let sorted := items.insertionSort fun i j => itemLe i j
  { items := sorted
    duplicates := sorted.countP fun i => i.category = .duplicateIndex
    prefixRedundant := sorted.countP fun i => i.category = .prefixRedundantIndex
    total := sorted.length }

end

end PgErdCloud.Spec
