/-
  Foreign keys that are not declared (app/spec/relationship_inference.py). A column `<x>_id`
  is taken for a reference to a table `<x>`, or its plural, of the same schema. Names are
  compared in lower case, and the maps that are searched hold them so.

  A field of a row is `none` where the row has no such key or null there.
-/
import PgErdCloud.Spec.Snapshot
import PgErdCloud.Lib.Dict
import PgErdCloud.Lib.Firsts

namespace PgErdCloud.Spec.Inference

open Lib Lib.PyStr

/-! ## Rows -/

/-- A row of `columns`. -/
structure ColumnRow where
  relationOid : Option Int
  columnName : Option Str
  dataType : Option Str
  deriving DecidableEq

/-- A row of `pk_columns`. -/
structure PkRow where
  relationOid : Option Int
  columnName : Option Str

/-- A row of `fk_edges`. -/
structure EdgeRow where
  childRelationOid : Option Int
  childColumnName : Option Str

/-- The rows that the inference reads. -/
structure Snapshot where
  relations : List RelationRow
  columns : List ColumnRow
  pkColumns : List PkRow
  fkEdges : List EdgeRow

/-- `str(value or "")` -/
def text (value : Option Str) : Str := value.getD []

/-- The order in which a set of names is iterated. -/
structure SetOrder where
  order : List Str → List Str
  perm : ∀ names, (order names).Perm names

variable (unicode : Unicode) (sets : SetOrder)

/-! ## Types -/

/-- The length of the text up to the next `)` of the line. -/
def closing (s : Str) : Option Nat :=
  let inner := s.takeWhile fun ch => ch ≠ ')' && ch ≠ '\n'
  if s[inner.length]? = some ')' then some (inner.length + 1) else none

/-- `re.sub(r"\(.*?\)", "", s)`, with the number of characters that are still within a match. -/
def dropModifiers : Nat → Str → Str
  | _, [] => []
  | skip + 1, _ :: s => dropModifiers skip s
  | 0, ch :: s =>
      match if ch = '(' then closing s else none with
      | some length => dropModifiers length s
      | none => ch :: dropModifiers 0 s

/-- `re.sub(r"\s+", " ", s)`; whether the character before was white space. -/
def collapseSpaces : Bool → Str → Str
  | _, [] => []
  | spaced, ch :: s =>
      if isSpace ch then (if spaced then [] else [' ']) ++ collapseSpaces true s
      else ch :: collapseSpaces false s

/-- `_norm_type` -/
def normType (dataType : Option Str) : Str :=
  strip (collapseSpaces false (dropModifiers 0 (unicode.lower (strip (text dataType)))))

example : normType asciiUnicode (some " Character  varying(20) ".toList) =
    "character varying".toList := by decide

/-! ## Maps -/

/-- `_candidate_target_names` -/
def candidateTargetNames (base : Str) : List Str :=
  let base := unicode.lower base
  [base, base ++ "s".toList, base ++ "es".toList] ++
    if endsWith base "y".toList then [base.dropLast ++ "ies".toList] else []

variable (s : Snapshot)

/-- `by_name` -/
def byName : Dict Str (List RelationRow) :=
  s.relations.foldl
    (Dict.groupAt (fun rel => some (unicode.lower (text rel.relationName))) id) .empty

/-- `cols_by_oid`: of the columns of a table with one name in lower case the last. -/
def colsByOid : Dict (Option Int) (Dict Str ColumnRow) :=
  s.columns.foldl (Dict.upsertAt (fun c => c.columnName.map fun _ => c.relationOid) .empty
    fun c cols => cols.set (unicode.lower (text c.columnName)) c) .empty

/-- `cols_by_oid.get(oid, {})` -/
def colsOf (oid : Option Int) : Dict Str ColumnRow := ((colsByOid unicode s).get? oid).getD .empty

/-- `pk_by_oid` -/
def pkByOid : Dict (Option Int) (List Str) :=
  s.pkColumns.foldl (Dict.groupAt (fun pk => pk.columnName.map fun _ => pk.relationOid)
    fun pk => unicode.lower (text pk.columnName)) .empty

/-- `pk_by_oid.get(oid, set())` -/
def pksOf (oid : Option Int) : List Str := ((pkByOid unicode s).get? oid).getD []

/-- `declared`: the columns that have a foreign key. -/
def declared : List (Option Int × Str) :=
  s.fkEdges.filterMap fun e =>
    e.childColumnName.map fun col => (e.childRelationOid, unicode.lower col)

/-- `_ref_column` -/
def refColumn (targetOid : Option Int) (childCol : Str) : Option Str :=
  let targetCols := (colsOf unicode s targetOid).keys
  let named :=
    if childCol ∈ targetCols then some childCol
    else if "id".toList ∈ targetCols then some "id".toList
    else none
  match pksOf unicode s targetOid with
  | [pk] => if pk ∈ targetCols then some pk else named
  | _ => named

/-! ## Guesses -/

/-- A column and what it seems to refer to, before the pair is printed. -/
structure Guess where
  child : RelationRow
  columnKey : Str
  column : ColumnRow
  target : RelationRow
  ref : Str
  deriving DecidableEq

/-- What tells two guesses apart, so that each is reported once. -/
def Guess.key (g : Guess) : Option Int × Str × Option Int × Str :=
  (g.child.relationOid, g.columnKey, g.target.relationOid, g.ref)

/-- The body of the loop over the tables of a candidate's name. -/
def guessTarget (child : RelationRow) (columnKey : Str) (column : ColumnRow)
    (target : RelationRow) : Option Guess :=
  if text target.schemaName ≠ text child.schemaName then none
  else if pksOf unicode s target.relationOid = [] then none
  else
    match refColumn unicode s target.relationOid columnKey with
    | none => none
    | some ref =>
        if target.relationOid = child.relationOid ∧ ref = columnKey then none
        else some ⟨child, columnKey, column, target, ref⟩

/-- The inner loop: the tables that a column may refer to by its name. -/
def guessColumn (child : RelationRow) (columnKey : Str) (column : ColumnRow) : List Guess :=
  if endsWith columnKey "_id".toList = false ∨ columnKey.length ≤ 3 then []
  else if (child.relationOid, columnKey) ∈ declared unicode s then []
  else
    let base := columnKey.take (columnKey.length - 3)
    (sets.order (candidateTargetNames unicode base)).flatMap fun cand =>
      (((byName unicode s).get? cand).getD []).filterMap
        (guessTarget unicode s child columnKey column)

/-- The loop over tables and columns. -/
def guesses : List Guess :=
  s.relations.flatMap fun child =>
    (colsOf unicode s child.relationOid).items.flatMap fun entry =>
      guessColumn unicode sets s child entry.1 entry.2

/-! ## Results -/

/-- How sure a guess is: it is where the types agree. -/
inductive Confidence
  | high
  | medium
  deriving DecidableEq

/-- A relationship that is reported. -/
structure Inferred where
  childSchema : Str
  childTable : Str
  childColumn : Str
  parentSchema : Str
  parentTable : Str
  parentColumn : Str
  confidence : Confidence
  reason : Str
  deriving DecidableEq

/-- What is reported of a guess. -/
def Guess.result (g : Guess) : Inferred :=
  let refType := ((colsOf unicode s g.target.relationOid).get? g.ref).bind ColumnRow.dataType
  let sameType := normType unicode g.column.dataType = normType unicode refType
  { childSchema := text g.child.schemaName
    childTable := text g.child.relationName
    childColumn := text g.column.columnName
    parentSchema := text g.target.schemaName
    parentTable := text g.target.relationName
    parentColumn := g.ref
    confidence := if sameType then .high else .medium
    reason := "column '".toList ++ g.column.columnName.getD "None".toList ++
      "' matches table '".toList ++ g.target.relationName.getD "None".toList ++ "'".toList ++
      if sameType then [] else " (type differs)".toList }

/-- What results are sorted by. -/
def Inferred.sortKey (r : Inferred) : Str ×ₗ Str ×ₗ Str ×ₗ Str :=
  toLex (r.childSchema, toLex (r.childTable, toLex (r.childColumn, r.parentTable)))

/-- `infer_relationships` -/
def inferRelationships : List Inferred :=
  (((guesses unicode sets s).foldl (keepFirst Guess.key fun _ => False) []).map
    (Guess.result unicode s)).insertionSort fun a b => a.sortKey ≤ b.sortKey

end PgErdCloud.Spec.Inference
