/-
  The reversing specification of a snapshot in Markdown (`generate_reversing_markdown` of
  app/spec/reversing.py): an entity for each table, with a table of its columns.
-/
import PgErdCloud.Spec.DataDictionary

namespace PgErdCloud.Spec.Report

open Lib Lib.PyStr

/-! ## Cells -/

/-- `_bool_text` -/
def boolText (value : Bool) : Str := if value then "yes".toList else "no".toList

/-- `_text(value, "-") or "-"` -/
def textOrDash (value : Option Str) : Str := (truthy value).getD "-".toList

/-- `_escape_cell` -/
def escapeCell (value : Option Str) : Str := Markdown.escapePipes (textOrDash value)

example : escapeCell (some "a|b\n".toList) = "a\\|b ".toList := by decide

/-- `_relation_label` -/
def relationLabel (rel : Relation) : Str :=
  rel.schemaName.getD "unknown".toList ++ ".".toList ++ rel.relationName.getD "unknown".toList

/-- `_relation_kind_name` -/
def relationKindName (kind : Option Str) : Str :=
  if kind = some "r".toList then "table".toList
  else if kind = some "p".toList then "partitioned table".toList
  else if kind = some "v".toList then "view".toList
  else if kind = some "m".toList then "materialized view".toList
  else "relation".toList

variable (s : Snapshot)

/-! ## Entities -/

/-- The header of a table of columns. -/
def reversingHeader : Str :=
  "| Column | Type | Required | Default | Example | Comment |".toList

/-- The line below the header. -/
def reversingDelimiter : Str := "| --- | --- | --- | --- | --- | --- |".toList

/-- The cells of a column. -/
def reversingCells (col : ColumnRow) : List Str :=
  [escapeCell col.columnName, escapeCell col.dataType, boolText col.isNotNull,
    escapeCell col.defaultExpr, escapeCell col.exampleValue, escapeCell col.columnComment]

/-- The row of a column. -/
def reversingLine (col : ColumnRow) : Str :=
  "| ".toList ++ join " | ".toList (reversingCells col) ++ " |".toList

/-- The line of a constraint. -/
def constraintLine (con : ConstraintRow) : Str :=
  "- ".toList ++ escapeCell con.constraintName ++ " (".toList ++ escapeCell con.constraintType ++
    "): ".toList ++ escapeCell con.constraintDef

/-- The line of an index, with what it is for. -/
def reversingIndexLine (idx : IndexRow) : Str :=
  let intent := (if idx.isPrimary then ["primary".toList] else []) ++
    (if idx.isUnique then ["unique".toList] else []) ++
    (truthy idx.accessMethod).toList.map ("method=".toList ++ ·) ++
    (truthy idx.predicateExpr).toList.map fun _ => "partial".toList
  "- ".toList ++ escapeCell idx.indexName ++
    if intent = [] then [] else " [".toList ++ join ", ".toList intent ++ "]".toList

/-- The columns of an entity, as they are in the snapshot. -/
def entityColumns (oid : Int) : List ColumnRow := rowsOf ColumnRow.relationOid s.columns (some oid)

/-- The lines of a table of columns. -/
def entityTable (oid : Int) : List Str :=
  reversingHeader :: reversingDelimiter :: (entityColumns s oid).map reversingLine

/-- `_generate_markdown_entity` of a relation with an object id -/
def entityLines (rel : Relation) (oid : Int) : List Str :=
  let listed {α : Type} (heading : Str) (line : α → Str) (rows : List α) : List Str :=
    if rows = [] then [] else [[], heading] ++ rows.map line
  [[], "### ".toList ++ relationLabel rel,
      "- Kind: ".toList ++ relationKindName rel.relationKind] ++
    (truthy rel.relationComment).toList.map ("- Comment: ".toList ++ ·) ++
    [[]] ++ entityTable s oid ++
    listed "Constraints:".toList constraintLine
      (rowsOf ConstraintRow.relationOid s.constraints (some oid)) ++
    listed "Indexes:".toList reversingIndexLine
      (rowsOf IndexRow.relationOid s.indexes (some oid))

/-- The relations that have an object id, with it. -/
def objects : List (Relation × Int) :=
  s.relations.filterMap fun rel => rel.relationOid.map fun oid => (rel, oid)

/-! ## The document -/

/-- The line of a foreign key. -/
def relationshipLine (edge : FkEdge) : Str :=
  let column (schema relation name : Option Str) : Str :=
    printed schema ++ ".".toList ++ printed relation ++ ".".toList ++ printed name
  "- ".toList ++
    escapeCell (some (column edge.childSchemaName edge.childRelationName edge.childColumnName)) ++
    " -> ".toList ++
    escapeCell (some (column edge.parentSchemaName edge.parentRelationName
      edge.parentColumnName)) ++
    " (".toList ++ escapeCell edge.fkConstraintName ++ ")".toList

/-- `_generate_markdown_header` -/
def headerLines : List Str :=
  let dialect := (truthy s.sourceDialect).getD
    ((truthy s.databaseDialect).getD "postgresql".toList)
  ["# DB Reversing Specification".toList, [], "## Snapshot".toList,
    "- Source dialect: ".toList ++ dialect,
    "- Server version: ".toList ++ textOrDash s.serverVersion,
    "- Captured at: ".toList ++ textOrDash s.capturedAt,
    "- Schema filter: ".toList ++ textOrDash s.schemaFilter, [], "## Object Inventory".toList,
    "- Relations: ".toList ++ Nat.toDigits 10 (objects s).length,
    "- Relationships: ".toList ++ Nat.toDigits 10 s.fkEdges.length, [],
    "## Entity Catalog".toList]

/-- `_generate_markdown_footer` -/
def footerLines : List Str :=
  [[], "## LLM Review Prompt".toList,
    "Use `/reversing-spec.md?mode=llm-prompt` to generate a compact prompt".toList,
    "for an approved LLM provider. The prompt includes only schema metadata".toList,
    "from this snapshot and asks the model to mark unsupported business".toList,
    "meaning as assumptions.".toList,
    "When a provider is configured, `/reversing-spec.md?mode=llm-draft`".toList,
    "asks the provider to generate a Markdown draft directly.".toList, []]

/-- `generate_reversing_markdown` -/
def generateReversingMarkdown : Str :=
  join "\n".toList (headerLines s ++
    (if objects s = [] then [[], "_No relations were captured in this snapshot._".toList]
      else (objects s).flatMap fun entry => entityLines s entry.1 entry.2) ++
    [[], "## Relationship Model".toList] ++
    (if s.fkEdges = [] then ["_No foreign-key relationships were captured._".toList]
      else s.fkEdges.map relationshipLine) ++
    footerLines)

/-- The lines of the tables of columns. -/
def reversingRows : List Str := (objects s).flatMap fun entry => entityTable s entry.2

end PgErdCloud.Spec.Report
