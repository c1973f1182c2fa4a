/-
  Candidate indexes for foreign keys (app/spec/index_design.py). A foreign key without an index
  that mentions its columns gets one, under a name made of its table and its columns.

  A field of a row is `none` where the row has no such key, or a value of another type there.
-/
import PgErdCloud.Dbml.Parse
import PgErdCloud.Spec.IndexRedundancy
import PgErdCloud.Lib.SqlIdent
import PgErdCloud.Lib.Words

namespace PgErdCloud.Spec.IndexDesign

open Lib Lib.PyStr
open Dbml (Chars)
open LexState (quoteIdent)

/-! ## Rows -/

/-- A pair of columns of a foreign key. -/
structure FkEdge where
  fkConstraintName : Option Str
  childRelationOid : Option Int
  childColumnName : Option Str
  columnOrdinal : Option Int
  deriving DecidableEq

/-- The rows that the design reads. -/
structure Snapshot where
  relations : List RelationRow
  indexes : List IndexRow
  fkEdges : List FkEdge

/-- A foreign key: the columns of its child, in the order of their ordinals. -/
structure FkGroup where
  constraint : Str
  childRelationOid : Int
  columns : List Str
  deriving DecidableEq

/-- An index that is proposed, with the statement that creates it. -/
structure Candidate where
  indexName : Str
  schemaName : Str
  tableName : Str
  columns : List Str
  reason : Str
  ddl : Str
  deriving DecidableEq

/-! ## Names -/

/-- `MAX_IDENTIFIER_LENGTH`; the code counts characters. -/
def maxIdentifierLength : Nat := 63

variable (chars : Chars)

/-- What a character of a name becomes. -/
def identifierChar (ch : Char) : Str := if chars.isAlnum ch then chars.lower [ch] else ['_']

/-- `_identifier_part` -/
def identifierPart (value : Str) : Str :=
  let text := stripChars ['_'] (value.flatMap (identifierChar chars))
  let text := collapseRuns '_' text.length text
  if text = [] then "col".toList else text

/-- `_index_name` -/
def indexName (tableName : Str) (columns : List Str) : Str :=
  let raw := "idx_".toList ++ identifierPart chars tableName ++ "_".toList ++
    join "_".toList (columns.map (identifierPart chars))
  raw.take maxIdentifierLength

/-! ## Foreign keys -/

/-- `_fk_groups` -/
def fkGroups (fkEdges : List FkEdge) : List FkGroup :=
  let groups : Dict (Str × Int) (List FkEdge) :=
    fkEdges.foldl (Dict.groupAt (fun edge => edge.childRelationOid.map fun childOid =>
      (edge.fkConstraintName.getD "fk".toList, childOid)) id) .empty
  groups.items.filterMap fun entry =>
    let ordered : List FkEdge := entry.2.insertionSort fun a b =>
      a.columnOrdinal.getD 0 ≤ b.columnOrdinal.getD 0
    let columns : List Str :=
      (ordered.map fun edge => edge.childColumnName.getD []).filter (· ≠ [])
    if columns = [] then none else some ⟨entry.1.1, entry.1.2, columns⟩

/-! ## Covering indexes -/

/-- `_existing_index_column_text` -/
def existingIndexColumnText (index : IndexRow) : Str :=
  match index.indexDef with
  | none => []
  | some indexDef =>
      match cutAt " USING ".toList indexDef with
      | none => chars.lower indexDef
      | some (_, columnText) => chars.lower columnText

/-- `\b…\b` around a column as it is. -/
def columnWordRe (column : Str) : Regex :=
  .all [.boundary chars.isWord, .lit column, .boundary chars.isWord]

/-- `_index_mentions_column` -/
def indexMentionsColumn (indexText column : Str) : Bool :=
  contains (chars.lower (quoteIdent column)) indexText ||
    ((columnWordRe chars (chars.lower column)).search indexText).isSome

/-- `_has_covering_index` -/
def hasCoveringIndex (indexes : List IndexRow) (columns : List Str) : Bool :=
  indexes.any fun index => !index.isPrimary && (columns ≠ [] &&
    columns.all (indexMentionsColumn chars (existingIndexColumnText chars index)))

/-- `indexes_by_oid.get(child_oid, [])` -/
def indexesOf (indexes : List IndexRow) (oid : Int) : List IndexRow :=
  indexes.filter fun index => index.table = some oid

/-! ## Candidates -/

/-- A name with its schema, both in quotes. -/
def qname (schema name : Str) : Str := quoteIdent schema ++ ".".toList ++ quoteIdent name

/-- The index that a foreign key without one gets. -/
def candidate (relation : RelationRow) (group : FkGroup) : Candidate :=
  let schema := relation.schemaName.getD "public".toList
  let table := relation.relationName.getD "unknown".toList
  let name := indexName chars table group.columns
  { indexName := name
    schemaName := schema
    tableName := table
    columns := group.columns
    reason := "foreign-key lookup support for ".toList ++ group.constraint
    ddl := "CREATE INDEX CONCURRENTLY ".toList ++ quoteIdent name ++ " ON ".toList ++
      qname schema table ++ " USING btree (".toList ++
      join ", ".toList (group.columns.map quoteIdent) ++ ");".toList }

/-- The foreign keys of known tables that no index covers, with their tables. -/
def openGroups (snapshot : Snapshot) : List (RelationRow × FkGroup) :=
  (fkGroups snapshot.fkEdges).filterMap fun group =>
    (relByOid snapshot.relations (some group.childRelationOid)).bind fun relation =>
      if hasCoveringIndex chars (indexesOf snapshot.indexes group.childRelationOid) group.columns
      then none else some (relation, group)

/-- `_candidate_indexes` -/
def candidateIndexes (snapshot : Snapshot) : List Candidate :=
  (openGroups chars snapshot).map fun g => candidate chars g.1 g.2

end PgErdCloud.Spec.IndexDesign
