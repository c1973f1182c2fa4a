/-
  The DBML parser (app/spec/dbml_import.py). It reads a document line by line, with a state
  that says in which table, ignored block or list of indexes it is.
-/
import PgErdCloud.Lib.Cut
import PgErdCloud.Lib.Dict
import PgErdCloud.Lib.Regex

namespace PgErdCloud.Dbml

open Lib Lib.PyStr

/-! ## Characters -/

/-- What depends on the Unicode database in use: `str.isalnum()` for one character, and
    `str.lower()`. -/
structure Chars where
  isAlnum : Char → Bool
  lower : Str → Str
  isAlnum_ascii : ∀ ch, ch.toNat < 128 → isAlnum ch = ch.isAlphanum
  not_isSpace : ∀ ch, isAlnum ch = true → isSpace ch = false
  lower_ascii : ∀ s, isAscii s = true → lower s = s.map Char.toLower

/-- Text of ASCII. -/
def asciiChars : Chars where
  isAlnum := Char.isAlphanum
  lower := List.map Char.toLower
  isAlnum_ascii := fun _ _ => rfl
  not_isSpace := fun _ => isSpace_of_isAlphanum
  lower_ascii := fun _ _ => rfl

/-- `s.lower() == word` for a word without `i` and `k`, which are the only letters of ASCII that
    another character becomes in lower case. -/
def isWordIgnoreCase (word : String) (s : Str) : Bool := s.map Char.toLower = word.toList

variable (chars : Chars)

/-- The class `\w`. -/
def Chars.isWord (ch : Char) : Bool := chars.isAlnum ch || ch = '_'

/-! ## Patterns -/

/-- `\s*` -/
def spaces : Regex := .star (.one isSpace)

/-- `"[^"]+"` -/
def quotedName (name : Regex → Regex) : Regex :=
  .all [.lit "\"".toList, name (.plus (.one (· ≠ '"'))), .lit "\"".toList]

/-- `_COLUMN_RE` -/
def columnRe : Regex :=
  .all [.lineStart,
    .any [quotedName (.group "qname"), .group "name" (.plus (.one chars.isWord))],
    .plus (.one isSpace),
    .group "type" (.all [.plus (.one chars.isWord),
      .opt (.all [.lit "(".toList, .star (.one (· ≠ ')')), .lit ")".toList]),
      .opt (.lit "[]".toList)]),
    .opt (.all [spaces, .lit "[".toList, .group "settings" (.star (.one (· ≠ '\n'))),
      .lit "]".toList]),
    spaces, .lineEnd]

/-- `"[^"]+"|\w+` -/
def pathSegment : Regex := .any [quotedName id, .plus (.one chars.isWord)]

/-- `_PATH` -/
def path : Regex := .seq (pathSegment chars) (.star (.seq (.lit ".".toList) (pathSegment chars)))

/-- What stands between two paths. -/
def refOp : Regex := .group "op" (.one fun ch => ch ∈ "<>-".toList)

/-- `_REF_RE` -/
def refRe : Regex :=
  .all [.litIgnoreCase "ref", spaces, .opt (.seq (.plus (.one chars.isWord)) spaces),
    .opt (.lit ":".toList), spaces, .group "from" (path chars), spaces, refOp, spaces,
    .group "to" (path chars)]

/-- `_INLINE_REF_RE` -/
def inlineRefRe : Regex :=
  .all [.litIgnoreCase "ref:", spaces, refOp, spaces, .group "to" (path chars)]

/-- `_PATH_SEGMENT_RE` -/
def pathSegmentRe : Regex := .any [quotedName id, .plus (.one (· ≠ '.'))]

/-- `^(project|enum|tablegroup|note)\b` -/
def ignoredBlockRe : Regex :=
  .all [.lineStart, .any [.litIgnoreCase "project", .litIgnoreCase "enum",
    .litIgnoreCase "tablegroup", .litIgnoreCase "note"], .boundary chars.isWord]

/-- `^ref\b` -/
def refLineRe : Regex := .all [.lineStart, .litIgnoreCase "ref", .boundary chars.isWord]

/-- `^indexes\s*{` -/
def indexesRe : Regex := .all [.lineStart, .litIgnoreCase "indexes", spaces, .one (· = '{')]

/-- `\bpk\b|primary\s+key` -/
def pkRe : Regex :=
  .any [.all [.boundary chars.isWord, .lit "pk".toList, .boundary chars.isWord],
    .all [.lit "primary".toList, .plus (.one isSpace), .lit "key".toList]]

/-! ## Table headers -/

/-- A schema and a table. -/
abbrev TableKey := Str × Str

/-- `_consume_table_name`: the name, and the text behind it. -/
def consumeTableName : Str → Option (Str × Str)
  | [] => none
  | ch :: line =>
      if ch = '"' then
        match cutAt ['"'] line with
        | some (name, after) => if name = [] then none else some (name, after)
        | none => none
      else
        let isNameChar (c : Char) : Bool := chars.isAlnum c || c ∈ "_.".toList
        let raw := (ch :: line).takeWhile isNameChar
        if raw = [] ∨ [] ∈ split '.' raw then none
        else some (raw, (ch :: line).dropWhile isNameChar)

/-- `_table_header_tail_ok` -/
def tableHeaderTailOk (tail : Str) : Bool :=
  let rest := strip tail
  let ok (rest : Str) : Bool := rest = [] || rest = "\x7b".toList
  if rest = [] then true
  else if isWordIgnoreCase "as" (rest.take 2) && (rest.drop 2).head?.all isSpace then
    let rest := lstrip (rest.drop 2)
    if rest.takeWhile chars.isWord = [] then false
    else ok (lstrip (rest.dropWhile chars.isWord))
  else ok rest

/-- `_split_table_name` -/
def splitTableName (raw : Str) : TableKey :=
  let raw := stripChars ['"'] (strip raw)
  match cutAt ".".toList raw with
  | some (schema, name) => (stripChars ['"'] schema, stripChars ['"'] name)
  | none => ("public".toList, raw)

/-- `_parse_table_header` -/
def parseTableHeader (line : Str) : Option TableKey :=
  if isWordIgnoreCase "table" (line.take 5) && (line.drop 5).head?.any isSpace then
    match consumeTableName chars (lstrip (line.drop 5)) with
    | some (rawName, tail) =>
        if tableHeaderTailOk chars tail then some (splitTableName rawName) else none
    | none => none
  else none

/-- `_split_col_ref`: schema, table and column. A path has at least one segment. -/
def splitColRef (raw : Str) : Str × Str × Str :=
  match (pathSegmentRe.findAll (strip raw)).map (stripChars ['"']) with
  | schema :: table :: column :: _ => (schema, table, column)
  | [table, column] => ("public".toList, table, column)
  | [column] => ("public".toList, [], column)
  | [] => ("public".toList, [], [])

/-! ## Rows -/

/-- A row of `relations`. -/
structure Relation where
  relationOid : Nat
  schemaName : Str
  relationName : Str
  deriving DecidableEq

/-- A row of `columns`. -/
structure Column where
  relationOid : Nat
  columnName : Str
  columnPosition : Nat
  dataType : Str
  isNotNull : Bool
  hasDefault : Bool
  deriving DecidableEq

/-- A row of `pk_columns`. -/
structure PkColumn where
  relationOid : Nat
  columnName : Str
  columnOrdinal : Nat
  deriving DecidableEq

/-- A reference before its tables are looked up. -/
structure FkSpec where
  child : TableKey
  childColumn : Str
  parent : TableKey
  parentColumn : Str
  deriving DecidableEq

/-- A row of `fk_edges`. -/
structure FkEdge where
  fkConstraintOid : Nat
  fkConstraintName : Str
  childRelationOid : Nat
  parentRelationOid : Nat
  childColumnName : Str
  parentColumnName : Str
  deriving DecidableEq

/-- A row of `constraints`. -/
structure Constraint where
  constraintOid : Nat
  constraintName : Str
  constraintType : Char
  schemaName : Str
  relationOid : Nat
  relationName : Str
  constrainedAttnums : List Nat
  constraintDef : Str
  deriving DecidableEq

/-- What the parser gives. -/
structure Snapshot where
  schemas : List Str
  relations : List Relation
  columns : List Column
  constraints : List Constraint
  pkColumns : List PkColumn
  fkEdges : List FkEdge
  deriving DecidableEq

/-! ## Lines -/

/-- The variables of the loop over the lines. -/
structure ParseState where
  relations : List Relation
  columns : List Column
  pkColumns : List PkColumn
  fkSpecs : List FkSpec
  oidByTable : Dict TableKey Nat
  nextOid : Nat
  current : Option TableKey
  inIgnoredBlock : Int
  inIndexes : Bool

/-- The variables before the first line. -/
def ParseState.start : ParseState := ⟨[], [], [], [], .empty, 1, none, 0, false⟩

/-- `line.count("{") - line.count("}")` -/
def braces (line : Str) : Int := (line.count '{' : Int) - (line.count '}' : Int)

/-- `len(raw_line) > 4096` means that the line is skipped. -/
def maxLine : Nat := 4096

/-- The line without its comment; `none` where it is skipped. -/
def lineOf (rawLine : Str) : Option Str :=
  if rawLine.length > maxLine then none
  else
    let line := strip (((cutAt "//".toList rawLine).map Prod.fst).getD rawLine)
    if line = [] then none else some line

/-- A header makes its table the current one, and a relation where it is new. -/
def openTable (s : ParseState) (table : TableKey) : ParseState :=
  if (s.oidByTable.get? table).isSome then { s with current := some table }
  else
    { s with
      current := some table
      oidByTable := s.oidByTable.set table s.nextOid
      relations := s.relations ++ [⟨s.nextOid, table.1, table.2⟩]
      nextOid := s.nextOid + 1 }

/-- The reference that a line names. `a < b` means that `b` references `a`. -/
def refSpec (line : Str) : Option FkSpec :=
  (refRe chars).search line |>.bind fun rm =>
    let (fs, ft, fc) := splitColRef ((rm.group "from").getD [])
    let (ts, tt, tc) := splitColRef ((rm.group "to").getD [])
    let spec : FkSpec :=
      if rm.group "op" = some "<".toList then ⟨(ts, tt), tc, (fs, ft), fc⟩
      else ⟨(fs, ft), fc, (ts, tt), tc⟩
    if ft ≠ [] ∧ tt ≠ [] then some spec else none

/-- The reference within the settings of a column of a table. -/
def inlineRefSpec (table : TableKey) (columnName settings : Str) : Option FkSpec :=
  (inlineRefRe chars).search settings |>.map fun im =>
    let (ts, tt, tc) := splitColRef ((im.group "to").getD [])
    if im.group "op" = some "<".toList then ⟨(ts, tt), tc, table, columnName⟩
    else ⟨table, columnName, (ts, tt), tc⟩

/-- The name, the type and the settings that a line gives a column. -/
def parseColumn (line : Str) : Option (Str × Str × Str) :=
  (columnRe chars).matchStart line |>.map fun cm =>
    (stripChars ['"'] (((cm.group "qname").or (cm.group "name")).getD []),
      (cm.group "type").getD [], (cm.group "settings").getD [])

/-- Settings that say that a column is a key. -/
def isPkSettings (settings : Str) : Bool := ((pkRe chars).search (chars.lower settings)).isSome

/-- A column goes to the current table, which has an oid. -/
def addColumn (s : ParseState) (table : TableKey) (column : Str × Str × Str) : ParseState :=
  let (columnName, dataType, settings) := column
  let oid := (s.oidByTable.get? table).getD 0
  let isPk := isPkSettings chars settings
  { s with
    columns := s.columns ++
      [⟨oid, columnName, s.columns.countP (fun c => c.relationOid = oid) + 1, dataType,
        isPk || contains "not null".toList (chars.lower settings),
        contains "default:".toList (chars.lower settings)⟩]
    pkColumns := s.pkColumns ++
      if isPk then [⟨oid, columnName, s.pkColumns.length + 1⟩] else []
    fkSpecs := s.fkSpecs ++ (inlineRefSpec chars table columnName settings).toList }

/-- A line within a table. -/
def bodyLine (s : ParseState) (table : TableKey) (line : Str) : ParseState :=
  if (indexesRe.matchStart line).isSome then { s with inIndexes := true }
  else if s.inIndexes then { s with inIndexes := '}' ∉ line }
  else
    match parseColumn chars line with
    | some column => addColumn chars s table column
    | none => s

/-- The body of the loop: one line, without its comment. -/
def parseLine (s : ParseState) (rawLine : Str) : ParseState :=
  match lineOf rawLine with
  | none => s
  | some line =>
      if s.inIgnoredBlock ≠ 0 then { s with inIgnoredBlock := s.inIgnoredBlock + braces line }
      else if ((ignoredBlockRe chars).matchStart line).isSome then
        { s with
          inIgnoredBlock := if braces line ≤ 0 ∧ '{' ∉ line then 1 else braces line }
      else
        match parseTableHeader chars line with
        | some table => openTable s table
        | none =>
            if line.head? = some '}' then { s with current := none, inIndexes := false }
            else if ((refLineRe chars).matchStart line).isSome then
              { s with fkSpecs := s.fkSpecs ++ (refSpec chars line).toList }
            else
              match s.current with
              | none => s
              | some table => bodyLine chars s table line

/-! ## The snapshot -/

/-- The edge of a reference with its number, where the document has both tables. -/
def fkEdgeOf (oidByTable : Dict TableKey Nat) (spec : FkSpec) (i : Nat) : Option FkEdge :=
  match oidByTable.get? spec.child, oidByTable.get? spec.parent with
  | some child, some parent =>
      some ⟨100000 + i, "fk_".toList ++ spec.child.2 ++ "_".toList ++ spec.childColumn,
        child, parent, spec.childColumn, spec.parentColumn⟩
  | _, _ => none

/-- The foreign keys between tables that the text declares. -/
def fkEdgesOf (s : ParseState) : List FkEdge :=
  (s.fkSpecs.zipIdx 1).filterMap fun e => fkEdgeOf s.oidByTable e.1 e.2

/-- A name between double quotes, as the definition of a constraint prints it. -/
def doubleQuoted (name : Str) : Str := "\"".toList ++ name ++ "\"".toList

/-- The columns of each primary key, in the order in which the relations first have one. -/
def pkColsByOid (pkColumns : List PkColumn) : Dict Nat (List Str) :=
  pkColumns.foldl (fun d pk =>
    d.set pk.relationOid (((d.get? pk.relationOid).getD []) ++ [pk.columnName])) .empty

/-- The position of a column; of those with one name, the last one's. -/
def positionOf (columns : List Column) (oid : Nat) (name : Str) : Option Nat :=
  (columns.reverse.find? fun c => c.relationOid = oid ∧ c.columnName = name).map
    Column.columnPosition

/-- `_build_constraints`; every oid is one of a relation. -/
def buildConstraints (relations : List Relation) (columns : List Column)
    (pkColumns : List PkColumn) (fkEdges : List FkEdge) : List Constraint :=
  let relByOid (oid : Nat) : Relation :=
    (relations.find? fun r => r.relationOid = oid).getD ⟨oid, [], []⟩
  let pk (entry : Nat × List Str) : Constraint :=
    let rel := relByOid entry.1
    ⟨200000 + entry.1, "pk_".toList ++ rel.relationName, 'p', rel.schemaName, entry.1,
      rel.relationName, entry.2.map fun c => (positionOf columns entry.1 c).getD 0,
      "PRIMARY KEY (".toList ++ join ", ".toList (entry.2.map doubleQuoted) ++ ")".toList⟩
  let fk (edge : FkEdge) : Constraint :=
    let child := relByOid edge.childRelationOid
    let parent := relByOid edge.parentRelationOid
    ⟨300000 + edge.fkConstraintOid, edge.fkConstraintName, 'f', child.schemaName,
      edge.childRelationOid, child.relationName,
      [(positionOf columns edge.childRelationOid edge.childColumnName).getD 1],
      "FOREIGN KEY (".toList ++ doubleQuoted edge.childColumnName ++ ") REFERENCES ".toList ++
        doubleQuoted parent.schemaName ++ ".".toList ++ doubleQuoted parent.relationName ++
        " (".toList ++ doubleQuoted edge.parentColumnName ++ ")".toList⟩
  (pkColsByOid pkColumns).items.map pk ++ fkEdges.map fk

/-- The state behind the last line of a text. -/
def parseLines (text : Str) : ParseState :=
  (splitlines text).foldl (parseLine chars) .start

/-- `parse_dbml` -/
def parseDbml (text : Str) : Snapshot :=
  let s := parseLines chars text
  let fkEdges := fkEdgesOf s
  { schemas := ((s.relations.map Relation.schemaName).dedup).mergeSort fun a b => a ≤ b
    relations := s.relations
    columns := s.columns
    constraints := buildConstraints s.relations s.columns s.pkColumns fkEdges
    pkColumns := s.pkColumns
    fkEdges }

end PgErdCloud.Dbml
