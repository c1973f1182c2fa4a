/-
  What the SQLAlchemy models of a snapshot have to say, line for line, from the rows alone: every
  table with its class, its name, its schema and its comment, and every column with its
  identifier, its type and its arguments. The index that the generator builds and the records that
  it fills stand nowhere in it.
-/
import PgErdCloud.Lib.PyGrammar
import PgErdCloud.Spec.OrmDistinct

namespace PgErdCloud.Spec.Orm

open Lib Lib.PyStr Lib.PyLex Lib.PyGrammar

/-! ## Types -/

/-- The SQL types with a counterpart in Python: how they begin, which they are as a whole, and
    the type that stands for them. -/
def counterparts : List (List String × List String × String) :=
  [(["bigserial", "serial", "smallint", "bigint", "int", "integer"], [], "int"),
    (["bool"], [], "bool"),
    (["timestamp", "datetime"], [], "dt.datetime"),
    ([], ["date"], "dt.date"),
    (["time("], ["time"], "dt.time"),
    (["numeric", "decimal"], [], "Decimal"),
    (["real", "float", "double"], [], "float"),
    (["uuid"], [], "uuid.UUID"),
    (["json", "jsonb"], [], "dict"),
    (["bytea", "varbinary", "binary", "blob"], [], "bytes"),
    (["text", "varchar", "char", "character", "enum"], [], "str")]

/-- A type in lower case that is among those of a line of the table. -/
def IsAmong (lowered : Str) (line : List String × List String × String) : Prop :=
  (∃ word ∈ line.1, word.toList <+: lowered) ∨ ∃ word ∈ line.2.1, lowered = word.toList

instance (lowered : Str) (line : List String × List String × String) :
    Decidable (IsAmong lowered line) :=
  inferInstanceAs (Decidable (_ ∨ _))

variable (unicode : Unicode)

/-- The Python type for an SQL type, whatever blanks are around it and whatever its case. -/
def counterpart (rawType : Str) : Option Str :=
  (counterparts.find? fun line => IsAmong (unicode.lower (strip rawType)) line).map
    fun line => line.2.2.toList

/-! ## Names -/

/-- The identifier of a column: its words with underscores, and one more behind a keyword. -/
def columnIdent (name : Str) : Str :=
  let words := join "_".toList (fullWords name "column".toList)
  if words ∈ pythonKeywords then words ++ "_".toList else words

/-- The class of a table: its parts with capitals, and `Model` behind a keyword. -/
def classIdent (tableName : Str) : Str :=
  if tableWord tableName ∈ pythonKeywords then tableWord tableName ++ "Model".toList
  else tableWord tableName

/-! ## Rows -/

variable (s : Snapshot)

/-- The tables and the partitioned tables. -/
def tables : List RelationRow :=
  s.relations.filter fun rel =>
    rel.relationKind = none ∨ rel.relationKind = some [] ∨
      rel.relationKind = some "r".toList ∨ rel.relationKind = some "p".toList

/-- The columns of a table by their positions; those with one position stay as they come. -/
def columnsOf (rel : RelationRow) : List ColumnRow :=
  (s.columns.filter fun col => col.relationOid = rel.relationOid).insertionSort
    fun a b => a.columnPosition.getD 0 ≤ b.columnPosition.getD 0

/-- What a column refers to, as `schema.table.column` without the schema `public`: the last row of
    `fk_edges` for the column counts, and the last table with the parent's oid. -/
def reference (col : ColumnRow) : Option Str := do
  let fk ← (s.fkEdges.filter fun fk =>
    fk.childRelationOid = col.relationOid ∧ fk.childColumnName = col.columnName).getLast?
  let parent ← ((tables s).filter fun rel => rel.relationOid = fk.parentRelationOid).getLast?
  some (join ".".toList ((if parent.schemaName = "public".toList then [] else [parent.schemaName])
    ++ [parent.relationName, fk.parentColumnName]))

/-! ## Lines -/

/-- `dt.date` -/
def typeTokens (pyType : Str) : List Token := dotted (split '.' pyType)

/-- A line of the body without comment. -/
def bodyLine (tokens : List Token) : Line := ⟨4, tokens, none⟩

/-- A line of the header without comment. -/
def headerLine (words : List String) : Line := ⟨0, words.map fun word => .name word.toList, none⟩

/-- `class Name(Base):` -/
def classLine (name base : Str) : Line where
  indent := 0
  tokens := [Token.name "class".toList, Token.name name, Token.mark '(', Token.name base,
    Token.mark ')', Token.mark ':']
  comment := none

/-- The comment, the imports and the class `Base` that every module begins with. -/
def parsedHeader : List Line :=
  [⟨0, [], some " Generated by pg-erd-cloud — SQLAlchemy 2.0 models (edit freely)".toList⟩,
    headerLine ["from", "__future__", "import", "annotations"],
    Line.blank,
    headerLine ["import", "datetime", "as", "dt"],
    headerLine ["import", "uuid"],
    headerLine ["from", "decimal", "import", "Decimal"],
    Line.blank,
    headerLine ["from", "sqlalchemy", "import", "ForeignKey"],
    ⟨0, Token.name "from".toList :: (dotted ["sqlalchemy".toList, "orm".toList] ++
      [Token.name "import".toList] ++ commas [[Token.name "DeclarativeBase".toList],
        [Token.name "Mapped".toList], [Token.name "mapped_column".toList]]), none⟩,
    Line.blank,
    Line.blank,
    classLine "Base".toList "DeclarativeBase".toList,
    bodyLine [Token.name "pass".toList]]

/-- What `mapped_column` gets: the name where the identifier is another one, the column that a
    foreign key refers to, and `primary_key=True` for a column of the primary key. -/
def columnArgs (col : ColumnRow) : List (List Token) :=
  (if columnIdent col.columnName = col.columnName then [] else [[Token.str col.columnName]]) ++
    ((reference s col).map fun target => [Token.name "ForeignKey".toList, Token.mark '(',
      Token.str target, Token.mark ')']).toList ++
    if PkRow.mk col.relationOid col.columnName ∈ s.pkColumns then
      [keywordArg ("primary_key".toList, [Token.name "True".toList])] else []

/-- `name: Mapped[type | None] = mapped_column(…)`; a type without counterpart stands behind `#`. -/
def columnLine (col : ColumnRow) : Line where
  indent := 4
  tokens := [Token.name (columnIdent col.columnName), Token.mark ':',
      Token.name "Mapped".toList, Token.mark '['] ++
    typeTokens ((counterpart unicode (text col.dataType)).getD "str".toList) ++
    (if col.isNotNull then [] else [Token.mark '|', Token.name "None".toList]) ++
    [Token.mark ']', Token.mark '=', Token.name "mapped_column".toList, Token.mark '('] ++
    commas (columnArgs s col) ++ [Token.mark ')']
  comment := if counterpart unicode (text col.dataType) = none then
    some (" type: ".toList ++ text col.dataType) else none

/-- The class of a table: its comment, its name, its schema and its columns. -/
def tableLines (rel : RelationRow) : List Line :=
  [Line.blank, Line.blank, classLine (classIdent rel.relationName) "Base".toList] ++
    (if text rel.relationComment = [] then []
      else [bodyLine [Token.str (text rel.relationComment)], Line.blank]) ++
    [bodyLine [Token.name "__tablename__".toList, Token.mark '=', Token.str rel.relationName]] ++
    (if rel.schemaName ∈ [[], "public".toList] then []
      else [bodyLine [Token.name "__table_args__".toList, Token.mark '=', Token.mark '\x7b',
        Token.str "schema".toList, Token.mark ':', Token.str rel.schemaName,
        Token.mark '\x7d']]) ++
    if columnsOf s rel = [] then [bodyLine [Token.name "pass".toList]]
    else (columnsOf s rel).map (columnLine unicode s)

/-- The lines with the strings of the rows: in names, in string literals and in comments. -/
def expectedModule : List Line :=
  parsedHeader ++ (tables s).flatMap (tableLines unicode s) ++ [Line.blank]

/-- The types without counterpart, of the columns of tables. -/
def unmappedTypes : List Str :=
  (((tables s).flatMap (columnsOf s)).map fun col => text col.dataType).filter
    fun rawType => counterpart unicode rawType = none

end PgErdCloud.Spec.Orm
