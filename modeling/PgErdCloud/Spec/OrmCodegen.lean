/-
  Models for an ORM from a snapshot (app/spec/orm_codegen.py): SQLAlchemy, Prisma and TypeORM.
  What is emitted is a list of declarations; a declaration knows the names it declares, and its
  lines are made of it. Names are texts here: no catalog has a table or a column without one.
-/
import PgErdCloud.Lib.Dict
import PgErdCloud.Spec.OrmNames

namespace PgErdCloud.Spec.Orm

open Lib Lib.PyStr

/-! ## Rows -/

/-- A row of `relations`. -/
structure RelationRow where
  relationOid : Option Int
  relationKind : Option Str
  schemaName : Str
  relationName : Str
  relationComment : Option Str
  deriving DecidableEq

/-- A row of `columns`. -/
structure ColumnRow where
  relationOid : Option Int
  columnName : Str
  columnPosition : Option Int
  dataType : Option Str
  isNotNull : Bool
  deriving DecidableEq

/-- A row of `pk_columns`. -/
structure PkRow where
  relationOid : Option Int
  columnName : Str
  deriving DecidableEq

/-- A row of `fk_edges`. -/
structure EdgeRow where
  childRelationOid : Option Int
  parentRelationOid : Option Int
  childColumnName : Str
  parentColumnName : Str
  deriving DecidableEq

/-- The rows that the three generators read. -/
structure Snapshot where
  relations : List RelationRow
  columns : List ColumnRow
  pkColumns : List PkRow
  fkEdges : List EdgeRow

/-- `str(value or "")` -/
def text (value : Option Str) : Str := value.getD []

/-! ## Types -/

/-- A table of patterns, and what a type that matches becomes. -/
abbrev TypeTable := List ((Str → Bool) × Str)

/-- `^(…|…)` -/
def starts (words : List String) (s : Str) : Bool :=
  words.any fun word => startsWith s word.toList

/-- `^date$` -/
def isDate (s : Str) : Bool := s = "date".toList

/-- `^time($|\()` -/
def isTime (s : Str) : Bool := s = "time".toList || startsWith s "time(".toList

/-- `_PY_TYPES` -/
def pyTypes : TypeTable :=
  [(starts ["bigserial", "serial", "smallint", "bigint", "int", "integer"], "int".toList),
    (starts ["bool"], "bool".toList),
    (starts ["timestamp", "datetime"], "dt.datetime".toList),
    (isDate, "dt.date".toList),
    (isTime, "dt.time".toList),
    (starts ["numeric", "decimal"], "Decimal".toList),
    (starts ["real", "float", "double"], "float".toList),
    (starts ["uuid"], "uuid.UUID".toList),
    (starts ["json", "jsonb"], "dict".toList),
    (starts ["bytea", "varbinary", "binary", "blob"], "bytes".toList),
    (starts ["text", "varchar", "char", "character", "enum"], "str".toList)]

/-- `_PRISMA_TYPES` -/
def prismaTypes : TypeTable :=
  [(starts ["bigserial", "bigint"], "BigInt".toList),
    (starts ["serial", "smallint", "int", "integer"], "Int".toList),
    (starts ["bool"], "Boolean".toList),
    (fun s => starts ["timestamp", "datetime"] s || isDate s || isTime s, "DateTime".toList),
    (starts ["numeric", "decimal"], "Decimal".toList),
    (starts ["real", "float", "double"], "Float".toList),
    (starts ["json", "jsonb"], "Json".toList),
    (starts ["bytea", "varbinary", "binary", "blob"], "Bytes".toList)]

/-- `_TS_TYPES` -/
def tsTypes : TypeTable :=
  [(starts ["bigserial", "serial", "smallint", "bigint", "int", "integer", "real", "float",
      "double", "numeric", "decimal"], "number".toList),
    (starts ["bool"], "boolean".toList),
    (fun s => starts ["timestamp", "datetime"] s || isDate s || isTime s, "Date".toList),
    (starts ["json", "jsonb"], "object".toList),
    (starts ["bytea", "varbinary", "binary", "blob"], "Buffer".toList)]

variable (unicode : Unicode)

/-- `_map_type` before the default; a type that no pattern matches is `none`. -/
def mapType (dataType : Str) (table : TypeTable) : Option Str :=
  let lowered := unicode.lower (strip dataType)
  (table.find? fun line => line.1 lowered).map (·.2)

/-- Whether the comment with the type is left out: its text in the file says as much. -/
def isPlainType (rawType : Str) (table : TypeTable) (default : Str) : Bool :=
  (mapType unicode rawType table ≠ none && (mapType unicode rawType table).getD default ≠ default)
    || starts ["text", "varchar", "char"] (unicode.lower rawType)

/-! ## Text in the output -/

/-- `f"{n:0{width}x}"` -/
def hex (width n : Nat) : Str :=
  let digits := Nat.toDigits 16 n
  List.replicate (width - digits.length) '0' ++ digits

/-- `json.dumps` of a text: what is not ASCII is escaped, in two halves from U+10000 on. -/
def jsonChar (ch : Char) : Str :=
  if ch = '"' then "\\\"".toList
  else if ch = '\\' then "\\\\".toList
  else if ch = '\n' then "\\n".toList
  else if ch = '\r' then "\\r".toList
  else if ch = '\t' then "\\t".toList
  else if ch.toNat = 8 then "\\b".toList
  else if ch.toNat = 12 then "\\f".toList
  else if 32 ≤ ch.toNat ∧ ch.toNat < 127 then [ch]
  else if ch.toNat < 0x10000 then "\\u".toList ++ hex 4 ch.toNat
  else
    "\\u".toList ++ hex 4 (0xD800 + (ch.toNat - 0x10000) / 1024) ++
      "\\u".toList ++ hex 4 (0xDC00 + (ch.toNat - 0x10000) % 1024)

/-- `json.dumps` of a text. -/
def jsonDumps (s : Str) : Str := ['"'] ++ s.flatMap jsonChar ++ ['"']

/-- `str.isprintable` for a character that is not ASCII. -/
abbrev Printable := Char → Bool

/-- The quote that `repr` takes: the single one, unless only that one is in the text. -/
def reprQuote (s : Str) : Char := if '\'' ∈ s ∧ '"' ∉ s then '"' else '\''

/-- A character within `repr`. -/
def reprChar (isPrintable : Printable) (quote ch : Char) : Str :=
  if ch = quote ∨ ch = '\\' then ['\\', ch]
  else if ch = '\t' then "\\t".toList
  else if ch = '\n' then "\\n".toList
  else if ch = '\r' then "\\r".toList
  else if ch.toNat < 32 ∨ ch.toNat = 127 then "\\x".toList ++ hex 2 ch.toNat
  else if ch.toNat < 127 ∨ isPrintable ch then [ch]
  else if ch.toNat < 0x100 then "\\x".toList ++ hex 2 ch.toNat
  else if ch.toNat < 0x10000 then "\\u".toList ++ hex 4 ch.toNat
  else "\\U".toList ++ hex 8 ch.toNat

/-- `repr` -/
def reprStr (isPrintable : Printable) (s : Str) : Str :=
  [reprQuote s] ++ s.flatMap (reprChar isPrintable (reprQuote s)) ++ [reprQuote s]

/-! ## The index of a snapshot -/

/-- `_index` -/
structure Index where
  relations : List RelationRow
  colsByOid : Dict (Option Int) (List ColumnRow)
  pkByOid : Dict (Option Int) (List Str)
  fkByChild : Dict (Option Int × Str) EdgeRow
  relByOid : Dict (Option Int) RelationRow

/-- `(r.get("relation_kind") or "r") in ("r", "p")` -/
def isTable (rel : RelationRow) : Bool :=
  text rel.relationKind ∈ ["".toList, "r".toList, "p".toList]

/-- `_index` -/
def index (s : Snapshot) : Index where
  relations := s.relations.filter isTable
  colsByOid := s.columns.foldl (Dict.groupAt (fun c => some c.relationOid) id) .empty
  pkByOid := s.pkColumns.foldl (Dict.upsertAt (fun pk => some pk.relationOid) []
    fun pk names => names.insert pk.columnName) .empty
  fkByChild := s.fkEdges.foldl
    (fun d e => d.set (e.childRelationOid, e.childColumnName) e) .empty
  relByOid := (s.relations.filter isTable).foldl (fun d rel => d.set rel.relationOid rel) .empty

/-- `ix["cols_by_oid"].get(oid, [])`, by position -/
def Index.cols (ix : Index) (oid : Option Int) : List ColumnRow :=
  ((ix.colsByOid.get? oid).getD []).insertionSort fun a b =>
    a.columnPosition.getD 0 ≤ b.columnPosition.getD 0

/-- `ix["pk_by_oid"].get(oid, set())` -/
def Index.pks (ix : Index) (oid : Option Int) : List Str := (ix.pkByOid.get? oid).getD []

/-- `_column_names` -/
def columnNames (cols : List ColumnRow) : Dict Str Str :=
  cols.foldl (fun d c => d.set c.columnName (snakeName c.columnName "column".toList)) .empty

/-- `col_names.get(name, _snake_name(name, "column"))` -/
def fieldName (cols : List ColumnRow) (name : Str) : Str :=
  ((columnNames cols).get? name).getD (snakeName name "column".toList)

/-! ## SQLAlchemy -/

/-- An attribute that stands for a column. -/
structure Attribute where
  name : Str
  pyType : Str
  nullable : Bool
  columnName : Option Str
  foreignKey : Option Str
  primaryKey : Bool
  comment : Option Str
  deriving DecidableEq

/-- A class that stands for a table. -/
structure ModelClass where
  name : Str
  comment : Option Str
  tableName : Str
  schema : Option Str
  attributes : List Attribute
  deriving DecidableEq

/-- What `ForeignKey` names: the schema is left out where it is `public`. -/
def foreignKeyTarget (parent : RelationRow) (fk : EdgeRow) : Str :=
  let column := parent.relationName ++ ".".toList ++ fk.parentColumnName
  if parent.schemaName = "public".toList then column
  else parent.schemaName ++ ".".toList ++ column

/-- The attribute of a column. Its own name is repeated where the attribute has another. -/
def columnAttribute (ix : Index) (oid : Option Int) (col : ColumnRow) : Attribute :=
  let name := col.columnName
  let attr := fieldName (ix.cols oid) name
  let rawType := text col.dataType
  let mapped := mapType unicode rawType pyTypes
  { name := attr
    pyType := mapped.getD "str".toList
    nullable := !col.isNotNull
    columnName := if attr ≠ name then some name else none
    foreignKey := (ix.fkByChild.get? (oid, name)).bind fun fk =>
      (ix.relByOid.get? fk.parentRelationOid).map fun parent => foreignKeyTarget parent fk
    primaryKey := name ∈ ix.pks oid
    comment := if mapped = none then some rawType else none }

/-- The class of a table, with its schema where that is not `public`. -/
def modelClass (ix : Index) (rel : RelationRow) : ModelClass where
  name := className rel.relationName
  comment := if text rel.relationComment = [] then none else rel.relationComment
  tableName := rel.relationName
  schema := if rel.schemaName ≠ [] ∧ rel.schemaName ≠ "public".toList then some rel.schemaName
    else none
  attributes := (ix.cols rel.relationOid).map (columnAttribute unicode ix rel.relationOid)

variable (isPrintable : Printable)

/-- The arguments of `mapped_column`. -/
def Attribute.args (attr : Attribute) : List Str :=
  (attr.columnName.map (reprStr isPrintable)).toList ++
    (attr.foreignKey.map fun target =>
      "ForeignKey(".toList ++ reprStr isPrintable target ++ ")".toList).toList ++
    if attr.primaryKey then ["primary_key=True".toList] else []

/-- The line of an attribute; the type behind `#` stands as the database prints it. -/
def Attribute.line (attr : Attribute) : Str :=
  "    ".toList ++ attr.name ++ ": Mapped[".toList ++ attr.pyType ++
    (if attr.nullable then " | None".toList else []) ++ "] = mapped_column(".toList ++
    join ", ".toList (attr.args isPrintable) ++ ")".toList ++
    (attr.comment.map fun rawType => "  # type: ".toList ++ rawType).getD []

/-- The lines of a class, behind two empty ones. -/
def ModelClass.lines (model : ModelClass) : List Str :=
  [[], [], "class ".toList ++ model.name ++ "(Base):".toList] ++
    (model.comment.map fun comment => ["    ".toList ++ reprStr isPrintable comment, []]).getD [] ++
    ["    __tablename__ = ".toList ++ reprStr isPrintable model.tableName] ++
    (model.schema.map fun schema => "    __table_args__ = \x7b'schema': ".toList ++
      reprStr isPrintable schema ++ "\x7d".toList).toList ++
    if model.attributes = [] then ["    pass".toList]
    else model.attributes.map (Attribute.line isPrintable)

/-- What the file begins with. -/
def sqlalchemyHeader : List Str :=
  ["# Generated by pg-erd-cloud — SQLAlchemy 2.0 models (edit freely)",
    "from __future__ import annotations",
    "",
    "import datetime as dt",
    "import uuid",
    "from decimal import Decimal",
    "",
    "from sqlalchemy import ForeignKey",
    "from sqlalchemy.orm import DeclarativeBase, Mapped, mapped_column",
    "",
    "",
    "class Base(DeclarativeBase):",
    "    pass"].map String.toList

/-- The classes of the file. -/
def modelClasses (s : Snapshot) : List ModelClass :=
  (index s).relations.map (modelClass unicode (index s))

/-- `generate_sqlalchemy_models` -/
def generateSqlalchemyModels (s : Snapshot) : Str :=
  join "\n".toList
    (sqlalchemyHeader ++ (modelClasses unicode s).flatMap (ModelClass.lines isPrintable)) ++
    "\n".toList

/-! ## Foreign keys of a table -/

/-- A foreign key to a table that the snapshot knows. -/
structure Forward where
  childCol : Str
  edge : EdgeRow
  parent : RelationRow

/-- The foreign keys of a table, one for each of its columns that has one. -/
def Index.forward (ix : Index) (oid : Option Int) : List Forward :=
  (ix.fkByChild.items.filter (·.1.1 = oid)).filterMap fun entry =>
    (ix.relByOid.get? entry.2.parentRelationOid).map fun parent => ⟨entry.1.2, entry.2, parent⟩

/-- `children_of` -/
def Index.childrenOf (ix : Index) : Dict (Option Int) (List EdgeRow) :=
  ix.fkByChild.values.foldl (Dict.groupAt (fun e => some e.parentRelationOid) id) .empty

/-- The tables whose foreign keys lead to this one, one time for each column. -/
def Index.reverse (ix : Index) (oid : Option Int) : List RelationRow :=
  ((ix.childrenOf.get? oid).getD []).filterMap fun e => ix.relByOid.get? e.childRelationOid

/-- `re.sub(r"_id$", "", s)` -/
def dropId (s : Str) : Str := if endsWith s "_id".toList then s.dropLast.dropLast.dropLast else s

/-- `re.sub(r"_id$", "", child_field) or _snake_name(pmodel, "relation")` -/
def relationField (childField parentClass : Str) : Str :=
  if dropId childField = [] then snakeName parentClass "relation".toList else dropId childField

/-- `cmodel[0].lower() + cmodel[1:] + "s"` -/
def pluralName : Str → Str
  | [] => "s".toList
  | ch :: s => ch.toLower :: s ++ "s".toList

/-! ## Prisma -/

/-- A field: its name, and what stands behind it on its line. -/
structure Field where
  name : Str
  rest : Str
  deriving DecidableEq

/-- A model that stands for a table; it has several fields as its key, or none named so. -/
structure PrismaModel where
  name : Str
  columns : List Field
  forward : List Field
  reverse : List Field
  ids : Option (List Str)
  table : Str
  deriving DecidableEq

/-- All fields, in the order of the file. -/
def PrismaModel.fields (model : PrismaModel) : List Field :=
  model.columns ++ model.forward ++ model.reverse

/-- The field of a column. -/
def scalarField (ix : Index) (oid : Option Int) (col : ColumnRow) : Field :=
  let name := col.columnName
  let field := fieldName (ix.cols oid) name
  let rawType := text col.dataType
  let attrs :=
    (if name ∈ ix.pks oid ∧ (ix.pks oid).length = 1 then ["@id".toList] else []) ++
      if field ≠ name then ["@map(".toList ++ jsonDumps name ++ ")".toList] else []
  { name := field
    rest := (mapType unicode rawType prismaTypes).getD "String".toList ++
      (if col.isNotNull then [] else "?".toList) ++
      (if attrs = [] then [] else " ".toList ++ join " ".toList attrs) ++
      if isPlainType unicode rawType prismaTypes "String".toList then []
      else " // ".toList ++ rawType }

/-- The field of a foreign key, next to that of its column. -/
def forwardField (ix : Index) (oid : Option Int) (fk : Forward) : Field :=
  let model := className fk.parent.relationName
  let childField := fieldName (ix.cols oid) fk.childCol
  let parentField := fieldName (ix.cols fk.edge.parentRelationOid) fk.edge.parentColumnName
  { name := relationField childField model
    rest := model ++ " @relation(fields: [".toList ++ childField ++ "], references: [".toList ++
      parentField ++ "])".toList }

/-- The field for the rows of another table that refer to this one. -/
def reverseField (child : RelationRow) : Field where
  name := pluralName (className child.relationName)
  rest := className child.relationName ++ "[]".toList

/-- The model of a table. -/
def prismaModel (ix : Index) (rel : RelationRow) : PrismaModel :=
  let oid := rel.relationOid
  { name := className rel.relationName
    columns := (ix.cols oid).map (scalarField unicode ix oid)
    forward := (ix.forward oid).map (forwardField ix oid)
    reverse := (ix.reverse oid).map reverseField
    ids := if (ix.pks oid).length > 1 then
        some (((ix.cols oid).filter (·.columnName ∈ ix.pks oid)).map
          fun col => fieldName (ix.cols oid) col.columnName)
      else none
    table := rel.relationName }

/-- The line of a field. -/
def Field.line (field : Field) : Str := "  ".toList ++ field.name ++ " ".toList ++ field.rest

/-- The lines of a model, behind an empty one. -/
def PrismaModel.lines (model : PrismaModel) : List Str :=
  [[], "model ".toList ++ model.name ++ " \x7b".toList] ++ model.fields.map Field.line ++
    (model.ids.map fun ids => "  @@id([".toList ++ join ", ".toList ids ++ "])".toList).toList ++
    ["  @@map(".toList ++ jsonDumps model.table ++ ")".toList, "\x7d".toList]

/-- What the file begins with. -/
def prismaHeader : List Str :=
  ["// Generated by pg-erd-cloud — Prisma schema (edit freely)",
    "datasource db \x7b",
    "  provider = \"postgresql\"",
    "  url      = env(\"DATABASE_URL\")",
    "\x7d"].map String.toList

/-- The models of the file. -/
def prismaModels (s : Snapshot) : List PrismaModel :=
  (index s).relations.map (prismaModel unicode (index s))

/-- `generate_prisma_schema` -/
def generatePrismaSchema (s : Snapshot) : Str :=
  join "\n".toList (prismaHeader ++ (prismaModels unicode s).flatMap PrismaModel.lines) ++
    "\n".toList

/-! ## TypeORM -/

/-- A property of an entity, under its decorators. -/
structure Property where
  decorators : List Str
  name : Str
  rest : Str
  deriving DecidableEq

/-- An entity that stands for a table. -/
structure Entity where
  args : Str
  name : Str
  columns : List Property
  forward : List Property
  reverse : List Property
  deriving DecidableEq

/-- The property of a column. -/
def columnProperty (ix : Index) (oid : Option Int) (col : ColumnRow) : Property :=
  let name := col.columnName
  let field := fieldName (ix.cols oid) name
  let rawType := text col.dataType
  let nullable := !col.isNotNull
  let isPk : Bool := name ∈ ix.pks oid
  let options :=
    (if field ≠ name then ["name: ".toList ++ jsonDumps name] else []) ++
      if nullable && !isPk then ["nullable: true".toList] else []
  let args :=
    if options = [] then [] else "\x7b".toList ++ join ", ".toList options ++ "\x7d".toList
  { decorators := [(if isPk then "@PrimaryColumn".toList else "@Column".toList) ++
      "(".toList ++ args ++ ")".toList]
    name := field
    rest := (if nullable then "?".toList else "!".toList) ++ ": ".toList ++
      (mapType unicode rawType tsTypes).getD "string".toList ++
      (if nullable then " | null".toList else []) ++ ";".toList ++
      if isPlainType unicode rawType tsTypes "string".toList then []
      else " // ".toList ++ rawType }

/-- The property of a foreign key, next to that of its column. -/
def forwardProperty (ix : Index) (oid : Option Int) (fk : Forward) : Property :=
  let cls := className fk.parent.relationName
  { decorators := ["@ManyToOne(() => ".toList ++ cls ++ ")".toList,
      "@JoinColumn(\x7b name: ".toList ++ jsonDumps fk.childCol ++ " \x7d)".toList]
    name := relationField (fieldName (ix.cols oid) fk.childCol) cls
    rest := "?: ".toList ++ cls ++ ";".toList }

/-- The property for the rows of another table that refer to this one. -/
def reverseProperty (child : RelationRow) : Property :=
  let cls := className child.relationName
  { decorators := ["@OneToMany(() => ".toList ++ cls ++ ", (child) => child)".toList]
    name := pluralName cls
    rest := "?: ".toList ++ cls ++ "[];".toList }

/-- The entity of a table. -/
def entity (ix : Index) (rel : RelationRow) : Entity :=
  let oid := rel.relationOid
  { args := if rel.schemaName = "public".toList then jsonDumps rel.relationName
      else "\x7b name: ".toList ++ jsonDumps rel.relationName ++ ", schema: ".toList ++
        jsonDumps rel.schemaName ++ " \x7d".toList
    name := className rel.relationName
    columns := (ix.cols oid).map (columnProperty unicode ix oid)
    forward := (ix.forward oid).map (forwardProperty ix oid)
    reverse := (ix.reverse oid).map reverseProperty }

/-- The decorators of a property, its line and an empty one. -/
def Property.lines (property : Property) : List Str :=
  property.decorators.map ("  ".toList ++ ·) ++
    ["  ".toList ++ property.name ++ property.rest, []]

/-- `while lines and lines[-1] == "": lines.pop()` -/
def dropBlankEnd (lines : List Str) : List Str := lines.rdropWhile (· = [])

/-- The lines of an entity, behind an empty one. -/
def Entity.lines (e : Entity) : List Str :=
  dropBlankEnd ([[], "@Entity(".toList ++ e.args ++ ")".toList,
    "export class ".toList ++ e.name ++ " \x7b".toList] ++
    (e.columns ++ e.forward ++ e.reverse).flatMap Property.lines) ++ ["\x7d".toList]

/-- What the file begins with. -/
def typeormHeader : List Str :=
  ["// Generated by pg-erd-cloud — TypeORM entities (edit freely)",
    "import \x7b",
    "  Column,",
    "  Entity,",
    "  JoinColumn,",
    "  ManyToOne,",
    "  OneToMany,",
    "  PrimaryColumn,",
    "\x7d from 'typeorm';"].map String.toList

/-- The entities of the file. -/
def entities (s : Snapshot) : List Entity :=
  (index s).relations.map (entity unicode (index s))

/-- `generate_typeorm_entities` -/
def generateTypeormEntities (s : Snapshot) : Str :=
  join "\n".toList (typeormHeader ++ (entities unicode s).flatMap Entity.lines) ++ "\n".toList

end PgErdCloud.Spec.Orm
