/-
  What the migration generator uses of the DDL exporter (app/ddl/export.py): dialects,
  quoting, and the mapping of column types between dialects.
-/
import PgErdCloud.Lib.PyStr
import PgErdCloud.Diff.Snapshot

namespace PgErdCloud.Ddl

open Lib Lib.PyStr Diff

variable (unicode : Unicode)

/-! ## Dialects and quoting -/

/-- The two dialects. -/
inductive Dialect
  | postgresql
  | snowflake
  deriving DecidableEq, Repr

/-- The name of a dialect. -/
def Dialect.text : Dialect → Str
  | .postgresql => "postgresql".toList
  | .snowflake => "snowflake".toList

/-- The error is the text of the `ValueError`. -/
def normalizeDialect (dialect : Str) : Except Str Dialect :=
  let normalized := replaceChar '_' "-".toList (unicode.lower dialect)
  if normalized ∈ ["postgres".toList, "postgresql".toList, "pg".toList] then .ok .postgresql
  else if normalized ∈ ["snowflake".toList, "sf".toList] then .ok .snowflake
  else .error ("unsupported DDL dialect: ".toList ++ dialect)

/-- The first of the three keys that names a dialect decides. -/
def snapshotSourceDialect {Oid : Type} (s : Snapshot Oid) : Dialect :=
  let named := [s.sourceDialect, s.databaseDialect, s.dialect].filterMap fun value =>
    value.bind fun text => (normalizeDialect unicode text).toOption
  named.headD .postgresql

/-- A quoted identifier. -/
def q (ident : Str) : Str := '"' :: (replaceChar '"' "\"\"".toList ident ++ ['"'])

/-- `_qname` -/
def qname (schema name : Str) : Str := q schema ++ ".".toList ++ q name

/-! ## Column types -/

/-- The keys of a column that the type mapping reads. -/
structure ColumnType where
  dataType : Option Str
  domainBaseType : Option Str
  hasArrayDimensions : Bool

/-- `re.sub(r"\s+", " ", text)`; `inSpace` in a run of whitespace. -/
def collapseSpaces (inSpace : Bool) : Str → Str
  | [] => []
  | c :: cs =>
      if isSpace c then
        if inSpace then collapseSpaces true cs else ' ' :: collapseSpaces true cs
      else c :: collapseSpaces false cs

/-- `_normalize_type_text` -/
def normalizeTypeText (dataType : Str) : Str :=
  collapseSpaces false (unicode.lower (strip dataType))

/-- A nonempty run of digits at the front, and the rest. -/
def takeDigits (s : Str) : Option (Str × Str) :=
  let digits := s.takeWhile unicode.isDigit
  if digits = [] then none else some (digits, s.dropWhile unicode.isDigit)

/-- `(?:\((\d+)\))?$` -/
def matchLength : Str → Option (Option Str)
  | [] => some none
  | '(' :: rest =>
      match takeDigits unicode rest with
      | some (digits, [')']) => some (some digits)
      | _ => none
  | _ => none

/-- `(?:\((\d+)(?:\s*,\s*(\d+))?\))?$` -/
def matchPrecision : Str → Option (Option (Str × Option Str))
  | [] => some none
  | '(' :: rest =>
      match takeDigits unicode rest with
      | none => none
      | some (digits, [')']) => some (some (digits, none))
      | some (digits, rest) =>
          match rest.dropWhile isSpace with
          | ',' :: rest =>
              match takeDigits unicode (rest.dropWhile isSpace) with
              | some (scale, [')']) => some (some (digits, some scale))
              | _ => none
          | _ => none
  | _ => none

/-- A match of one of the names, then `\s*`, then `tail`. -/
def matchNamed {α : Type} (names : List Str) (tail : Str → Option α) (s : Str) : Option α :=
  names.findSome? fun name =>
    if startsWith s name then tail ((s.drop name.length).dropWhile isSpace) else none

/-- `f"{name}({digits})"` or `name`. -/
def withLength (name : Str) : Option Str → Str → Str
  | some digits, _ => name ++ "(".toList ++ digits ++ ")".toList
  | none, bare => bare

/-- The text of a numeric type. -/
def withPrecision (name : Str) : Option (Str × Option Str) → Str
  | none => name
  | some (precision, scale) =>
      name ++ "(".toList ++ precision ++ ",".toList ++ scale.getD "0".toList ++ ")".toList

/-- The table `exact` of `_postgres_type_to_snowflake`. -/
def postgresExact : List (Str × Str) :=
  [("smallint", "NUMBER(5,0)"), ("integer", "NUMBER(10,0)"), ("bigint", "NUMBER(19,0)"),
    ("real", "FLOAT"), ("double precision", "FLOAT"), ("boolean", "BOOLEAN"),
    ("text", "VARCHAR"), ("json", "VARIANT"), ("jsonb", "VARIANT"), ("bytea", "BINARY"),
    ("date", "DATE"), ("uuid", "VARCHAR(36)"), ("inet", "VARCHAR"), ("cidr", "VARCHAR"),
    ("macaddr", "VARCHAR"), ("macaddr8", "VARCHAR"), ("xml", "VARCHAR")].map
      fun e => (e.1.toList, e.2.toList)

/-- `_postgres_type_to_snowflake` of a column without a domain type. -/
def postgresDataTypeToSnowflake (column : ColumnType) (dataType : Option Str) : Str :=
  match dataType with
  | none => "VARCHAR".toList
  | some dataType =>
      let normalized := normalizeTypeText unicode dataType
      if column.hasArrayDimensions || endsWith normalized "[]".toList ||
          startsWith normalized "array".toList then "ARRAY".toList
      else match postgresExact.lookup normalized with
      | some mapped => mapped
      | none =>
          match matchNamed ["numeric".toList, "decimal".toList] (matchPrecision unicode)
              normalized with
          | some precision => withPrecision "NUMBER".toList precision
          | none =>
              match matchNamed ["character varying".toList, "varchar".toList]
                  (matchLength unicode) normalized with
              | some length => withLength "VARCHAR".toList length "VARCHAR".toList
              | none =>
                  match matchNamed ["character".toList, "char".toList] (matchLength unicode)
                      normalized with
                  | some length => withLength "CHAR".toList length "CHAR".toList
                  | none =>
                      if startsWith normalized "timestamp".toList &&
                          contains "with time zone".toList normalized then
                        "TIMESTAMP_TZ".toList
                      else if startsWith normalized "timestamp".toList then
                        "TIMESTAMP_NTZ".toList
                      else if startsWith normalized "time".toList then "TIME".toList
                      -- intervals, and the other types whatever their kind
                      else "VARCHAR".toList

/-- A domain is mapped by its base type. -/
def postgresTypeToSnowflake (column : ColumnType) : Str :=
  match column.domainBaseType with
  | some base => postgresDataTypeToSnowflake unicode column (some base)
  | none => postgresDataTypeToSnowflake unicode column column.dataType

/-- The table `exact` of `_snowflake_type_to_postgres`. -/
def snowflakeExact : List (Str × Str) :=
  [("boolean", "boolean"), ("bool", "boolean"), ("date", "date"), ("time", "time"),
    ("float", "double precision"), ("float4", "real"), ("float8", "double precision"),
    ("double", "double precision"), ("double precision", "double precision"), ("real", "real"),
    ("binary", "bytea"), ("varbinary", "bytea"), ("variant", "jsonb"), ("object", "jsonb"),
    ("array", "jsonb"), ("geography", "jsonb"), ("geometry", "jsonb")].map
      fun e => (e.1.toList, e.2.toList)

/-- `_snowflake_type_to_postgres` -/
def snowflakeTypeToPostgres (column : ColumnType) : Str :=
  match column.dataType with
  | none => "text".toList
  | some dataType =>
      let normalized := normalizeTypeText unicode dataType
      match snowflakeExact.lookup normalized with
      | some mapped => mapped
      | none =>
          match matchNamed ["number".toList, "numeric".toList, "decimal".toList]
              (matchPrecision unicode) normalized with
          | some precision => withPrecision "numeric".toList precision
          | none =>
              match matchNamed ["varchar".toList, "string".toList, "text".toList]
                  (matchLength unicode) normalized with
              | some length => withLength "character varying".toList length "text".toList
              | none =>
                  match matchNamed ["char".toList, "character".toList] (matchLength unicode)
                      normalized with
                  | some length => withLength "character".toList length "character".toList
                  | none =>
                      if startsWith normalized "timestamp_tz".toList ||
                          startsWith normalized "timestamp_ltz".toList then
                        "timestamp with time zone".toList
                      else if startsWith normalized "timestamp".toList then
                        "timestamp without time zone".toList
                      else "text".toList

/-- `_mapped_data_type` -/
def mappedDataType (column : ColumnType) (source target : Dialect) : Str :=
  match column.dataType with
  | none => match target with
      | .postgresql => "text".toList
      | .snowflake => "VARCHAR".toList
  | some dataType =>
      match source, target with
      | .postgresql, .snowflake => postgresTypeToSnowflake unicode column
      | .snowflake, .postgresql => snowflakeTypeToPostgres unicode column
      | .postgresql, .postgresql | .snowflake, .snowflake => dataType

end PgErdCloud.Ddl
