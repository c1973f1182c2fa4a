/-
  The column types of the two generators. The exporter maps the row of a column, the migration
  only its `data_type`: the index by name keeps nothing else. From PostgreSQL to Snowflake the
  row matters. A domain is mapped by its base type, and array dimensions make an array of any
  type, so the types can differ there, and only there.

  The mapping goes by classes of types (`SqlType`), which it writes as distinct texts. So the
  types agree exactly when the declared type and the one that the exporter maps are of one
  class.

  `colType_eq_mappedDataType_iff` is about every column row and both dialects on each side: the
  two come to one type exactly where the declared type and what is behind it, a domain's base type
  or dimensions, do. A comma is assumed to be no digit.
-/
import PgErdCloud.Ddl.MigrationFacts
import PgErdCloud.Ddl.Export
import PgErdCloud.Lib.Cut

namespace PgErdCloud.Ddl

open Lib Lib.PyStr Diff

/-! ## Classes of types -/

/-- The classes of scalar types, whatever their arguments. -/
inductive TypeKind
  | number
  | float
  | boolean
  | varchar
  | char
  | variant
  | binary
  | date
  | time
  | timestampTz
  | timestampNtz
  deriving DecidableEq

/-- A scalar type: its kind, its length or precision, and its scale. -/
structure SqlType where
  kind : TypeKind
  arguments : Option (Str × Option Str)
  deriving DecidableEq

/-- The name of a type in Snowflake. -/
def TypeKind.name : TypeKind → Str
  | .number => "NUMBER".toList
  | .float => "FLOAT".toList
  | .boolean => "BOOLEAN".toList
  | .varchar => "VARCHAR".toList
  | .char => "CHAR".toList
  | .variant => "VARIANT".toList
  | .binary => "BINARY".toList
  | .date => "DATE".toList
  | .time => "TIME".toList
  | .timestampTz => "TIMESTAMP_TZ".toList
  | .timestampNtz => "TIMESTAMP_NTZ".toList

/-- The arguments in parentheses. -/
def argumentsText : Option (Str × Option Str) → Str
  | none => []
  | some (first, none) => "(".toList ++ first ++ ")".toList
  | some (first, some second) => "(".toList ++ first ++ ",".toList ++ second ++ ")".toList

/-- The type as Snowflake prints it. -/
def SqlType.text (type : SqlType) : Str := type.kind.name ++ argumentsText type.arguments

/-- An integer of so many digits. -/
def integerType (digits : Str) : SqlType := ⟨.number, some (digits, some "0".toList)⟩

/-- The class of a type that is known by its name. -/
def namedClasses : List (Str × SqlType) :=
  [("smallint".toList, integerType "5".toList), ("integer".toList, integerType "10".toList),
    ("bigint".toList, integerType "19".toList), ("real".toList, ⟨.float, none⟩),
    ("double precision".toList, ⟨.float, none⟩), ("boolean".toList, ⟨.boolean, none⟩),
    ("text".toList, ⟨.varchar, none⟩), ("json".toList, ⟨.variant, none⟩),
    ("jsonb".toList, ⟨.variant, none⟩), ("bytea".toList, ⟨.binary, none⟩),
    ("date".toList, ⟨.date, none⟩), ("uuid".toList, ⟨.varchar, some ("36".toList, none)⟩),
    ("inet".toList, ⟨.varchar, none⟩), ("cidr".toList, ⟨.varchar, none⟩),
    ("macaddr".toList, ⟨.varchar, none⟩), ("macaddr8".toList, ⟨.varchar, none⟩),
    ("xml".toList, ⟨.varchar, none⟩)]

variable (unicode : Unicode)

/-- `integer[]`, or a text that begins with `array`. -/
def isArrayText (dataType : Str) : Bool :=
  let normalized := normalizeTypeText unicode dataType
  endsWith normalized "[]".toList || startsWith normalized "array".toList

/-- The class of the text of a PostgreSQL type that is no array. -/
def scalarType (dataType : Str) : SqlType :=
  let normalized := normalizeTypeText unicode dataType
  match namedClasses.lookup normalized with
  | some type => type
  | none =>
      match matchNamed ["numeric".toList, "decimal".toList] (matchPrecision unicode) normalized with
      | some precision => ⟨.number, precision.map fun p => (p.1, some (p.2.getD "0".toList))⟩
      | none =>
          match matchNamed ["character varying".toList, "varchar".toList] (matchLength unicode)
              normalized with
          | some length => ⟨.varchar, length.map fun digits => (digits, none)⟩
          | none =>
              match matchNamed ["character".toList, "char".toList] (matchLength unicode)
                  normalized with
              | some length => ⟨.char, length.map fun digits => (digits, none)⟩
              | none =>
                  if startsWith normalized "timestamp".toList &&
                      contains "with time zone".toList normalized then ⟨.timestampTz, none⟩
                  else if startsWith normalized "timestamp".toList then ⟨.timestampNtz, none⟩
                  else if startsWith normalized "time".toList then ⟨.time, none⟩
                  else ⟨.varchar, none⟩

theorem postgresExact_eq : postgresExact = namedClasses.map fun e => (e.1, e.2.text) := by
  decide

theorem lookup_postgresExact (name : Str) :
    postgresExact.lookup name = (namedClasses.lookup name).map SqlType.text := by
  rw [postgresExact_eq]
  induction namedClasses with
  | nil => rfl
  | cons e es ih =>
      rw [List.map_cons, List.lookup_cons, List.lookup_cons]
      cases name == e.1 with
      | true => rfl
      | false => exact ih

theorem text_bare (kind : TypeKind) : (SqlType.mk kind none).text = kind.name :=
  List.append_nil _

theorem withPrecision_eq (precision : Option (Str × Option Str)) :
    withPrecision TypeKind.number.name precision =
      (SqlType.mk .number (precision.map fun p => (p.1, some (p.2.getD "0".toList)))).text := by
  cases precision with
  | none => exact (text_bare .number).symm
  | some p => simp only [withPrecision, Option.map_some, SqlType.text, argumentsText,
      List.append_assoc]

theorem withLength_eq (kind : TypeKind) (length : Option Str) :
    withLength kind.name length kind.name =
      (SqlType.mk kind (length.map fun digits => (digits, none))).text := by
  cases length with
  | none => exact (text_bare kind).symm
  | some digits => simp only [withLength, Option.map_some, SqlType.text, argumentsText,
      List.append_assoc]

/-- The mapping writes the class. -/
theorem postgresDataTypeToSnowflake_eq (column : ColumnType) (dataType : Str) :
    postgresDataTypeToSnowflake unicode column (some dataType) =
      if column.hasArrayDimensions || isArrayText unicode dataType then "ARRAY".toList
      else (scalarType unicode dataType).text := by
  unfold postgresDataTypeToSnowflake isArrayText scalarType
  simp only [Bool.or_assoc, lookup_postgresExact]
  split
  · rfl
  · cases namedClasses.lookup (normalizeTypeText unicode dataType) with
    | some type => rfl
    | none =>
        simp only [Option.map_none]
        generalize matchNamed ["numeric".toList, "decimal".toList] _ _ = numeric
        generalize matchNamed ["character varying".toList, "varchar".toList] _ _ = varchar
        generalize matchNamed ["character".toList, "char".toList] _ _ = char
        cases numeric with
        | some precision => exact withPrecision_eq precision
        | none =>
            cases varchar with
            | some length => exact withLength_eq .varchar length
            | none =>
                cases char with
                | some length => exact withLength_eq .char length
                | none =>
                    dsimp only
                    split_ifs
                    · exact (text_bare .timestampTz).symm
                    · exact (text_bare .timestampNtz).symm
                    · exact (text_bare .time).symm
                    · exact (text_bare .varchar).symm

/-- A domain is mapped as its base type. -/
theorem postgresTypeToSnowflake_eq (declared : Str) (domainBaseType : Option Str) (dims : Bool) :
    postgresTypeToSnowflake unicode ⟨some declared, domainBaseType, dims⟩ =
      if dims || isArrayText unicode (domainBaseType.getD declared) then "ARRAY".toList
      else (scalarType unicode (domainBaseType.getD declared)).text := by
  cases domainBaseType with
  | none => exact postgresDataTypeToSnowflake_eq unicode _ declared
  | some base => exact postgresDataTypeToSnowflake_eq unicode _ base

/-! ## Distinct classes have distinct texts -/

theorem takeDigits_eq_some {s digits rest : Str} (h : takeDigits unicode s = some (digits, rest)) :
    ∀ ch ∈ digits, unicode.isDigit ch = true := by
  unfold takeDigits at h
  dsimp only at h
  split_ifs at h
  obtain ⟨rfl, rfl⟩ := Prod.mk.inj (Option.some.inj h)
  intro ch hch
  exact List.mem_takeWhile_imp hch

/-- The digits of a precision. -/
theorem matchPrecision_digits {s p : Str} {scale : Option Str}
    (h : matchPrecision unicode s = some (some (p, scale))) :
    ∀ ch ∈ p, unicode.isDigit ch = true := by
  unfold matchPrecision at h
  split at h
  · exact absurd h (by simp)
  · next rest =>
      cases hdigits : takeDigits unicode rest with
      | none => simp [hdigits] at h
      | some found =>
          obtain ⟨digits, tail⟩ := found
          have hp : digits = p := by
            simp only [hdigits] at h
            split at h
            · exact absurd h (by simp)
            · next heq => simp_all
            · next heq => split at h <;> [skip; simp at h]; split at h <;> simp_all
          exact hp ▸ takeDigits_eq_some unicode hdigits
  · exact absurd h (by simp)

theorem matchLength_digits {s digits : Str} (h : matchLength unicode s = some (some digits)) :
    ∀ ch ∈ digits, unicode.isDigit ch = true := by
  unfold matchLength at h
  split at h
  · exact absurd h (by simp)
  · next rest =>
      split at h
      · next found hdigits =>
          rw [Option.some.injEq, Option.some.injEq] at h
          exact h ▸ takeDigits_eq_some unicode hdigits
      · exact absurd h (by simp)
  · exact absurd h (by simp)

theorem exists_of_matchNamed {α : Type} {names : List Str} {tail : Str → Option α} {s : Str} {x : α}
    (h : matchNamed names tail s = some x) : ∃ rest, tail rest = some x := by
  obtain ⟨name, -, hname⟩ := List.exists_of_findSome?_eq_some h
  split_ifs at hname
  exact ⟨_, hname⟩

section
variable (hcomma : unicode.isDigit ',' = false)

include hcomma

theorem comma_not_mem_digits {digits : Str} (h : ∀ ch ∈ digits, unicode.isDigit ch = true) :
    ',' ∉ digits := by
  intro hm
  rw [h ',' hm] at hcomma
  exact Bool.noConfusion hcomma

/-- The first argument of a type is a number. -/
theorem comma_not_mem_arguments {dataType first : Str} {second : Option Str}
    (h : (scalarType unicode dataType).arguments = some (first, second)) : ',' ∉ first := by
  unfold scalarType at h
  dsimp only at h
  split at h
  · next type hlookup =>
      have hnamed : ∀ e ∈ namedClasses, ',' ∉ (e.2.arguments.map Prod.fst).getD [] := by decide
      obtain ⟨before, after, heq, -⟩ := List.lookup_eq_some_iff.mp hlookup
      have hfirst := hnamed (_, type) (by rw [heq]; exact List.mem_append_cons_self)
      rw [h] at hfirst
      exact hfirst
  · split at h
    · next precision hprecision =>
        cases precision with
        | none => exact absurd h (by simp)
        | some p =>
            obtain ⟨rest, hrest⟩ := exists_of_matchNamed hprecision
            rw [Option.map_some, Option.some.injEq, Prod.mk.injEq] at h
            exact h.1 ▸ comma_not_mem_digits unicode hcomma (matchPrecision_digits unicode hrest)
    · split at h
      · next length hlength =>
          cases length with
          | none => exact absurd h (by simp)
          | some digits =>
              obtain ⟨rest, hrest⟩ := exists_of_matchNamed hlength
              rw [Option.map_some, Option.some.injEq, Prod.mk.injEq] at h
              exact h.1 ▸ comma_not_mem_digits unicode hcomma (matchLength_digits unicode hrest)
      · split at h
        · next length hlength =>
            cases length with
            | none => exact absurd h (by simp)
            | some digits =>
                obtain ⟨rest, hrest⟩ := exists_of_matchNamed hlength
                rw [Option.map_some, Option.some.injEq, Prod.mk.injEq] at h
                exact h.1 ▸ comma_not_mem_digits unicode hcomma (matchLength_digits unicode hrest)
        · split_ifs at h

end

theorem name_injective {k k' : TypeKind} (h : k.name = k'.name) : k = k' := by
  cases k <;> cases k' <;> first | rfl | exact absurd h (by decide)

/-- The text up to the arguments. -/
theorem takeWhile_text (type : SqlType) : type.text.takeWhile (· ≠ '(') = type.kind.name := by
  have hname : type.kind.name.all (· ≠ '(') = true := by
    cases type.kind <;> decide
  unfold SqlType.text
  rw [List.takeWhile_append_of_pos (List.all_eq_true.mp hname)]
  cases type.arguments with
  | none => simp [argumentsText]
  | some args =>
      obtain ⟨first, second⟩ := args
      cases second with
      | none => simp [argumentsText]
      | some second => simp [argumentsText]

theorem text_ne_array (type : SqlType) : type.text ≠ "ARRAY".toList := by
  intro h
  have hname := takeWhile_text type
  rw [h] at hname
  cases hk : type.kind <;> rw [hk] at hname <;> exact absurd hname (by decide)

theorem argumentsText_injective {args args' : Option (Str × Option Str)}
    (h : ∀ first second, args = some (first, second) → ',' ∉ first)
    (h' : ∀ first second, args' = some (first, second) → ',' ∉ first)
    (he : argumentsText args = argumentsText args') : args = args' := by
  cases args with
  | none =>
      cases args' with
      | none => rfl
      | some args' => obtain ⟨first, - | second⟩ := args' <;> simp [argumentsText] at he
  | some args =>
      cases args' with
      | none => obtain ⟨first, - | second⟩ := args <;> simp [argumentsText] at he
      | some args' =>
          obtain ⟨first, second⟩ := args
          obtain ⟨first', second'⟩ := args'
          have hf := h first second rfl
          have hf' := h' first' second' rfl
          cases second with
          | none =>
              cases second' with
              | none =>
                  have hfirst : first = first' := by simpa [argumentsText] using he
                  rw [hfirst]
              | some second' =>
                  have hm : ',' ∈ argumentsText (some (first', some second')) := by
                    simp [argumentsText]
                  rw [← he] at hm
                  exact absurd (by simpa [argumentsText] using hm) hf
          | some second =>
              cases second' with
              | none =>
                  have hm : ',' ∈ argumentsText (some (first, some second)) := by
                    simp [argumentsText]
                  rw [he] at hm
                  exact absurd (by simpa [argumentsText] using hm) hf'
              | some second' =>
                  have hinner : first ++ ',' :: (second ++ [')']) =
                      first' ++ ',' :: (second' ++ [')']) := by simpa [argumentsText] using he
                  have hcut := congrArg (cutAt [',']) hinner
                  rw [cutAt_char_append _ hf, cutAt_char_append _ hf', Option.some.injEq,
                    Prod.mk.injEq] at hcut
                  rw [hcut.1, List.append_cancel_right hcut.2]

/-- Types whose first arguments are numbers have distinct texts. -/
theorem text_injective {type type' : SqlType}
    (h : ∀ first second, type.arguments = some (first, second) → ',' ∉ first)
    (h' : ∀ first second, type'.arguments = some (first, second) → ',' ∉ first)
    (he : type.text = type'.text) : type = type' := by
  have hname : type.kind.name = type'.kind.name := by
    rw [← takeWhile_text, he, takeWhile_text]
  have hargs : argumentsText type.arguments = argumentsText type'.arguments := by
    unfold SqlType.text at he
    rw [hname] at he
    exact List.append_cancel_left he
  obtain ⟨kind, arguments⟩ := type
  obtain ⟨kind', arguments'⟩ := type'
  rw [SqlType.mk.injEq]
  exact ⟨name_injective hname, argumentsText_injective h h' hargs⟩

theorem scalarType_text_eq_iff (hcomma : unicode.isDigit ',' = false) (dataType dataType' : Str) :
    (scalarType unicode dataType).text = (scalarType unicode dataType').text ↔
      scalarType unicode dataType = scalarType unicode dataType' := by
  constructor
  · exact text_injective (fun _ _ => comma_not_mem_arguments unicode hcomma)
      (fun _ _ => comma_not_mem_arguments unicode hcomma)
  · intro he
    rw [he]

/-! ## The types of the two generators -/

/-- What the index by name keeps of the row of a column. -/
def ExportColumn.indexed (row : ExportColumn) : Col := ⟨row.type.dataType, row.isNotNull⟩

/-- The types that a statement gives to columns. -/
def Stmt.columnTypes : Stmt → List (Str × Str)
  | .createTable _ columns _ => columns.map fun clause => (clause.name, clause.type)
  | .addColumn _ clause => [(clause.name, clause.type)]
  | .alterType _ column type => [(column, type)]
  | _ => []

/-- CREATE TABLE, ADD COLUMN and ALTER TYPE write the type that is mapped from the entry of the
    column in the target. -/
theorem type_of_mem_columnTypes {source target : Dialect} {b t : Index} {stmt : Stmt}
    (hstmt : stmt ∈ migrationStmts unicode source target b t) {name type : Str}
    (h : (name, type) ∈ stmt.columnTypes) :
    ∃ key tt col, t.tables.get? key = some tt ∧ tt.columns.get? name = some col ∧
      type = colType unicode source target col := by
  cases stmt with
  | createTable table columns pk =>
      obtain ⟨key, tt, ht, -, he⟩ := (createTable_mem unicode source target b t).mp hstmt
      obtain ⟨clause, hclause, hpair⟩ := List.mem_map.mp h
      obtain ⟨-, rfl, -⟩ := Stmt.createTable.inj he
      obtain ⟨e, hm, rfl⟩ := List.mem_map.mp hclause
      obtain ⟨rfl, rfl⟩ := Prod.mk.inj hpair
      exact ⟨key, tt, e.2, ht, Dict.mem_items_iff.mp hm, rfl⟩
  | addColumn table clause =>
      obtain ⟨key, bt, tt, -, ht, hm⟩ := (alterTables_mem unicode source target b t rfl).mp hstmt
      obtain ⟨-, column, col, hc, -, rfl⟩ := (addColumn_mem unicode source target).mp hm
      obtain ⟨rfl, rfl⟩ := Prod.mk.inj (List.mem_singleton.mp h)
      exact ⟨key, tt, col, ht, hc, rfl⟩
  | alterType table column newType =>
      obtain ⟨key, bt, tt, -, ht, hm⟩ := (alterTables_mem unicode source target b t rfl).mp hstmt
      obtain ⟨-, old, col, -, hc, -, rfl⟩ := (alterType_mem unicode source target).mp hm
      obtain ⟨rfl, rfl⟩ := Prod.mk.inj (List.mem_singleton.mp h)
      exact ⟨key, tt, col, ht, hc, rfl⟩
  | _ => exact absurd h List.not_mem_nil

/-- The declared type and the one that the exporter maps, the base type of a domain, are both
    arrays or both of one scalar class. Array dimensions make the exported one an array. Only a
    migration from PostgreSQL to Snowflake needs it. -/
def TypesAgree (source target : Dialect) (row : ColumnType) : Prop :=
  source = .postgresql → target = .snowflake → ∀ declared, row.dataType = some declared →
    let exported := row.domainBaseType.getD declared
    isArrayText unicode declared = (row.hasArrayDimensions || isArrayText unicode exported) ∧
    (isArrayText unicode declared = false →
      scalarType unicode declared = scalarType unicode exported)

/-- **The generators agree on the type of a column** exactly when its declared type and its
    base type are arrays alike and of one scalar class, or when nothing is translated from
    PostgreSQL to Snowflake. -/
theorem colType_eq_mappedDataType_iff (hcomma : unicode.isDigit ',' = false)
    (row : ExportColumn) (source target : Dialect) :
    colType unicode source target row.indexed = mappedDataType unicode row.type source target ↔
      TypesAgree unicode source target row.type := by
  obtain ⟨-, -, -, ⟨dataType, domainBaseType, dims⟩, -, -, notNull⟩ := row
  cases dataType with
  | none => simp [TypesAgree, ExportColumn.indexed, colType, mappedDataType]
  | some declared =>
      by_cases hpair : source = .postgresql ∧ target = .snowflake
      · obtain ⟨rfl, rfl⟩ := hpair
        show postgresTypeToSnowflake unicode ⟨some declared, none, false⟩ =
          postgresTypeToSnowflake unicode ⟨some declared, domainBaseType, dims⟩ ↔ _
        have hagree : TypesAgree unicode .postgresql .snowflake
            ⟨some declared, domainBaseType, dims⟩ ↔
            isArrayText unicode declared =
                (dims || isArrayText unicode (domainBaseType.getD declared)) ∧
              (isArrayText unicode declared = false →
                scalarType unicode declared =
                  scalarType unicode (domainBaseType.getD declared)) := by
          constructor
          · intro h
            exact h rfl rfl declared rfl
          · intro h _ _ other hother
            obtain rfl := Option.some.inj hother
            exact h
        rw [hagree, postgresTypeToSnowflake_eq, postgresTypeToSnowflake_eq, Option.getD_none,
          Bool.false_or]
        cases isArrayText unicode declared with
        | true =>
            cases dims || isArrayText unicode (domainBaseType.getD declared) with
            | true => simp
            | false =>
                have hne := text_ne_array (scalarType unicode (domainBaseType.getD declared))
                simpa using hne.symm
        | false =>
            cases dims || isArrayText unicode (domainBaseType.getD declared) with
            | true => simpa using text_ne_array (scalarType unicode declared)
            | false => simpa using scalarType_text_eq_iff unicode hcomma _ _
      · have hsame : colType unicode source target ⟨some declared, notNull⟩ =
            mappedDataType unicode ⟨some declared, domainBaseType, dims⟩ source target := by
          unfold colType mappedDataType
          cases source with
          | postgresql =>
              cases target with
              | postgresql => rfl
              | snowflake => exact absurd ⟨rfl, rfl⟩ hpair
          | snowflake =>
              cases target with
              | postgresql => rfl
              | snowflake => rfl
        exact iff_of_true hsame fun hs ht => absurd ⟨hs, ht⟩ hpair

/-- A column of a domain `price` over `numeric(10,2)`. -/
def domainColumn : ExportColumn :=
  ⟨some 1, some 1, some "amount".toList,
    ⟨some "price".toList, some "numeric(10,2)".toList, false⟩, false, none, false⟩

/-- `colType_eq_mappedDataType_iff` for a domain. -/
theorem colType_eq_mappedDataType_iff_at_domain :
    colType asciiUnicode .postgresql .snowflake domainColumn.indexed =
        mappedDataType asciiUnicode domainColumn.type .postgresql .snowflake ↔
      TypesAgree asciiUnicode .postgresql .snowflake domainColumn.type :=
  colType_eq_mappedDataType_iff asciiUnicode (by decide) domainColumn .postgresql .snowflake

/-- **The generators disagree on a domain:** the migration writes `VARCHAR`, the exporter
    `NUMBER(10,2)`. -/
theorem types_differ_at_domain :
    ¬ (∀ (row : ExportColumn) (source target : Dialect),
      colType asciiUnicode source target row.indexed =
        mappedDataType asciiUnicode row.type source target) := by
  intro h
  have hmigration : colType asciiUnicode .postgresql .snowflake domainColumn.indexed =
      "VARCHAR".toList := by decide
  have hexport : mappedDataType asciiUnicode domainColumn.type .postgresql .snowflake =
      "NUMBER(10,2)".toList := by decide
  have he := h domainColumn .postgresql .snowflake
  rw [hmigration, hexport] at he
  exact absurd he (by decide)

end PgErdCloud.Ddl
