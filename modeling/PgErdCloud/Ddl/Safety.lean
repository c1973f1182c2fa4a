/-
  The risk report of a migration (app/ddl/migration_safety.py).
-/
import PgErdCloud.Diff.SchemaDiff

namespace PgErdCloud.Ddl

open Lib Lib.PyStr Diff

/-- How much a change can hurt. -/
inductive Severity
  | safe
  | warning
  | destructive
  deriving DecidableEq, Repr

/-- `_SEVERITY_RANK` -/
def Severity.rank : Severity → Nat
  | .destructive => 0
  | .warning => 1
  | .safe => 2

/-- What kind of change it is. -/
inductive Category
  | dropTable
  | createTable
  | addColumn
  | dropColumn
  | alterColumnType
  | setNotNull
  | dropNotNull
  | primaryKeyChange
  | addForeignKey
  | dropForeignKey
  deriving DecidableEq, Repr

/-- A finding: a change of something, and what may happen. -/
structure Item where
  category : Category
  severity : Severity
  target : Str
  detail : Str
  deriving DecidableEq

/-- `f"{value}"` of a value that may be `None`. -/
def formatOption : Option Str → Str
  | none => "None".toList
  | some text => text

/-- What a foreign key is called in a finding. -/
def fkLabel (fk : Fk) : Str :=
  fk.childTable ++ "(".toList ++ join ", ".toList fk.childColumns ++ ") -> ".toList ++
    fk.parentTable

/-- `f"{key}.{name}"` -/
def columnLabel (key name : Str) : Str := key ++ ".".toList ++ name

/-- A column that comes; it hurts where it takes no `NULL`. -/
def addColumnItem (key name : Str) (col : Col) : Item :=
  if col.isNotNull then
    ⟨.addColumn, .warning, columnLabel key name,
      "New NOT NULL column — fails or locks if the table has rows and no default.".toList⟩
  else ⟨.addColumn, .safe, columnLabel key name, "New nullable column.".toList⟩

/-- The items of a column that both tables have. -/
def alterColumnItems (key name : Str) (old col : Col) : List Item :=
  (if old.dataType.getD [] ≠ col.dataType.getD [] then
    [⟨.alterColumnType, .warning, columnLabel key name,
      "Type ".toList ++ formatOption old.dataType ++ " -> ".toList ++ formatOption col.dataType ++
        " may rewrite/lock the table and can fail on incompatible data.".toList⟩] else []) ++
  (if !old.isNotNull && col.isNotNull then
    [⟨.setNotNull, .warning, columnLabel key name,
      "SET NOT NULL scans the whole table and fails if existing NULLs are present.".toList⟩]
    else []) ++
  if old.isNotNull && !col.isNotNull then
    [⟨.dropNotNull, .safe, columnLabel key name, "Relaxing NOT NULL is safe.".toList⟩] else []

/-- The items of a table that both snapshots have. -/
def tableItems (key : Str) (btbl ttbl : Table) : List Item :=
  (ttbl.columns.items.filter fun e => e.1 ∉ btbl.columns.keys).map (fun e =>
    addColumnItem key e.1 e.2) ++
  (btbl.columns.keys.filter fun name => name ∉ ttbl.columns.keys).map (fun name =>
    ⟨.dropColumn, .destructive, columnLabel key name,
      "Column dropped — its data is lost.".toList⟩) ++
  ttbl.columns.items.flatMap (fun e =>
    match btbl.columns.get? e.1 with
    | none => []
    | some old => alterColumnItems key e.1 old e.2) ++
  if btbl.pk ≠ ttbl.pk then
    [⟨.primaryKeyChange, .destructive, key,
      "Primary key changed — usually needs data-aware handling and can lock the table.".toList⟩]
  else []

/-- Tables that go. -/
def dropTableItems (b t : Index) : List Item :=
  (b.tables.keys.filter fun key => key ∉ t.tables.keys).map fun key =>
    ⟨.dropTable, .destructive, key, "Table is dropped — all its data is lost.".toList⟩

/-- Tables that come. -/
def createTableItems (b t : Index) : List Item :=
  (t.tables.keys.filter fun key => key ∉ b.tables.keys).map fun key =>
    ⟨.createTable, .safe, key, "New table.".toList⟩

/-- Tables that stay. -/
def changedTableItems (b t : Index) : List Item :=
  t.tables.items.flatMap fun e =>
    match b.tables.get? e.1 with
    | none => []
    | some btbl => tableItems e.1 btbl e.2

/-- Foreign keys that come. -/
def addFkItems (b t : Index) : List Item :=
  (t.fks.items.filter fun e => e.1 ∉ b.fks.keys).map fun e =>
    ⟨.addForeignKey, .warning, fkLabel e.2,
      "New foreign key validates all existing rows (brief lock) ".toList ++
        "and fails if data violates it.".toList⟩

/-- Foreign keys that go. -/
def dropFkItems (b t : Index) : List Item :=
  (b.fks.items.filter fun e => e.1 ∉ t.fks.keys).map fun e =>
    ⟨.dropForeignKey, .safe, fkLabel e.2,
      "Dropping a foreign key relaxes a constraint — safe.".toList⟩

/-- The items in the order in which they are found. -/
def foundItems (b t : Index) : List Item :=
  dropTableItems b t ++ createTableItems b t ++ changedTableItems b t ++ addFkItems b t ++
    dropFkItems b t

/-- The order of the report: by severity, then by target. -/
def Item.le (i j : Item) : Prop :=
  i.severity.rank < j.severity.rank ∨ i.severity.rank = j.severity.rank ∧ i.target ≤ j.target

instance : DecidableRel Item.le := fun _ _ => inferInstanceAs (Decidable (_ ∨ _ ∧ _))

/-- The numbers of the findings. -/
structure SafetySummary where
  safe : Nat
  warning : Nat
  destructive : Nat
  total : Nat
  hasDestructive : Bool
  hasBlocking : Bool
  deriving DecidableEq

/-- The findings and their numbers. -/
structure SafetyReport where
  items : List Item
  summary : SafetySummary
  deriving DecidableEq

/-- The report on two indexed snapshots. -/
def safetyReport (b t : Index) : SafetyReport :=
  let items := (foundItems b t).insertionSort Item.le
  { items := items
    summary := {
      safe := items.countP (·.severity = .safe)
      warning := items.countP (·.severity = .warning)
      destructive := items.countP (·.severity = .destructive)
      total := items.length
      hasDestructive := items.any (·.severity = .destructive)
      hasBlocking := items.any fun i => i.severity = .warning ∨ i.severity = .destructive } }

variable {Oid Oid' : Type} [DecidableEq Oid] [DecidableEq Oid']

/-- `analyze_migration_safety` -/
def analyzeMigrationSafety (base : Snapshot Oid) (target : Snapshot Oid') : SafetyReport :=
  safetyReport (indexSnapshot base) (indexSnapshot target)

end PgErdCloud.Ddl
