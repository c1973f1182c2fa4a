/-
  What the reports over a snapshot share: its tables, and how severe a finding is.
-/
import PgErdCloud.Lib.PyStr

namespace PgErdCloud.Spec

open Lib.PyStr

/-- A row of `relations`. -/
structure RelationRow where
  relationOid : Option Int
  schemaName : Option Str
  relationName : Option Str
  deriving DecidableEq

/-- `f"{rel.get('schema_name')}.{rel.get('relation_name')}"` -/
def RelationRow.label (rel : RelationRow) : Str :=
  rel.schemaName.getD "None".toList ++ ".".toList ++ rel.relationName.getD "None".toList

/-- `rel_by_oid.get(oid)`: of two rows with one object id the later. -/
def relByOid (relations : List RelationRow) (oid : Option Int) : Option RelationRow :=
  relations.reverse.find? (·.relationOid = oid)

/-- How urgent a finding is. -/
inductive Severity
  | warning
  | info
  deriving DecidableEq

/-- The order of severities in a report. -/
def Severity.rank : Severity → Nat
  | .warning => 0
  | .info => 1

end PgErdCloud.Spec
