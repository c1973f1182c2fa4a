/-
  The diff is complete and sound where names tell apart what differs. `hasChanges_eq_false_iff`
  says when two indexes have no difference; the logical schemas then agree because each index
  represents the schema of its snapshot.

  The keys are texts, built from names that may contain the separators: ("a.b", "c") and
  ("a", "b.c") have one key, the columns "a,b" and "a", "b" one signature. `Distinguishable`
  excludes these collisions among the tables and foreign keys of two snapshots, and
  `diffSnapshots_right_iff` shows that no collision can be let in: for any two tables of one
  key, or keys of one signature, there are snapshots whose difference is not reported.
-/
import PgErdCloud.Diff.Logical
import PgErdCloud.Diff.SchemaDiff

namespace PgErdCloud.Diff

open Lib Lib.PyStr

/-! ## Two indexes without a difference -/

theorem sortedStrs_eq_nil {names : List Str} : sortedStrs names = [] ↔ names = [] := by
  unfold sortedStrs
  rw [← List.length_eq_zero_iff, List.length_insertionSort, List.length_eq_zero_iff]

theorem mem_sortedStrs {names : List Str} {name : Str} : name ∈ sortedStrs names ↔ name ∈ names :=
  (List.perm_insertionSort _ names).mem_iff

theorem keysOnlyIn_eq_nil {ν : Type} {xs ys : Dict Str ν} :
    keysOnlyIn xs ys = [] ↔ ∀ key ∈ xs.keys, key ∈ ys.keys := by
  unfold keysOnlyIn
  rw [sortedStrs_eq_nil, List.filter_eq_nil_iff]
  simp

theorem mem_commonKeys {ν : Type} {xs ys : Dict Str ν} {key : Str} :
    key ∈ commonKeys xs ys ↔ key ∈ xs.keys ∧ key ∈ ys.keys := by
  unfold commonKeys
  rw [mem_sortedStrs, List.mem_filter, decide_eq_true_eq]

/-- The columns are the same: name by name. -/
theorem diffColumns_eq_nil_iff {base target : Dict Str Col} :
    ((diffColumns base target).added = [] ∧ (diffColumns base target).removed = [] ∧
      (diffColumns base target).changed = []) ↔ ∀ name, base.get? name = target.get? name := by
  simp only [diffColumns, keysOnlyIn_eq_nil, List.filterMap_eq_nil_iff, mem_commonKeys]
  constructor
  · rintro ⟨hadded, hremoved, hchanged⟩ name
    cases hb : base.get? name with
    | none =>
        have hnot : name ∉ target.keys := fun hm => Dict.get?_eq_none_iff.mp hb (hadded name hm)
        rw [Dict.get?_eq_none_iff.mpr hnot]
    | some before =>
        have hm : name ∈ base.keys := Dict.mem_keys_iff.mpr ⟨before, hb⟩
        obtain ⟨after, ht⟩ := Dict.mem_keys_iff.mp (hremoved name hm)
        have hchange := hchanged name ⟨hm, hremoved name hm⟩
        rw [columnChange, hb, ht] at hchange
        by_contra hne
        have hne' : before ≠ after := fun he => hne (by rw [ht, he])
        simp [hne'] at hchange
  · intro h
    refine ⟨fun name hm => ?_, fun name hm => ?_, fun name _ => ?_⟩
    · rw [Dict.mem_keys_iff, h name]
      exact Dict.mem_keys_iff.mp hm
    · rw [Dict.mem_keys_iff, ← h name]
      exact Dict.mem_keys_iff.mp hm
    · unfold columnChange
      rw [h name]
      cases target.get? name with
      | none => rfl
      | some col => simp

/-- The two entries of a table do not differ. -/
def SameTable (bt tt : Table) : Prop :=
  (∀ name, bt.columns.get? name = tt.columns.get? name) ∧ bt.pk = tt.pk ∧ bt.comment = tt.comment

theorem tableChange_eq_none_iff {base target : Dict Str Table} {key : Str} {bt tt : Table}
    (hb : base.get? key = some bt) (ht : target.get? key = some tt) :
    tableChange base target key = none ↔ SameTable bt tt := by
  unfold tableChange SameTable
  rw [hb, ht, ← diffColumns_eq_nil_iff]
  simp only [ite_eq_right_iff, reduceCtorEq, imp_false]
  tauto

/-- Same keys, same tables at the keys, same signatures. -/
structure SameIndex (b t : Index) : Prop where
  keys : ∀ key, key ∈ b.tables.keys ↔ key ∈ t.tables.keys
  tables : ∀ key bt tt, b.tables.get? key = some bt → t.tables.get? key = some tt → SameTable bt tt
  fks : ∀ signature, signature ∈ b.fks.keys ↔ signature ∈ t.fks.keys

/-- **The diff reports no change exactly when the indexes agree.** -/
theorem hasChanges_eq_false_iff (b t : Index) :
    (diffIndexes b t).summary.hasChanges = false ↔ SameIndex b t := by
  have hcounts : (diffIndexes b t).summary.hasChanges = false ↔
      keysOnlyIn t.tables b.tables = [] ∧ keysOnlyIn b.tables t.tables = [] ∧
      (commonKeys b.tables t.tables).filterMap (tableChange b.tables t.tables) = [] ∧
      keysOnlyIn t.fks b.fks = [] ∧ keysOnlyIn b.fks t.fks = [] := by
    simp only [diffIndexes, Summary.hasChanges, List.any_cons, List.any_nil, Bool.or_false,
      Bool.or_eq_false_iff, decide_eq_false_iff_not, not_not, List.length_eq_zero_iff, ne_eq]
    constructor
    · rintro ⟨hta, htr, htc, -, -, -, hfa, hfr⟩
      exact ⟨hta, htr, htc, hfa, hfr⟩
    · rintro ⟨hta, htr, htc, hfa, hfr⟩
      exact ⟨hta, htr, htc, by simp [htc], by simp [htc], by simp [htc], hfa, hfr⟩
  rw [hcounts]
  simp only [keysOnlyIn_eq_nil, List.filterMap_eq_nil_iff, mem_commonKeys]
  constructor
  · rintro ⟨hta, htr, htc, hfa, hfr⟩
    refine ⟨fun key => ⟨htr key, hta key⟩, ?_, fun signature => ⟨hfr signature, hfa signature⟩⟩
    intro key bt tt hb ht
    have hmem := And.intro (Dict.mem_keys_iff.mpr ⟨bt, hb⟩) (Dict.mem_keys_iff.mpr ⟨tt, ht⟩)
    exact (tableChange_eq_none_iff hb ht).mp (htc key hmem)
  · intro h
    refine ⟨fun key => (h.keys key).mpr, fun key => (h.keys key).mp, ?_,
      fun signature => (h.fks signature).mpr, fun signature => (h.fks signature).mp⟩
    rintro key ⟨hkb, hkt⟩
    obtain ⟨bt, hb⟩ := Dict.mem_keys_iff.mp hkb
    obtain ⟨tt, ht⟩ := Dict.mem_keys_iff.mp hkt
    exact (tableChange_eq_none_iff hb ht).mpr (h.tables key bt tt hb ht)

/-! ## Tables that a snapshot does not have -/

namespace Snapshot

variable {Oid : Type} [DecidableEq Oid] {s : Snapshot Oid} {table : TableName}

theorem column_eq_none (h : table ∉ s.tableNames) (name : Str) : s.column table name = none := by
  unfold column
  rw [Option.map_eq_none_iff, List.find?_eq_none]
  intro col _ hcol
  rw [decide_eq_true_eq] at hcol
  exact h (mem_tableNames_of_tableOf hcol.1)

theorem primaryKey_eq_nil (h : table ∉ s.tableNames) : s.primaryKey table = [] := by
  have hrows : (s.pkColumns.filter fun pk =>
      s.tableOf pk.relationOid = some table ∧ pk.columnName ≠ none) = [] := by
    rw [List.filter_eq_nil_iff]
    intro pk _ hpk
    rw [decide_eq_true_eq] at hpk
    exact h (mem_tableNames_of_tableOf hpk.1)
  unfold primaryKey
  rw [hrows]
  rfl

omit [DecidableEq Oid] in
theorem comment_eq_none (h : table ∉ s.tableNames) : s.comment table = none := by
  have hfind : s.relations.find? (·.tableName = table) = none := by
    rw [List.find?_eq_none]
    intro rel hrel he
    exact h (of_decide_eq_true he ▸ List.mem_map_of_mem hrel)
  rw [comment, hfind]
  rfl

end Snapshot

/-! ## Logical schemas -/

variable {Oid Oid' : Type} [DecidableEq Oid] [DecidableEq Oid']

/-- No collision among the names in use: the tables of the two snapshots have distinct keys
    and their foreign keys distinct signatures. -/
structure Distinguishable (base : Snapshot Oid) (target : Snapshot Oid') : Prop where
  keys : KeysDistinct (base.tableNames ++ target.tableNames)
  signatures : ∀ fk ∈ base.foreignKeys ++ target.foreignKeys,
    ∀ fk' ∈ base.foreignKeys ++ target.foreignKeys, fk.signature = fk'.signature → fk = fk'

section
variable {base : Snapshot Oid} {target : Snapshot Oid'}

theorem Distinguishable.keysBase (h : Distinguishable base target) :
    KeysDistinct base.tableNames :=
  fun n hn n' hn' => h.keys n (List.mem_append_left _ hn) n' (List.mem_append_left _ hn')

theorem Distinguishable.keysTarget (h : Distinguishable base target) :
    KeysDistinct target.tableNames :=
  fun n hn n' hn' => h.keys n (List.mem_append_right _ hn) n' (List.mem_append_right _ hn')

variable (hbase : base.WellFormed) (htarget : target.WellFormed)
  (hd : Distinguishable base target)

include hbase htarget hd

theorem schema_eq_of_sameIndex (h : SameIndex (indexSnapshot base) (indexSnapshot target)) :
    base.schema = target.schema := by
  have htables : ∀ table, table ∈ base.tableNames ↔ table ∈ target.tableNames := by
    intro table
    constructor
    · intro hm
      have hkey := (h.keys table.key).mp (Snapshot.mem_keys_tables_iff.mpr ⟨table, hm, rfl⟩)
      obtain ⟨table', hm', he⟩ := Snapshot.mem_keys_tables_iff.mp hkey
      rw [hd.keys table (List.mem_append_left _ hm) table' (List.mem_append_right _ hm') he.symm]
      exact hm'
    · intro hm
      have hkey := (h.keys table.key).mpr (Snapshot.mem_keys_tables_iff.mpr ⟨table, hm, rfl⟩)
      obtain ⟨table', hm', he⟩ := Snapshot.mem_keys_tables_iff.mp hkey
      rw [hd.keys table (List.mem_append_right _ hm) table' (List.mem_append_left _ hm') he.symm]
      exact hm'
  have hentries : ∀ table, (∀ name, base.column table name = target.column table name) ∧
      base.primaryKey table = target.primaryKey table ∧
      base.comment table = target.comment table := by
    intro table
    by_cases hm : table ∈ base.tableNames
    · obtain ⟨bt, hb, hbc, hbp, hbm⟩ := Snapshot.exists_table hbase hd.keysBase hm
      obtain ⟨tt, ht, htc, htp, htm⟩ :=
        Snapshot.exists_table htarget hd.keysTarget ((htables table).mp hm)
      obtain ⟨hcol, hpk, hcomment⟩ := h.tables _ bt tt hb ht
      refine ⟨fun name => ?_, ?_, ?_⟩
      · rw [← hbc, hcol, htc]
      · rw [← hbp, hpk, htp]
      · rw [← hbm, hcomment, htm]
    · have hm' : table ∉ target.tableNames := fun ht => hm ((htables table).mpr ht)
      refine ⟨fun name => ?_, ?_, ?_⟩
      · rw [Snapshot.column_eq_none hm, Snapshot.column_eq_none hm']
      · rw [Snapshot.primaryKey_eq_nil hm, Snapshot.primaryKey_eq_nil hm']
      · rw [Snapshot.comment_eq_none hm, Snapshot.comment_eq_none hm']
  have hfks : ∀ fk, fk ∈ base.foreignKeys ↔ fk ∈ target.foreignKeys := by
    intro fk
    have hsame := h.fks fk.signature
    rw [Snapshot.mem_keys_fks_iff hd.keysBase, Snapshot.mem_keys_fks_iff hd.keysTarget] at hsame
    constructor
    · intro hm
      obtain ⟨fk', hm', he⟩ := hsame.mp ⟨fk, hm, rfl⟩
      rw [hd.signatures fk (List.mem_append_left _ hm) fk' (List.mem_append_right _ hm') he.symm]
      exact hm'
    · intro hm
      obtain ⟨fk', hm', he⟩ := hsame.mpr ⟨fk, hm, rfl⟩
      rw [hd.signatures fk (List.mem_append_right _ hm) fk' (List.mem_append_left _ hm') he.symm]
      exact hm'
  apply Schema.ext
  · exact Set.ext htables
  · exact funext fun table => funext fun name => (hentries table).1 name
  · exact funext fun table => (hentries table).2.1
  · exact funext fun table => (hentries table).2.2
  · exact Set.ext hfks

theorem sameIndex_of_schema_eq (h : base.schema = target.schema) :
    SameIndex (indexSnapshot base) (indexSnapshot target) := by
  have htables : ∀ table, table ∈ base.tableNames ↔ table ∈ target.tableNames :=
    Set.ext_iff.mp (congrArg Schema.tables h)
  have hfks : ∀ fk, fk ∈ base.foreignKeys ↔ fk ∈ target.foreignKeys :=
    Set.ext_iff.mp (congrArg Schema.foreignKeys h)
  constructor
  · intro key
    rw [Snapshot.mem_keys_tables_iff, Snapshot.mem_keys_tables_iff]
    simp only [htables]
  · intro key bt tt hb ht
    obtain ⟨table, hm, rfl⟩ := Snapshot.mem_keys_tables_iff.mp (Dict.mem_keys_iff.mpr ⟨bt, hb⟩)
    obtain ⟨bt', hb', hbc, hbp, hbm⟩ := Snapshot.exists_table hbase hd.keysBase hm
    obtain ⟨tt', ht', htc, htp, htm⟩ :=
      Snapshot.exists_table htarget hd.keysTarget ((htables table).mp hm)
    rw [hb, Option.some.injEq] at hb'
    rw [ht, Option.some.injEq] at ht'
    subst hb'
    subst ht'
    refine ⟨fun name => ?_, ?_, ?_⟩
    · rw [hbc, htc]
      exact congrFun (congrFun (congrArg Schema.column h) table) name
    · rw [hbp, htp]
      exact congrFun (congrArg Schema.primaryKey h) table
    · rw [hbm, htm]
      exact congrFun (congrArg Schema.comment h) table
  · intro signature
    rw [Snapshot.mem_keys_fks_iff hd.keysBase, Snapshot.mem_keys_fks_iff hd.keysTarget]
    simp only [hfks]

/-- **The diff is complete and sound where nothing collides.** It reports no change exactly
    when the logical schemas are equal. -/
theorem hasChanges_iff_schema :
    (diffSnapshots base target).summary.hasChanges = false ↔ base.schema = target.schema := by
  unfold diffSnapshots
  rw [hasChanges_eq_false_iff]
  exact ⟨schema_eq_of_sameIndex hbase htarget hd, sameIndex_of_schema_eq hbase htarget hd⟩

end

/-! ## Collisions -/

/-- A snapshot of one table without columns. -/
def justTable (table : TableName) : Snapshot Nat where
  relations := [⟨some 1, some table.schema, some table.name, none, none⟩]
  columns := []
  pkColumns := []
  fkEdges := []
  sourceDialect := none
  databaseDialect := none
  dialect := none

theorem tableNames_justTable (table : TableName) : (justTable table).tableNames = [table] := rfl

theorem wellFormed_justTable (table : TableName) : (justTable table).WellFormed where
  tables := by
    rw [tableNames_justTable]
    exact List.nodup_singleton table
  columns := .nil

/-- Any two tables with the same key are taken for one: replacing one by the other is not
    reported. -/
theorem unreported_of_key_eq {table table' : TableName} (hne : table ≠ table')
    (hkey : table.key = table'.key) :
    (diffSnapshots (justTable table) (justTable table')).summary.hasChanges = false ∧
      (justTable table).schema ≠ (justTable table').schema := by
  have hsingle : ∀ n : TableName, KeysDistinct (justTable n).tableNames := by
    intro n
    rw [tableNames_justTable]
    intro m hm m' hm' _
    rw [List.mem_singleton.mp hm, List.mem_singleton.mp hm']
  have hkeys : ∀ (n : TableName) key,
      key ∈ (indexSnapshot (justTable n)).tables.keys ↔ n.key = key := by
    intro n key
    rw [Snapshot.mem_keys_tables_iff, tableNames_justTable]
    simp
  constructor
  · rw [diffSnapshots, hasChanges_eq_false_iff]
    constructor
    · intro key
      rw [hkeys, hkeys, hkey]
    · intro key bt tt hb ht
      have hk := (hkeys table key).mp (Dict.mem_keys_iff.mpr ⟨bt, hb⟩)
      obtain ⟨bt', hb', hbc, hbp, hbm⟩ := Snapshot.exists_table (wellFormed_justTable table)
        (hsingle table) (List.mem_singleton_self table)
      obtain ⟨tt', ht', htc, htp, htm⟩ := Snapshot.exists_table (wellFormed_justTable table')
        (hsingle table') (List.mem_singleton_self table')
      rw [hk, hb, Option.some.injEq] at hb'
      rw [← hkey, hk, ht, Option.some.injEq] at ht'
      subst hb'
      subst ht'
      refine ⟨fun name => ?_, ?_, ?_⟩
      · rw [hbc, htc]
        rfl
      · rw [hbp, htp]
        rfl
      · rw [hbm, htm]
        simp [Snapshot.comment, justTable, Relation.tableName]
    · intro signature
      exact Iff.rfl
  · intro h
    have hm : table ∈ (justTable table').tableNames :=
      (Set.ext_iff.mp (congrArg Schema.tables h) table).mp (List.mem_singleton_self table)
    exact hne (List.mem_singleton.mp hm)

/-- **Completeness fails on a collision:** for one table ("a.b", "c") in the base and one table
    ("a", "b.c") in the target. -/
theorem changes_unreported :
    ¬ (∀ base target : Snapshot Nat, base.WellFormed → target.WellFormed →
      ((diffSnapshots base target).summary.hasChanges = false ↔ base.schema = target.schema)) := by
  intro h
  have hne : (⟨"a.b".toList, "c".toList⟩ : TableName) ≠ ⟨"a".toList, "b.c".toList⟩ := by decide
  obtain ⟨hchanges, hschema⟩ := unreported_of_key_eq hne (by decide)
  exact hschema ((h _ _ (wellFormed_justTable _) (wellFormed_justTable _)).mp hchanges)

/-! ### Foreign keys -/

/-- A foreign key that a snapshot over the tables can have. -/
structure LogicalFk.Over (tables : Set TableName) (fk : LogicalFk) : Prop where
  child : fk.child ∈ tables
  parent : fk.parent ∈ tables
  ne_nil : fk.childColumns ≠ []
  length_eq : fk.childColumns.length = fk.parentColumns.length

theorem Snapshot.over_of_mem_foreignKeys {s : Snapshot Oid} {fk : LogicalFk}
    (h : fk ∈ s.foreignKeys) : fk.Over {table | table ∈ s.tableNames} := by
  obtain ⟨edge, hedge, hfk⟩ := List.mem_filterMap.mp h
  obtain ⟨child, parent, hc, hp⟩ := Snapshot.tableOf_of_foreignKey hfk
  rw [Snapshot.foreignKey, hc, hp, Option.some.injEq] at hfk
  subst hfk
  have hmem : edge ∈ s.fkEdges.filter (s.SameConstraint edge) :=
    List.mem_filter.mpr ⟨hedge, decide_eq_true ⟨rfl, rfl, rfl⟩⟩
  refine ⟨mem_tableNames_of_tableOf hc, mem_tableNames_of_tableOf hp, ?_, ?_⟩
  · rw [ne_eq, List.map_eq_nil_iff, ← List.length_eq_zero_iff, sortByOrdinal,
      List.length_insertionSort, List.length_map, List.length_eq_zero_iff]
    exact List.ne_nil_of_mem hmem
  · rw [List.length_map, List.length_map]

section
variable (tables : List TableName) (fk : LogicalFk)

/-- The edges of one foreign key, where tables have their place in the list as object id. -/
def keyEdges : List (FkEdge Nat) :=
  (fk.childColumns.zip fk.parentColumns).zipIdx.map fun pair =>
    ⟨some 0, none, some (tables.idxOf fk.child), some (tables.idxOf fk.parent), some pair.1.1,
      some pair.1.2, some pair.2⟩

/-- A snapshot of tables without columns and of one foreign key. -/
def justKey : Snapshot Nat where
  relations := tables.map fun table =>
    ⟨some (tables.idxOf table), some table.schema, some table.name, none, none⟩
  columns := []
  pkColumns := []
  fkEdges := keyEdges tables fk
  sourceDialect := none
  databaseDialect := none
  dialect := none

variable {tables fk}

theorem tableNames_justKey : (justKey tables fk).tableNames = tables := by
  rw [Snapshot.tableNames, justKey, List.map_map]
  exact List.map_id'' (fun _ => rfl) tables

theorem tableOf_justKey {table : TableName} (h : table ∈ tables) :
    (justKey tables fk).tableOf (some (tables.idxOf table)) = some table := by
  rw [Snapshot.tableOf, justKey, ← List.map_reverse, List.find?_map, Option.map_map]
  cases hfind : tables.reverse.find? ((fun rel : Relation Nat =>
      decide (rel.relationOid = some (tables.idxOf table))) ∘ fun table =>
        ⟨some (tables.idxOf table), some table.schema, some table.name, none, none⟩) with
  | none =>
      have hnone := List.find?_eq_none.mp hfind table (List.mem_reverse.mpr h)
      simp at hnone
  | some table' =>
      have hidx := List.find?_some hfind
      have heq : tables.idxOf table' = tables.idxOf table := by simpa using hidx
      rw [(List.idxOf_inj (List.mem_reverse.mp (List.mem_of_find?_eq_some hfind))).mp heq]
      rfl

theorem wellFormed_justKey (h : tables.Nodup) : (justKey tables fk).WellFormed where
  tables := by
    rw [tableNames_justKey]
    exact h
  columns := .nil

/-- Parts that are numbered in their order are in order. -/
theorem sortByOrdinal_zipIdx {α : Type} (xs : List α) :
    sortByOrdinal (xs.zipIdx.map fun x => ((x.2 : Int), x.1)) =
      xs.zipIdx.map fun x => ((x.2 : Int), x.1) := by
  have hsorted : ∀ n, (xs.zipIdx n).Pairwise fun x y => x.2 ≤ y.2 := by
    induction xs with
    | nil => exact fun n => .nil
    | cons x xs ih =>
        intro n
        rw [List.zipIdx_cons, List.pairwise_cons]
        refine ⟨fun y hy => ?_, ih (n + 1)⟩
        exact (Nat.le_succ n).trans (List.le_snd_of_mem_zipIdx hy)
  refine List.Pairwise.insertionSort_eq ?_
  rw [List.pairwise_map]
  exact (hsorted 0).imp fun hle => Int.ofNat_le.mpr hle

theorem map_edgePart_keyEdges : (keyEdges tables fk).map edgePart =
    (fk.childColumns.zip fk.parentColumns).zipIdx.map fun x => ((x.2 : Int), x.1) := by
  rw [keyEdges, List.map_map]
  rfl

/-- All edges are of the one constraint. -/
theorem filter_keyEdges {edge : FkEdge Nat} (hedge : edge ∈ keyEdges tables fk) :
    (keyEdges tables fk).filter ((justKey tables fk).SameConstraint edge) =
      keyEdges tables fk := by
  refine List.filter_eq_self.mpr fun edge' hedge' => ?_
  obtain ⟨pair, -, rfl⟩ := List.mem_map.mp hedge
  obtain ⟨pair', -, rfl⟩ := List.mem_map.mp hedge'
  exact decide_eq_true ⟨rfl, rfl, rfl⟩

theorem foreignKey_justKey (hfk : fk.Over {table | table ∈ tables}) {edge : FkEdge Nat}
    (hedge : edge ∈ keyEdges tables fk) : (justKey tables fk).foreignKey edge = some fk := by
  have hparts : sortByOrdinal (((justKey tables fk).fkEdges.filter
      ((justKey tables fk).SameConstraint edge)).map edgePart) =
        (fk.childColumns.zip fk.parentColumns).zipIdx.map fun x => ((x.2 : Int), x.1) := by
    have hedges : (justKey tables fk).fkEdges = keyEdges tables fk := rfl
    rw [hedges, filter_keyEdges hedge, map_edgePart_keyEdges, sortByOrdinal_zipIdx]
  obtain ⟨pair, -, rfl⟩ := List.mem_map.mp hedge
  have hchild : (justKey tables fk).tableOf (some (tables.idxOf fk.child)) = some fk.child :=
    tableOf_justKey hfk.child
  have hparent : (justKey tables fk).tableOf (some (tables.idxOf fk.parent)) = some fk.parent :=
    tableOf_justKey hfk.parent
  have hfirst : (fk.childColumns.zip fk.parentColumns).map Prod.fst = fk.childColumns :=
    List.map_fst_zip hfk.length_eq.le
  have hsecond : (fk.childColumns.zip fk.parentColumns).map Prod.snd = fk.parentColumns :=
    List.map_snd_zip hfk.length_eq.ge
  rw [Snapshot.foreignKey]
  dsimp only
  rw [hchild, hparent]
  dsimp only
  rw [hparts]
  have hcolumns : ∀ column : Str × Str → Str,
      ((fk.childColumns.zip fk.parentColumns).zipIdx.map fun x => ((x.2 : Int), x.1)).map
        (fun part => column part.2) = (fk.childColumns.zip fk.parentColumns).map column := by
    intro column
    rw [List.map_map]
    refine Eq.trans ?_ (congrArg (List.map column) (List.zipIdx_map_fst 0 _))
    rw [List.map_map]
    rfl
  rw [hcolumns Prod.fst, hcolumns Prod.snd, hfirst, hsecond]

/-- The snapshot has the one foreign key. -/
theorem mem_foreignKeys_justKey (hfk : fk.Over {table | table ∈ tables}) {fk' : LogicalFk} :
    fk' ∈ (justKey tables fk).foreignKeys ↔ fk' = fk := by
  constructor
  · intro h
    obtain ⟨edge, hedge, he⟩ := List.mem_filterMap.mp h
    rw [foreignKey_justKey hfk hedge, Option.some.injEq] at he
    exact he.symm
  · rintro rfl
    have hne : keyEdges tables fk' ≠ [] := by
      intro hnil
      have hlength := congrArg List.length hnil
      rw [keyEdges, List.length_map, List.length_zipIdx, List.length_zip, ← hfk.length_eq,
        Nat.min_self, List.length_nil] at hlength
      exact hfk.ne_nil (List.length_eq_zero_iff.mp hlength)
    obtain ⟨edge, hedge⟩ := List.exists_mem_of_ne_nil _ hne
    exact List.mem_filterMap.mpr ⟨edge, hedge, foreignKey_justKey hfk hedge⟩

/-- Any two foreign keys of one signature are taken for one. -/
theorem unreported_of_signature_eq {fk' : LogicalFk} (hkeys : KeysDistinct tables)
    (hfk : fk.Over {table | table ∈ tables})
    (hfk' : fk'.Over {table | table ∈ tables}) (hne : fk ≠ fk')
    (hsignature : fk.signature = fk'.signature) :
    (diffSnapshots (justKey tables fk) (justKey tables fk')).summary.hasChanges = false ∧
      (justKey tables fk).schema ≠ (justKey tables fk').schema := by
  have hdistinct : ∀ k : LogicalFk, KeysDistinct (justKey tables k).tableNames := by
    intro k
    rwa [tableNames_justKey]
  constructor
  · rw [diffSnapshots, hasChanges_eq_false_iff]
    refine ⟨fun key => Iff.rfl, fun key bt tt hb ht => ?_, fun signature => ?_⟩
    · have htables : (indexSnapshot (justKey tables fk)).tables =
          (indexSnapshot (justKey tables fk')).tables := rfl
      rw [htables, ht, Option.some.injEq] at hb
      rw [hb]
      exact ⟨fun _ => rfl, rfl, rfl⟩
    · rw [Snapshot.mem_keys_fks_iff (hdistinct fk), Snapshot.mem_keys_fks_iff (hdistinct fk')]
      simp only [mem_foreignKeys_justKey hfk, mem_foreignKeys_justKey hfk', exists_eq_left,
        hsignature]
  · intro h
    have hmem : fk ∈ (justKey tables fk').foreignKeys :=
      (Set.ext_iff.mp (congrArg Schema.foreignKeys h) fk).mp
        ((mem_foreignKeys_justKey hfk).mpr rfl)
    exact hne ((mem_foreignKeys_justKey hfk').mp hmem)

end

/-! ## Exactly when -/

/-- All tables and foreign keys of the snapshot are among these. -/
structure Snapshot.Within (s : Snapshot Oid) (tables : Set TableName) (fks : Set LogicalFk) :
    Prop where
  tables : ∀ table ∈ s.tableNames, table ∈ tables
  fks : ∀ fk ∈ s.foreignKeys, fk ∈ fks

/-- The diff of two snapshots answers as their logical schemas do. -/
def DiffRight (base : Snapshot Oid) (target : Snapshot Oid') : Prop :=
  (diffSnapshots base target).summary.hasChanges = false ↔ base.schema = target.schema

theorem Snapshot.Within.over {s : Snapshot Oid} {tables : Set TableName} {fks : Set LogicalFk}
    (h : s.Within tables fks) {fk : LogicalFk} (hm : fk ∈ s.foreignKeys) :
    fk ∈ fks ∧ fk.Over tables := by
  have hends := Snapshot.over_of_mem_foreignKeys hm
  exact ⟨h.fks fk hm, h.tables _ hends.child, h.tables _ hends.parent, hends.ne_nil,
    hends.length_eq⟩

section
variable {tables : Set TableName} {fks : Set LogicalFk}

/-- With two tables of one key, some diff is wrong. -/
theorem exists_wrong_of_key_eq {table table' : TableName} (ht : table ∈ tables)
    (ht' : table' ∈ tables) (hne : table ≠ table') (hkey : table.key = table'.key) :
    ∃ base target : Snapshot Nat, base.WellFormed ∧ target.WellFormed ∧
      base.Within tables fks ∧ target.Within tables fks ∧ ¬ DiffRight base target := by
  obtain ⟨hchanges, hschema⟩ := unreported_of_key_eq hne hkey
  have hwithin : ∀ t ∈ tables, (justTable t).Within tables fks := by
    intro t htable
    refine ⟨fun table hm => ?_, fun fk hm => absurd hm List.not_mem_nil⟩
    rwa [List.mem_singleton.mp hm]
  exact ⟨_, _, wellFormed_justTable table, wellFormed_justTable table', hwithin table ht,
    hwithin table' ht', fun h => hschema (h.mp hchanges)⟩

/-- With two foreign keys of one signature, some diff is wrong. -/
theorem exists_wrong_of_signature_eq
    (hkeys : ∀ table ∈ tables, ∀ table' ∈ tables, table.key = table'.key → table = table')
    {fk fk' : LogicalFk} (hfk : fk ∈ fks) (hfk' : fk' ∈ fks) (hover : fk.Over tables)
    (hover' : fk'.Over tables) (hne : fk ≠ fk') (hsignature : fk.signature = fk'.signature) :
    ∃ base target : Snapshot Nat, base.WellFormed ∧ target.WellFormed ∧
      base.Within tables fks ∧ target.Within tables fks ∧ ¬ DiffRight base target := by
  -- both snapshots have the tables at the ends of both keys, and one of the keys
  set names := [fk.child, fk.parent, fk'.child, fk'.parent].dedup with hnames
  have hmem : ∀ table ∈ names, table ∈ tables := by
    intro table hm
    rw [hnames, List.mem_dedup] at hm
    simp only [List.mem_cons, List.not_mem_nil, or_false] at hm
    rcases hm with rfl | rfl | rfl | rfl
    exacts [hover.child, hover.parent, hover'.child, hover'.parent]
  have hends : fk.Over {table | table ∈ names} :=
    ⟨List.mem_dedup.mpr (by simp), List.mem_dedup.mpr (by simp), hover.ne_nil, hover.length_eq⟩
  have hends' : fk'.Over {table | table ∈ names} :=
    ⟨List.mem_dedup.mpr (by simp), List.mem_dedup.mpr (by simp), hover'.ne_nil,
      hover'.length_eq⟩
  have hdistinct : KeysDistinct names := fun t ht t' ht' => hkeys t (hmem t ht) t' (hmem t' ht')
  have hwithin : ∀ k : LogicalFk, k ∈ fks → k.Over {table | table ∈ names} →
      (justKey names k).Within tables fks := by
    intro k hk hkends
    constructor
    · intro table hm
      rw [tableNames_justKey] at hm
      exact hmem table hm
    · intro k' hm
      rwa [(mem_foreignKeys_justKey hkends).mp hm]
  have hnodup : names.Nodup := List.nodup_dedup _
  obtain ⟨hchanges, hschema⟩ := unreported_of_signature_eq hdistinct hends hends' hne hsignature
  exact ⟨_, _, wellFormed_justKey hnodup, wellFormed_justKey hnodup, hwithin fk hfk hends,
    hwithin fk' hfk' hends', fun h => hschema (h.mp hchanges)⟩

end

/-- **The diff is complete and sound for all snapshots over some tables and foreign keys exactly
    when these have different texts:** no two of the tables one key, and no two of the foreign
    keys one signature. -/
theorem diffSnapshots_right_iff (tables : Set TableName) (fks : Set LogicalFk) :
    (∀ (Oid Oid' : Type) [DecidableEq Oid] [DecidableEq Oid'] (base : Snapshot Oid)
        (target : Snapshot Oid'), base.WellFormed → target.WellFormed →
          base.Within tables fks → target.Within tables fks → DiffRight base target) ↔
      (∀ table ∈ tables, ∀ table' ∈ tables, table.key = table'.key → table = table') ∧
      ∀ fk ∈ fks, ∀ fk' ∈ fks, fk.Over tables → fk'.Over tables →
        fk.signature = fk'.signature → fk = fk' := by
  constructor
  · intro h
    have hkeys : ∀ table ∈ tables, ∀ table' ∈ tables, table.key = table'.key →
        table = table' := by
      intro table ht table' ht' hkey
      by_contra hne
      obtain ⟨base, target, hb, ht, hbase, htarget, hwrong⟩ :=
        @exists_wrong_of_key_eq tables fks _ _ ht ht' hne hkey
      exact hwrong (h Nat Nat base target hb ht hbase htarget)
    refine ⟨hkeys, fun fk hfk fk' hfk' hover hover' hsignature => ?_⟩
    by_contra hne
    obtain ⟨base, target, hb, ht, hbase, htarget, hwrong⟩ :=
      exists_wrong_of_signature_eq hkeys hfk hfk' hover hover' hne hsignature
    exact hwrong (h Nat Nat base target hb ht hbase htarget)
  · rintro ⟨htables, hfks⟩ Oid Oid' _ _ base target hbase htarget hb ht
    have hover : ∀ fk ∈ base.foreignKeys ++ target.foreignKeys, fk ∈ fks ∧ fk.Over tables := by
      intro fk hm
      rcases List.mem_append.mp hm with hm | hm
      · exact hb.over hm
      · exact ht.over hm
    have hnames : ∀ table ∈ base.tableNames ++ target.tableNames, table ∈ tables := by
      intro table hm
      rcases List.mem_append.mp hm with hm | hm
      · exact hb.tables table hm
      · exact ht.tables table hm
    refine hasChanges_iff_schema hbase htarget ⟨fun t hm t' hm' => ?_, fun fk hm fk' hm' => ?_⟩
    · exact htables t (hnames t hm) t' (hnames t' hm')
    · exact hfks fk (hover fk hm).1 fk' (hover fk' hm').1 (hover fk hm).2 (hover fk' hm').2

-- a key on the column "a,b" and one on "a" and "b" have one signature
example : (LogicalFk.mk ⟨"s".toList, "c".toList⟩ ["a,b".toList] ⟨"s".toList, "p".toList⟩
    ["x,y".toList]).signature = (LogicalFk.mk ⟨"s".toList, "c".toList⟩ ["a".toList, "b".toList]
      ⟨"s".toList, "p".toList⟩ ["x".toList, "y".toList]).signature := by decide

end PgErdCloud.Diff
