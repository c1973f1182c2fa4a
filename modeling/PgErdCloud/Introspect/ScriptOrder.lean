/-
  The order of a PostgreSQL script that is exported from what introspection returns: whether
  a partition stands behind its parent, and whether each constraint and each index stands
  behind its table. Both are questions about the catalog: the rows come sorted by schema, kind
  and name, and the index query admits materialized views, which the exporter leaves out.

  `partitions_follow_parents_iff` and `targets_created_iff` are about every catalog and schema
  filter: partitions follow their parents exactly when these are in scope and come first by name,
  and every index has its table exactly when no materialized view in scope has an index.
-/
import PgErdCloud.Introspect.Catalog
import PgErdCloud.Ddl.ExportFacts

namespace PgErdCloud.Introspect

open Lib Lib.PyStr Ddl Diff

/-! ## Properties of a script -/

/-- Every partition comes after the table that it is a partition of. -/
def PartitionsFollowParents (stmts : List ExportStmt) : Prop :=
  ∀ before table parent bound key tablespace after,
    stmts = before ++ .createPartition table parent bound key tablespace :: after →
      ∃ stmt ∈ before, parent ∈ stmt.creates

/-- Every constraint and every index comes after the table that it is for. -/
def TargetsCreated (stmts : List ExportStmt) : Prop :=
  ∀ before stmt after, stmts = before ++ stmt :: after →
    ∀ table ∈ stmt.needsTable, ∃ earlier ∈ before, table ∈ earlier.creates

theorem partitionsFollowParents_iff {stmts : List ExportStmt} :
    PartitionsFollowParents stmts ↔
      Ordered ExportStmt.creates ExportStmt.needsParent ∅ stmts := by
  rw [ordered_iff_forall_split]
  simp only [Set.empty_union]
  constructor
  · rintro h before stmt after hstmts parent hparent
    cases stmt with
    | createPartition table p bound key tablespace =>
        obtain rfl := Set.mem_singleton_iff.mp hparent
        exact h before table parent bound key tablespace after hstmts
    | _ => exact absurd hparent (Set.notMem_empty parent)
  · intro h before table parent bound key tablespace after hstmts
    exact h before _ after hstmts (Set.mem_singleton parent)

theorem targetsCreated_iff {stmts : List ExportStmt} :
    TargetsCreated stmts ↔ Ordered ExportStmt.creates ExportStmt.needsTable ∅ stmts := by
  rw [ordered_iff_forall_split]
  simp only [Set.empty_union]
  rfl

section
variable {unicode : Unicode} {s : ExportSnapshot}

/-- The partitions of a script are in order when the rows of its tables are. -/
theorem partitionsFollowParents_postgresqlStmts :
    PartitionsFollowParents (postgresqlStmts unicode s) ↔
      Ordered ExportRelation.creates ExportRelation.needsParent ∅ (snapshotTables s) := by
  obtain ⟨first, last, hstmts, hfirst, hlast⟩ := postgresqlStmts_split unicode s
  have hnoneFirst : ∀ stmt ∈ first, stmt.creates = ∅ ∧ stmt.needsParent = ∅ := by
    intro stmt hm
    rcases hfirst stmt hm with rfl | rfl | ⟨schema, rfl⟩
    · exact ⟨rfl, rfl⟩
    · exact ⟨rfl, rfl⟩
    · exact ⟨rfl, rfl⟩
  have hcreated : created ExportStmt.creates first = ∅ := by
    ext table
    simp only [created, Set.mem_ofPred_eq, Set.mem_empty_iff_false, iff_false]
    rintro ⟨stmt, hm, ht⟩
    rw [(hnoneFirst stmt hm).1] at ht
    exact ht
  have hneedsLast : ∀ stmt ∈ last, stmt.needsParent = ∅ := by
    intro stmt hm
    rw [hlast, List.mem_append, List.mem_append] at hm
    rcases hm with (hm | hm) | hm
    · rcases mem_renderForeignKeys hm with rfl | rfl | ⟨_, _, _, _, _, _, _, _, rfl⟩
      · rfl
      · rfl
      · rfl
    · rcases (mem_renderIndexesPg unicode).mp hm with ⟨-, rfl⟩ | ⟨ix, -, hix⟩
      · rfl
      · obtain ⟨definition, tablespace, rfl⟩ := renderIndexPg_eq_some unicode hix
        rfl
    · rw [List.mem_singleton.mp hm]
      rfl
  rw [partitionsFollowParents_iff, hstmts, ordered_append, ordered_append, hcreated,
    Set.empty_union, ordered_flatMap _ _ _ (fun rel _ => created_renderTablePg unicode s rel)
      (fun rel _ seen => ordered_renderTablePg unicode s rel seen)]
  constructor
  · rintro ⟨⟨-, h⟩, -⟩
    exact h
  · intro h
    refine ⟨⟨?_, h⟩, ?_⟩
    · refine ordered_of_subset _ _ _ fun stmt hm => ?_
      rw [(hnoneFirst stmt hm).2]
    · refine ordered_of_subset _ _ _ fun stmt hm => ?_
      rw [hneedsLast stmt hm]
      exact Set.empty_subset _

/-- Constraints and indexes come last: they are in order when the rows have their tables. -/
theorem targetsCreated_postgresqlStmts :
    TargetsCreated (postgresqlStmts unicode s) ↔
      ∀ stmt ∈ renderForeignKeys s.constraints ++ renderIndexesPg unicode s.indexes,
        stmt.needsTable ⊆ created ExportRelation.creates (snapshotTables s) := by
  obtain ⟨first, last, hstmts, hfirst, hlast⟩ := postgresqlStmts_split unicode s
  have hneedsFirst : ∀ stmt ∈ first ++ (snapshotTables s).flatMap (renderTablePg unicode s),
      stmt.needsTable = ∅ := by
    intro stmt hm
    rcases List.mem_append.mp hm with hm | hm
    · rcases hfirst stmt hm with rfl | rfl | ⟨schema, rfl⟩
      · rfl
      · rfl
      · rfl
    · obtain ⟨rel, -, hm⟩ := List.mem_flatMap.mp hm
      rcases renderTablePg_cases unicode s rel with ⟨h, -⟩ | ⟨_, _, _, -, h, -⟩ |
        ⟨table, _, notes, -, hnotes, h, -⟩
      · simp [h] at hm
      · rw [h] at hm
        simp only [List.mem_cons, List.not_mem_nil, or_false] at hm
        rcases hm with rfl | rfl
        · rfl
        · rfl
      · rw [h, List.mem_append] at hm
        rcases hm with hm | hm
        · rw [hnotes stmt hm]
          rfl
        · simp only [List.mem_cons, List.not_mem_nil, or_false] at hm
          rcases hm with rfl | rfl
          · rfl
          · rfl
  have hcreated : created ExportStmt.creates
      (first ++ (snapshotTables s).flatMap (renderTablePg unicode s)) =
        created ExportRelation.creates (snapshotTables s) := by
    rw [created_append, created_tables]
    have hnone : created ExportStmt.creates first = ∅ := by
      ext table
      simp only [created, Set.mem_ofPred_eq, Set.mem_empty_iff_false, iff_false]
      rintro ⟨stmt, hm, ht⟩
      rcases hfirst stmt hm with rfl | rfl | ⟨schema, rfl⟩
      · exact ht
      · exact ht
      · exact ht
    rw [hnone, Set.empty_union]
  have hcreatesLast : ∀ stmt ∈ last, stmt.creates = ∅ := by
    intro stmt hm
    rw [hlast, List.mem_append, List.mem_append] at hm
    rcases hm with (hm | hm) | hm
    · rcases mem_renderForeignKeys hm with rfl | rfl | ⟨_, _, _, _, _, _, _, _, rfl⟩
      · rfl
      · rfl
      · rfl
    · rcases (mem_renderIndexesPg unicode).mp hm with ⟨-, rfl⟩ | ⟨ix, -, hix⟩
      · rfl
      · obtain ⟨definition, tablespace, rfl⟩ := renderIndexPg_eq_some unicode hix
        rfl
    · rw [List.mem_singleton.mp hm]
      rfl
  rw [targetsCreated_iff, hstmts, ordered_append, hcreated, Set.empty_union,
    ordered_iff_of_creates_nothing _ _ _ hcreatesLast, hlast]
  constructor
  · rintro ⟨-, h⟩ stmt hm
    exact h stmt (List.mem_append_left _ hm)
  · intro h
    constructor
    · refine ordered_of_subset _ _ _ fun stmt hm => ?_
      rw [hneedsFirst stmt hm]
    · intro stmt hm
      rcases List.mem_append.mp hm with hm | hm
      · exact h stmt hm
      · rw [List.mem_singleton.mp hm]
        exact Set.empty_subset _

end

/-! ## The tables of a catalog -/

/-- The exporter writes a `CREATE TABLE` for the relation. -/
def Exported (schemaFilter : Option Str) (c : PgClass) : Prop :=
  (c.kind = .table ∨ c.kind = .partitioned) ∧ inScope schemaFilter c.schema = true

/-- The place of a relation in the order of the relation query. -/
def PgClass.key (c : PgClass) : Str ×ₗ Str ×ₗ Str := toLex (c.schema, toLex (c.kind.text, c.name))

section
variable {cat : Catalog} {schemaFilter : Option Str}

theorem mem_snapshotTables {rel : ExportRelation} :
    rel ∈ snapshotTables (introspectPostgres cat schemaFilter) ↔ ∃ c ∈ cat.classes,
      Exported schemaFilter c ∧ rel ∈ relationRows cat.classes c := by
  unfold snapshotTables
  rw [List.mem_filter, decide_eq_true_eq]
  show rel ∈ relationsSql cat schemaFilter ∧ _ ↔ _
  rw [mem_relationsSql]
  have hkind : ∀ k : RelKind, (some k.text = some "r".toList ∨ some k.text = some "p".toList) ↔
      (k = .table ∨ k = .partitioned) := by
    intro k
    cases k <;> decide
  constructor
  · rintro ⟨⟨c, hc, hshown, hrel⟩, hk⟩
    obtain ⟨parent, rfl⟩ := exists_of_mem_relationRows hrel
    rw [isShown, Bool.and_eq_true] at hshown
    exact ⟨c, hc, ⟨(hkind c.kind).mp hk, hshown.2⟩, hrel⟩
  · rintro ⟨c, hc, ⟨hk, hscope⟩, hrel⟩
    obtain ⟨parent, rfl⟩ := exists_of_mem_relationRows hrel
    refine ⟨⟨c, hc, ?_, hrel⟩, (hkind c.kind).mpr hk⟩
    rw [isShown, hscope, Bool.and_true, decide_eq_true_eq]
    rcases hk with h | h
    · simp [h]
    · simp [h]

theorem creates_relationRow (c : PgClass) (parent : Option PgClass) :
    (relationRow c parent).creates = {c.tableName} := by
  ext table
  unfold ExportRelation.creates
  rw [tableOfRow_relationRow]
  simp [relationRow, eq_comm]

theorem created_snapshotTables :
    created ExportRelation.creates (snapshotTables (introspectPostgres cat schemaFilter)) =
      {table | ∃ c ∈ cat.classes, Exported schemaFilter c ∧ c.tableName = table} := by
  ext table
  simp only [created, Set.mem_ofPred_eq]
  constructor
  · rintro ⟨rel, hrel, ht⟩
    obtain ⟨c, hc, hexp, hrow⟩ := mem_snapshotTables.mp hrel
    obtain ⟨parent, rfl⟩ := exists_of_mem_relationRows hrow
    rw [creates_relationRow] at ht
    exact ⟨c, hc, hexp, ht.symm⟩
  · rintro ⟨c, hc, hexp, rfl⟩
    obtain ⟨parent, hrow⟩ : ∃ parent, relationRow c parent ∈ relationRows cat.classes c :=
      exists_relationRow c
    refine ⟨_, mem_snapshotTables.mpr ⟨c, hc, hexp, hrow⟩, ?_⟩
    rw [creates_relationRow]
    exact Set.mem_singleton _

/-- The row of a partition needs its parent. -/
theorem needsParent_partition {c parent : PgClass} (hpart : c.isPartition = true)
    (hbound : c.partitionBound ≠ none) :
    (relationRow c (some parent)).needsParent = {parent.tableName} := by
  obtain ⟨bound, hb⟩ := Option.ne_none_iff_exists'.mp hbound
  have hpartition : (relationRow c (some parent)).partitionOf = some (parent.tableName, bound) := by
    simp [ExportRelation.partitionOf, relationRow, hpart, hb, tableOfRow, PgClass.tableName]
  ext table
  unfold ExportRelation.needsParent
  rw [tableOfRow_relationRow, hpartition]
  simp [relationRow, eq_comm]

theorem isPartition_of_needsParent {c : PgClass} {q : Option PgClass} {table : TableName}
    (h : table ∈ (relationRow c q).needsParent) : c.isPartition = true := by
  obtain ⟨-, -, bound, hb⟩ := h
  by_contra hnot
  simp [ExportRelation.partitionOf, relationRow, hnot] at hb

theorem pairwise_snapshotTables :
    (snapshotTables (introspectPostgres cat schemaFilter)).Pairwise
      fun a b => relationKey a ≤ relationKey b := by
  unfold snapshotTables
  apply List.Pairwise.filter
  exact List.pairwise_insertionSort (fun a b => relationKey a ≤ relationKey b) _

/-! ## Partitions -/

/-- **A partition follows its parent** exactly where, for each exported partition, the parent
    is in the scope of the schema filter and sorts before the partition by schema, kind and
    name. -/
theorem partitions_follow_parents_iff (unicode : Unicode) (cat : Catalog)
    (schemaFilter : Option Str) :
    PartitionsFollowParents
        (postgresqlStmts unicode (introspectPostgres cat schemaFilter)) ↔
      ∀ c ∈ cat.classes, Exported schemaFilter c → c.isPartition = true →
        ∀ parent ∈ cat.classes, c.parents = [parent.oid] →
          inScope schemaFilter parent.schema = true ∧ parent.key < c.key := by
  have hself : ∀ x ∈ snapshotTables (introspectPostgres cat schemaFilter),
      ∀ y ∈ snapshotTables (introspectPostgres cat schemaFilter),
        relationKey y = relationKey x → ∀ table ∈ x.needsParent, table ∉ y.creates := by
    intro x hx y hy hkey table hneeds hcreates
    obtain ⟨c, hc, -, hrow⟩ := mem_snapshotTables.mp hx
    obtain ⟨c', hc', -, hrow'⟩ := mem_snapshotTables.mp hy
    obtain ⟨q, rfl⟩ := exists_of_mem_relationRows hrow
    obtain ⟨q', rfl⟩ := exists_of_mem_relationRows hrow'
    -- rows of one key are of one relation, and no relation is its own parent
    have hname : c'.tableName = c.tableName := by
      have hkey' : c'.key = c.key := hkey
      simp only [PgClass.key, EmbeddingLike.apply_eq_iff_eq, Prod.mk.injEq] at hkey'
      simp only [PgClass.tableName, hkey'.1, hkey'.2.2]
    obtain rfl := Catalog.eq_of_tableName hc' hc hname
    have hpart := isPartition_of_needsParent hneeds
    obtain ⟨parent, hparent, hparents, -, hbound⟩ := cat.partitions _ hc hpart
    rw [relationRows_partition hparent hparents, List.mem_singleton] at hrow
    rw [hrow, needsParent_partition hpart hbound, Set.mem_singleton_iff] at hneeds
    rw [creates_relationRow, Set.mem_singleton_iff, hneeds] at hcreates
    exact Catalog.ne_of_parents hc hparents (Catalog.eq_of_tableName hparent hc hcreates)
  rw [partitionsFollowParents_postgresqlStmts,
    ordered_sorted_iff _ _ relationKey pairwise_snapshotTables hself]
  constructor
  · intro h c hc hexp hpart parent hparent hparents
    obtain ⟨parent', hparent', hparents', -, hbound⟩ := cat.partitions c hc hpart
    have hrow : relationRow c (some parent) ∈
        snapshotTables (introspectPostgres cat schemaFilter) := by
      refine mem_snapshotTables.mpr ⟨c, hc, hexp, ?_⟩
      rw [relationRows_partition hparent hparents]
      exact List.mem_singleton_self _
    have hneeds : parent.tableName ∈ (relationRow c (some parent)).needsParent := by
      rw [needsParent_partition hpart hbound]
      exact Set.mem_singleton _
    obtain ⟨y, hy, hcreates, hlt⟩ := h _ hrow _ hneeds
    obtain ⟨c', hc', hexp', hrow'⟩ := mem_snapshotTables.mp hy
    obtain ⟨q, rfl⟩ := exists_of_mem_relationRows hrow'
    rw [creates_relationRow, Set.mem_singleton_iff] at hcreates
    obtain rfl := Catalog.eq_of_tableName hparent hc' hcreates
    exact ⟨hexp'.2, hlt⟩
  · intro h x hx table hneeds
    obtain ⟨c, hc, hexp, hrow⟩ := mem_snapshotTables.mp hx
    obtain ⟨q, rfl⟩ := exists_of_mem_relationRows hrow
    have hpart := isPartition_of_needsParent hneeds
    obtain ⟨parent, hparent, hparents, hkind, hbound⟩ := cat.partitions c hc hpart
    obtain ⟨hscope, hlt⟩ := h c hc hexp hpart parent hparent hparents
    rw [relationRows_partition hparent hparents, List.mem_singleton] at hrow
    rw [hrow, needsParent_partition hpart hbound, Set.mem_singleton_iff] at hneeds
    obtain ⟨q', hrow'⟩ : ∃ q', relationRow parent q' ∈ relationRows cat.classes parent :=
      exists_relationRow parent
    refine ⟨relationRow parent q',
      mem_snapshotTables.mpr ⟨parent, hparent, ⟨.inr hkind, hscope⟩, hrow'⟩, ?_, hlt⟩
    rw [creates_relationRow, hneeds]
    exact Set.mem_singleton _

/-- A partitioned table and a partition of it that is partitioned again. -/
def subPartitioned : Catalog where
  classes := [
    ⟨1, "public".toList, "events".toList, .partitioned, [], false, some "RANGE (at)".toList, none,
      none⟩,
    ⟨2, "public".toList, "archive".toList, .partitioned, [1], true, some "LIST (kind)".toList,
      some "DEFAULT".toList, none⟩]
  attributes := []
  constraints := []
  indexes := []
  oids := by decide
  names := by decide
  partitions := by decide
  forest := ⟨Int.toNat, by decide⟩
  keysOnTables := by decide
  indexRelation := by decide
  keyIndex := by decide

/-- **A partition before its parent:** "archive" sorts before "events". -/
theorem partition_before_parent :
    ¬ PartitionsFollowParents
      (postgresqlStmts asciiUnicode (introspectPostgres subPartitioned none)) := by
  intro h
  have hstmts : postgresqlStmts asciiUnicode (introspectPostgres subPartitioned none) =
      [.header .postgresql, .createSchema "public".toList, .blank] ++
        .createPartition ⟨"public".toList, "archive".toList⟩ ⟨"public".toList, "events".toList⟩
          "DEFAULT".toList (some "LIST (kind)".toList) none ::
        [.blank,
          .createTable ⟨"public".toList, "events".toList⟩ [] (some "RANGE (at)".toList) none,
          .blank, .blank] := by decide
  obtain ⟨stmt, hm, hcreates⟩ := h _ _ _ _ _ _ _ hstmts
  simp only [List.mem_cons, List.not_mem_nil, or_false] at hm
  rcases hm with rfl | rfl | rfl
  · exact hcreates
  · exact hcreates
  · exact hcreates

/-! ## Constraints and indexes -/

/-- **Each constraint and index follows its table** exactly where no materialized view in the
    scope of the schema filter has an index. -/
theorem targets_created_iff (unicode : Unicode) (cat : Catalog) (schemaFilter : Option Str) :
    TargetsCreated (postgresqlStmts unicode (introspectPostgres cat schemaFilter)) ↔
      ∀ c ∈ cat.classes, c.kind = .materialized → inScope schemaFilter c.schema = true →
        ∀ ix ∈ cat.indexes, ix.relation ≠ c.oid := by
  rw [targetsCreated_postgresqlStmts, created_snapshotTables]
  constructor
  · intro h c hc hkind hscope ix hix hrel
    have hrow : indexRow c ix ∈ indexesSql cat schemaFilter :=
      mem_indexesSql.mpr ⟨ix, hix, c, hc, hrel.symm, by simp [hkind], hscope, rfl⟩
    have hsub := h _ (List.mem_append_right _
      ((mem_renderIndexesPg unicode).mpr (.inr ⟨indexRow c ix, hrow, rfl⟩)))
    obtain ⟨c', hc', hexp, hname⟩ := hsub (a := c.tableName) rfl
    obtain rfl := Catalog.eq_of_tableName hc' hc hname
    rcases hexp.1 with hk | hk
    · rw [hk] at hkind
      exact absurd hkind (by decide)
    · rw [hk] at hkind
      exact absurd hkind (by decide)
  · intro h stmt hm
    rcases List.mem_append.mp hm with hm | hm
    · rcases mem_renderForeignKeys hm with rfl | rfl |
        ⟨row, hrow, htype, table, name, definition, htable, -, rfl⟩
      · exact Set.empty_subset _
      · exact Set.empty_subset _
      · obtain ⟨con, hcon, c, hc, -, hoid, hscope, rfl⟩ := mem_constraintsSql.mp hrow
        have hfk : con.kind = .foreignKey := by
          have hall : ∀ k : ConKind, some k.text = some "f".toList → k = .foreignKey := by
            intro k
            cases k <;> decide
          exact hall con.kind htype
        have hkind := cat.keysOnTables con hcon (by simp [hfk]) c hc hoid
        rintro t rfl
        obtain rfl := Option.some.inj htable
        exact ⟨c, hc, ⟨hkind, hscope⟩, rfl⟩
    · rcases (mem_renderIndexesPg unicode).mp hm with ⟨-, rfl⟩ | ⟨row, hrow, hstmt⟩
      · exact Set.empty_subset _
      · obtain ⟨definition, tablespace, rfl⟩ := renderIndexPg_eq_some unicode hstmt
        obtain ⟨ix, hix, c, hc, hoid, hkind, hscope, rfl⟩ := mem_indexesSql.mp hrow
        intro t ht
        obtain rfl := Option.some.inj ht
        refine ⟨c, hc, ⟨?_, hscope⟩, rfl⟩
        simp only [List.mem_cons, List.not_mem_nil, or_false] at hkind
        rcases hkind with hk | hk | hk
        · exact .inl hk
        · exact .inr hk
        · exact absurd hoid.symm (h c hc hk hscope ix hix)

/-- A materialized view with an index. -/
def indexedView : Catalog where
  classes := [⟨1, "public".toList, "totals".toList, .materialized, [], false, none, none, none⟩]
  attributes := []
  constraints := []
  indexes := [⟨2, "totals_idx".toList, 1, none, none,
    "CREATE INDEX totals_idx ON public.totals USING btree (day)".toList⟩]
  oids := by decide
  names := by decide
  partitions := by decide
  forest := ⟨Int.toNat, by decide⟩
  keysOnTables := by decide
  indexRelation := by decide
  keyIndex := by decide

set_option maxRecDepth 4000 in
/-- **An index without its relation:** the materialized view is not created. -/
theorem index_without_relation :
    ¬ TargetsCreated (postgresqlStmts asciiUnicode (introspectPostgres indexedView none)) := by
  intro h
  have hstmts : postgresqlStmts asciiUnicode (introspectPostgres indexedView none) =
      [.header .postgresql, .indexesHeading .postgresql] ++
        .createIndex (some ⟨"public".toList, "totals".toList⟩) (some "totals_idx".toList)
          "CREATE INDEX CONCURRENTLY totals_idx ON public.totals USING btree (day)".toList none ::
        [.blank] := by decide
  obtain ⟨stmt, hm, hcreates⟩ := h _ _ _ hstmts ⟨"public".toList, "totals".toList⟩ rfl
  simp only [List.mem_cons, List.not_mem_nil, or_false] at hm
  rcases hm with rfl | rfl
  · exact hcreates
  · exact hcreates

end

end PgErdCloud.Introspect
