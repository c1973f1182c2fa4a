/-
  The rows of a parsed document refer to each other: which of it holds for every text, and
  what the text has to do for the rest. A column that a reference names is never looked up.

  `consistent_parseDbml_iff` is about every text: its rows fit together exactly when no key column
  is declared twice and every reference between tables is between declared columns.
-/
import PgErdCloud.Dbml.Content

namespace PgErdCloud.Dbml

open Lib Lib.PyStr

variable {chars : Chars}

/-! ## Consistent snapshots -/

/-- The relation with the oid has a column with the name. -/
def Snapshot.HasColumn (snap : Snapshot) (oid : Nat) (name : Str) : Prop :=
  ∃ c ∈ snap.columns, c.relationOid = oid ∧ c.columnName = name

/-- The constraint that is made of an edge, at the position of a column with its name. -/
def Snapshot.HasConstraint (snap : Snapshot) (e : FkEdge) : Prop :=
  ∃ k ∈ snap.constraints, k.constraintOid = 300000 + e.fkConstraintOid ∧
    k.constraintType = 'f' ∧ k.constraintName = e.fkConstraintName ∧
    k.relationOid = e.childRelationOid ∧
    ∃ c ∈ snap.columns, c.relationOid = e.childRelationOid ∧ c.columnName = e.childColumnName ∧
      k.constrainedAttnums = [c.columnPosition]

/-- A snapshot whose rows fit together: numbers and names are given once, and every column, key and
    foreign key is of a table that is there. -/
structure Consistent (snap : Snapshot) : Prop where
  oids : (snap.relations.map Relation.relationOid).Nodup
  names : (snap.relations.map Relation.key).Nodup
  columns : ∀ c ∈ snap.columns, ∃ r ∈ snap.relations, r.relationOid = c.relationOid
  pkColumns : ∀ pk ∈ snap.pkColumns, snap.HasColumn pk.relationOid pk.columnName
  pkOnce : (snap.pkColumns.map fun pk => (pk.relationOid, pk.columnName)).Nodup
  ends : ∀ e ∈ snap.fkEdges, snap.HasColumn e.childRelationOid e.childColumnName ∧
    snap.HasColumn e.parentRelationOid e.parentColumnName
  attnums : ∀ e ∈ snap.fkEdges, snap.HasConstraint e

/-! ## What a text declares -/

/-- The references between tables of the document, in its order. -/
def references (chars : Chars) (es : List Event) : List FkSpec :=
  (es.filterMap (specOf chars)).filter fun spec =>
    spec.child ∈ tablesOf es ∧ spec.parent ∈ tablesOf es

/-- A line of the table declares the column. -/
def DeclaresColumn (es : List Event) (table : TableKey) (name : Str) : Prop :=
  ∃ dataType settings, .column table name dataType settings ∈ es

theorem mem_columnOf_iff {es : List Event} {table : TableKey} {name : Str} :
    (∃ i ∈ es.filterMap (columnOf chars), i.table = table ∧ i.name = name) ↔
      DeclaresColumn es table name := by
  constructor
  · rintro ⟨i, hi, rfl, rfl⟩
    obtain ⟨e, he, hi⟩ := List.mem_filterMap.mp hi
    cases e with
    | column table name dataType settings =>
        obtain rfl := Option.some.inj hi
        exact ⟨dataType, settings, he⟩
    | table => exact absurd hi (by simp [columnOf])
    | reference => exact absurd hi (by simp [columnOf])
  · rintro ⟨dataType, settings, he⟩
    exact ⟨_, List.mem_filterMap.mpr ⟨_, he, rfl⟩, rfl, rfl⟩

theorem declaresColumn_of_mem_pkColumnOf {es : List Event} {pk : TableKey × Str}
    (h : pk ∈ es.filterMap (pkColumnOf chars)) : DeclaresColumn es pk.1 pk.2 := by
  obtain ⟨e, he, hpk⟩ := List.mem_filterMap.mp h
  cases e with
  | column table name dataType settings =>
      rw [pkColumnOf] at hpk
      split_ifs at hpk
      obtain rfl := Option.some.inj hpk
      exact ⟨dataType, settings, he⟩
  | table => exact absurd hpk (by simp [pkColumnOf])
  | reference => exact absurd hpk (by simp [pkColumnOf])

/-! ## Numbers of tables -/

variable {s : ParseState} {es : List Event}

theorem Tracks.oidOf_inj (h : Tracks chars s es) {t t' : TableKey} (ht : t ∈ tablesOf es)
    (ht' : t' ∈ tablesOf es) (heq : oidOf s.oidByTable t = oidOf s.oidByTable t') : t = t' := by
  let snap : Snapshot := ⟨[], s.relations, [], [], [], []⟩
  have hback : snap.keyOf (oidOf s.oidByTable t) = t := h.keyOf_oidOf rfl ht
  have hback' : snap.keyOf (oidOf s.oidByTable t') = t' := h.keyOf_oidOf rfl ht'
  rw [← hback, heq, hback']

theorem Tracks.nodup_oids (h : Tracks chars s es) :
    (s.relations.map Relation.relationOid).Nodup := by
  have hoids : s.relations.map Relation.relationOid = s.oidByTable.values := by
    rw [h.relations, List.map_map]
    rfl
  rw [hoids, h.values]
  exact List.nodup_range'

theorem Tracks.nodup_names (h : Tracks chars s es) : (s.relations.map Relation.key).Nodup := by
  have hnames : s.relations.map Relation.key = s.oidByTable.keys := by
    rw [h.relations, List.map_map]
    rfl
  rw [hnames]
  exact s.oidByTable.nodup

/-- A table of the document has a relation with its number. -/
theorem Tracks.exists_relation (h : Tracks chars s es) {table : TableKey}
    (htable : table ∈ tablesOf es) :
    ∃ r ∈ s.relations, r.relationOid = oidOf s.oidByTable table := by
  obtain ⟨oid, hoid⟩ := Dict.mem_keys_iff.mp (h.keys.symm ▸ htable)
  refine ⟨⟨oid, table.1, table.2⟩, ?_, by rw [oidOf, hoid, Option.getD_some]⟩
  rw [h.relations]
  exact List.mem_map.mpr ⟨(table, oid), Dict.mem_items_iff.mpr hoid, rfl⟩

theorem DeclaresColumn.mem_tablesOf (h : Tracks chars s es) {table : TableKey} {name : Str}
    (hcol : DeclaresColumn es table name) : table ∈ tablesOf es := by
  obtain ⟨dataType, settings, he⟩ := hcol
  exact h.known table name dataType settings he

/-! ## Columns -/

theorem Tracks.hasColumn_iff (h : Tracks chars s es) {snap : Snapshot}
    (hsnap : snap.columns = s.columns) {table : TableKey} (htable : table ∈ tablesOf es)
    (name : Str) :
    snap.HasColumn (oidOf s.oidByTable table) name ↔ DeclaresColumn es table name := by
  have hpairs : s.columns.map (fun c => (c.relationOid, c.columnName)) =
      (es.filterMap (columnOf chars)).map fun i => (oidOf s.oidByTable i.table, i.name) := by
    have hcolumns := congrArg (List.map fun r : Nat × Str × Str × Bool × Bool => (r.1, r.2.1))
      h.columns
    rw [List.map_map, List.map_map] at hcolumns
    exact hcolumns
  have hmem : snap.HasColumn (oidOf s.oidByTable table) name ↔
      (oidOf s.oidByTable table, name) ∈
        s.columns.map fun c => (c.relationOid, c.columnName) := by
    rw [Snapshot.HasColumn, hsnap, List.mem_map]
    simp only [Prod.mk.injEq]
  rw [hmem, hpairs, List.mem_map, ← @mem_columnOf_iff chars]
  constructor
  · rintro ⟨i, hi, heq⟩
    obtain ⟨hoid, hname⟩ := Prod.mk.inj heq
    have hi' := DeclaresColumn.mem_tablesOf h (mem_columnOf_iff.mp ⟨i, hi, rfl, rfl⟩)
    exact ⟨i, hi, h.oidOf_inj hi' htable hoid, hname⟩
  · rintro ⟨i, hi, rfl, rfl⟩
    exact ⟨i, hi, rfl⟩

/-- Every row of a column belongs to a line of a table. -/
theorem Tracks.exists_declared (h : Tracks chars s es) {c : Column} (hc : c ∈ s.columns) :
    ∃ table, c.relationOid = oidOf s.oidByTable table ∧ table ∈ tablesOf es := by
  have hmem := List.mem_map_of_mem (f := fun c : Column =>
    (c.relationOid, c.columnName, c.dataType, c.isNotNull, c.hasDefault)) hc
  rw [h.columns] at hmem
  obtain ⟨i, hi, heq⟩ := List.mem_map.mp hmem
  obtain ⟨hoid, -⟩ := Prod.mk.inj heq
  exact ⟨i.table, hoid.symm,
    DeclaresColumn.mem_tablesOf h (mem_columnOf_iff.mp ⟨i, hi, rfl, rfl⟩)⟩

theorem Tracks.forall_pkColumns (h : Tracks chars s es) {P : Nat × Str → Prop} :
    (∀ pk ∈ s.pkColumns, P (pk.relationOid, pk.columnName)) ↔
      ∀ pk ∈ es.filterMap (pkColumnOf chars), P (oidOf s.oidByTable pk.1, pk.2) := by
  have hleft : (∀ pk ∈ s.pkColumns, P (pk.relationOid, pk.columnName)) ↔
      ∀ r ∈ s.pkColumns.map (fun pk => (pk.relationOid, pk.columnName)), P r := by
    rw [List.forall_mem_map]
  rw [hleft, h.pkColumns, List.forall_mem_map]

theorem Tracks.nodup_pkColumns_iff (h : Tracks chars s es) :
    (s.pkColumns.map fun pk => (pk.relationOid, pk.columnName)).Nodup ↔
      (es.filterMap (pkColumnOf chars)).Nodup := by
  rw [h.pkColumns]
  refine ⟨fun hmap => List.Nodup.of_map _ hmap, fun hnodup => ?_⟩
  refine List.Nodup.map_on (fun pk hpk pk' hpk' heq => ?_) hnodup
  obtain ⟨hoid, hname⟩ := Prod.mk.inj heq
  have htable := DeclaresColumn.mem_tablesOf h (declaresColumn_of_mem_pkColumnOf hpk)
  have htable' := DeclaresColumn.mem_tablesOf h (declaresColumn_of_mem_pkColumnOf hpk')
  exact Prod.ext (h.oidOf_inj htable htable' hoid) hname

/-! ## Edges -/

/-- An edge without its number. -/
def FkEdge.row (e : FkEdge) : Nat × Str × Nat × Str × Str :=
  (e.childRelationOid, e.childColumnName, e.parentRelationOid, e.parentColumnName,
    e.fkConstraintName)

/-- The name of the constraint of a reference. -/
def FkSpec.constraintName (spec : FkSpec) : Str :=
  "fk_".toList ++ spec.child.2 ++ "_".toList ++ spec.childColumn

/-- What a row of `fk_edges` says of a reference. -/
def FkSpec.row (d : Dict TableKey Nat) (spec : FkSpec) : Nat × Str × Nat × Str × Str :=
  (oidOf d spec.child, spec.childColumn, oidOf d spec.parent, spec.parentColumn,
    spec.constraintName)

/-- **The edges** are the references between tables of the document. -/
theorem Tracks.fkEdges (h : Tracks chars s es) :
    (fkEdgesOf s).map FkEdge.row = (references chars es).map (FkSpec.row s.oidByTable) := by
  rw [references, ← h.fkSpecs]
  refine map_filterMap_zipIdx _ (fkEdgeOf s.oidByTable) _ _ _
    (fun spec _ hp i => ?_) (fun spec _ hp i => ?_) 1
  · obtain ⟨hchild, hparent⟩ := of_decide_eq_true hp
    obtain ⟨child, hc⟩ := Dict.mem_keys_iff.mp (h.keys.symm ▸ hchild)
    obtain ⟨parent, hp⟩ := Dict.mem_keys_iff.mp (h.keys.symm ▸ hparent)
    refine ⟨_, by rw [fkEdgeOf, hc, hp], ?_⟩
    rw [FkSpec.row, oidOf, oidOf, hc, hp]
    rfl
  · have hmissing := of_decide_eq_false hp
    rw [← h.keys, not_and_or, ← Dict.get?_eq_none_iff, ← Dict.get?_eq_none_iff] at hmissing
    rcases hmissing with hm | hm
    · rw [fkEdgeOf, hm]
    · rw [fkEdgeOf, hm]
      cases s.oidByTable.get? spec.child <;> rfl

theorem Tracks.forall_fkEdges (h : Tracks chars s es) {P : Nat × Str × Nat × Str × Str → Prop} :
    (∀ e ∈ fkEdgesOf s, P e.row) ↔
      ∀ spec ∈ references chars es, P (spec.row s.oidByTable) := by
  have hleft : (∀ e ∈ fkEdgesOf s, P e.row) ↔ ∀ r ∈ (fkEdgesOf s).map FkEdge.row, P r := by
    rw [List.forall_mem_map]
  rw [hleft, h.fkEdges, List.forall_mem_map]

/-- A column is found at the position of one with its name. -/
theorem hasConstraint_of_hasColumn {chars : Chars} {text : Str} {e : FkEdge}
    (he : e ∈ (parseDbml chars text).fkEdges)
    (hcol : (parseDbml chars text).HasColumn e.childRelationOid e.childColumnName) :
    (parseDbml chars text).HasConstraint e := by
  obtain ⟨c, hc, hoid, hname⟩ := hcol
  have hfind : ∃ c' ∈ (parseDbml chars text).columns, c'.relationOid = e.childRelationOid ∧
      c'.columnName = e.childColumnName ∧
      positionOf (parseDbml chars text).columns e.childRelationOid e.childColumnName =
        some c'.columnPosition := by
    cases hf : (parseDbml chars text).columns.reverse.find? fun c =>
        c.relationOid = e.childRelationOid ∧ c.columnName = e.childColumnName with
    | none =>
        have hnone := List.find?_eq_none.mp hf c (List.mem_reverse.mpr hc)
        exact absurd (decide_eq_true ⟨hoid, hname⟩) hnone
    | some c' =>
        have hfound : c'.relationOid = e.childRelationOid ∧ c'.columnName = e.childColumnName := by
          simpa using List.find?_some hf
        obtain ⟨hoid', hname'⟩ := hfound
        refine ⟨c', List.mem_reverse.mp (List.mem_of_find?_eq_some hf), hoid', hname', ?_⟩
        rw [positionOf, hf, Option.map_some]
  obtain ⟨c', hc', hoid', hname', hposition⟩ := hfind
  refine ⟨_, List.mem_append_right _ (List.mem_map_of_mem he), rfl, rfl, rfl, rfl, c', hc', hoid',
    hname', ?_⟩
  have hgetD := congrArg (fun position => [Option.getD position 1]) hposition
  exact hgetD

/-! ## Consistency -/

/-- **A parsed document is consistent** exactly when no line repeats a key column of its table
    and every reference between tables of the document names columns that they declare. -/
theorem consistent_parseDbml_iff (chars : Chars) (text : Str) :
    Consistent (parseDbml chars text) ↔
      ((events chars text).filterMap (pkColumnOf chars)).Nodup ∧
      ∀ spec ∈ references chars (events chars text),
        DeclaresColumn (events chars text) spec.child spec.childColumn ∧
          DeclaresColumn (events chars text) spec.parent spec.parentColumn := by
  have h : Tracks chars (parseLines chars text) (events chars text) := tracks_parseLines text
  have hends : (∀ e ∈ (parseDbml chars text).fkEdges,
      (parseDbml chars text).HasColumn e.childRelationOid e.childColumnName ∧
        (parseDbml chars text).HasColumn e.parentRelationOid e.parentColumnName) ↔
      ∀ spec ∈ references chars (events chars text),
        DeclaresColumn (events chars text) spec.child spec.childColumn ∧
          DeclaresColumn (events chars text) spec.parent spec.parentColumn := by
    refine (h.forall_fkEdges (P := fun r => (parseDbml chars text).HasColumn r.1 r.2.1 ∧
      (parseDbml chars text).HasColumn r.2.2.1 r.2.2.2.1)).trans ?_
    refine forall₂_congr fun spec hspec => ?_
    obtain ⟨hchild, hparent⟩ := of_decide_eq_true (List.mem_filter.mp hspec).2
    exact and_congr (h.hasColumn_iff rfl hchild _) (h.hasColumn_iff rfl hparent _)
  constructor
  · intro hc
    exact ⟨h.nodup_pkColumns_iff.mp hc.pkOnce, hends.mp hc.ends⟩
  · rintro ⟨hpk, hrefs⟩
    refine ⟨h.nodup_oids, h.nodup_names, ?_, ?_, h.nodup_pkColumns_iff.mpr hpk, hends.mpr hrefs,
      fun e he => hasConstraint_of_hasColumn he (hends.mpr hrefs e he).1⟩
    · intro c hc
      obtain ⟨table, hoid, htable⟩ := h.exists_declared hc
      rw [hoid]
      exact h.exists_relation htable
    · refine (h.forall_pkColumns (P := fun r => (parseDbml chars text).HasColumn r.1 r.2)).mpr ?_
      intro pk hpk
      have hdeclared := declaresColumn_of_mem_pkColumnOf hpk
      exact (h.hasColumn_iff rfl (DeclaresColumn.mem_tablesOf h hdeclared) _).mpr hdeclared

/-- Tables without columns, and a reference between them. -/
def emptyTables : Str := "Table a \x7b\n\x7d\nTable b \x7b\n\x7d\nRef: a.x > b.y\n".toList

theorem not_consistent_emptyTables :
    ¬ ∀ text, Consistent (parseDbml asciiChars text) := by
  intro hall
  have hrows : (parseDbml asciiChars emptyTables).columns = [] ∧
      (parseDbml asciiChars emptyTables).fkEdges.map FkEdge.row =
        [(1, "x".toList, 2, "y".toList, "fk_a_x".toList)] := by
    decide +kernel
  obtain ⟨e, he, -⟩ := List.mem_map.mp (hrows.2 ▸ List.mem_cons_self)
  obtain ⟨⟨c, hc, -⟩, -⟩ := (hall emptyTables).ends e he
  rw [hrows.1] at hc
  exact absurd hc List.not_mem_nil

end PgErdCloud.Dbml
