/-
  The foreign keys of a document in the diff of snapshots. The parser names a key after its
  table and its column; the diff puts the edges of one name between two tables together, and
  tells keys apart by a text of their tables and columns.

  `keysApart_parseDbml_iff` is about every text: the diff sees one foreign key for each reference
  exactly when no two of them share their column, their name or that text.
-/
import PgErdCloud.Dbml.Consistency
import PgErdCloud.Diff.IndexFacts
import PgErdCloud.Lib.DictLoops

namespace PgErdCloud.Dbml

open Lib Lib.PyStr

/-! ## The snapshot that is compared -/

/-- The row as the comparison of snapshots reads it. -/
def FkEdge.toDiff (e : FkEdge) : Diff.FkEdge Nat where
  fkConstraintOid := some e.fkConstraintOid
  fkConstraintName := some e.fkConstraintName
  childRelationOid := some e.childRelationOid
  parentRelationOid := some e.parentRelationOid
  childColumnName := some e.childColumnName
  parentColumnName := some e.parentColumnName
  columnOrdinal := some 1

/-- The snapshot as the diff reads it. -/
def Snapshot.toDiff (snap : Snapshot) : Diff.Snapshot Nat where
  relations := snap.relations.map fun r =>
    ⟨some r.relationOid, some r.schemaName, some r.relationName, none, some "r".toList⟩
  columns := snap.columns.map fun c =>
    ⟨some c.relationOid, some c.columnName, some c.dataType, c.isNotNull⟩
  pkColumns := snap.pkColumns.map fun pk =>
    ⟨some pk.relationOid, some pk.columnName, some (pk.columnOrdinal : Int)⟩
  fkEdges := snap.fkEdges.map FkEdge.toDiff
  sourceDialect := none
  databaseDialect := none
  dialect := none

/-- The text by which the diff knows a table. -/
def label (table : TableKey) : Str := Diff.tableKey (some table.1) (some table.2)

/-- The foreign key of one edge, with its own pair of columns. -/
def Snapshot.foreignKey (snap : Snapshot) (e : FkEdge) : Diff.Fk where
  name := some e.fkConstraintName
  childTable := label (snap.keyOf e.childRelationOid)
  childColumns := [e.childColumnName]
  parentTable := label (snap.keyOf e.parentRelationOid)
  parentColumns := [e.parentColumnName]

/-- Different references of one table have different names, and each edge is one foreign key of
    the index. -/
structure KeysApart (snap : Snapshot) : Prop where
  names : ∀ e ∈ snap.fkEdges, ∀ e' ∈ snap.fkEdges, e.childRelationOid = e'.childRelationOid →
    e.fkConstraintName = e'.fkConstraintName → e.childColumnName = e'.childColumnName ∧
      e.parentRelationOid = e'.parentRelationOid ∧ e.parentColumnName = e'.parentColumnName
  keys : (Diff.indexSnapshot snap.toDiff).fks.values = snap.fkEdges.map snap.foreignKey

/-! ## References in the index -/

/-- The group to which the index adds a reference. -/
def FkSpec.group (spec : FkSpec) : Str × Str × Str :=
  (label spec.child, label spec.parent, spec.constraintName)

/-- The one pair of columns of a reference. -/
def FkSpec.part (spec : FkSpec) : Int × Str × Str := (1, spec.childColumn, spec.parentColumn)

/-- The text under which the comparison of snapshots knows a reference. -/
def FkSpec.signature (spec : FkSpec) : Str :=
  Diff.fkSignature (label spec.child) [spec.childColumn] (label spec.parent) [spec.parentColumn]

/-- The foreign key of a reference. -/
def FkSpec.fk (spec : FkSpec) : Diff.Fk where
  name := some spec.constraintName
  childTable := label spec.child
  childColumns := [spec.childColumn]
  parentTable := label spec.parent
  parentColumns := [spec.parentColumn]

theorem groupFk_single (spec : FkSpec) :
    Diff.groupFk (spec.group, [spec.part]) = spec.fk := by
  have hname : spec.constraintName ≠ [] := by
    rw [FkSpec.constraintName]
    simp
  simp [Diff.groupFk, Diff.sortByOrdinal, FkSpec.group, FkSpec.part, FkSpec.fk, hname]

theorem signature_fk (spec : FkSpec) : spec.fk.signature = spec.signature := rfl

theorem constraintName_inj {spec spec' : FkSpec} (hchild : spec.child = spec'.child)
    (hname : spec.constraintName = spec'.constraintName) :
    spec.childColumn = spec'.childColumn := by
  rw [FkSpec.constraintName, FkSpec.constraintName, hchild] at hname
  exact List.append_cancel_left hname

variable {chars : Chars} {s : ParseState} {es : List Event}

/-- The index finds the label of a table by its number. -/
theorem Tracks.get?_oidToTable (h : Tracks chars s es) {snap : Snapshot}
    (hsnap : snap.relations = s.relations) {table : TableKey} (htable : table ∈ tablesOf es) :
    (Diff.oidToTable snap.toDiff.relations).get? (some (oidOf s.oidByTable table)) =
      some (label table) := by
  obtain ⟨oid, hoid⟩ := Dict.mem_keys_iff.mp (h.keys.symm ▸ htable)
  have hmem : (⟨oid, table.1, table.2⟩ : Relation) ∈ snap.relations := by
    rw [hsnap, h.relations]
    exact List.mem_map.mpr ⟨(table, oid), Dict.mem_items_iff.mpr hoid, rfl⟩
  have hnodup : (snap.toDiff.relations.map fun rel => rel.relationOid).Nodup := by
    have hoids := h.nodup_oids.map (Option.some_injective Nat)
    rw [← hsnap, List.map_map] at hoids
    rw [Snapshot.toDiff, List.map_map]
    exact hoids
  have hget := Dict.get?_foldl_set hnodup (fun rel => rel.key)
    (List.mem_map_of_mem hmem) .empty
  rw [oidOf, hoid, Option.getD_some]
  exact hget

/-- What an edge adds to the groups, by its row. -/
def indexRow (lookup : Option Nat → Option Str)
    (fkParts : Dict (Str × Str × Str) (List (Int × Str × Str)))
    (row : Nat × Str × Nat × Str × Str) : Dict (Str × Str × Str) (List (Int × Str × Str)) :=
  match lookup (some row.1), lookup (some row.2.2.1) with
  | some child, some parent =>
      let group := (child, parent, row.2.2.2.2)
      fkParts.set group (((fkParts.get? group).getD []) ++ [(1, row.2.1, row.2.2.2.1)])
  | _, _ => fkParts

/-- **The groups of the index** are those of the references. -/
theorem fkParts_eq (chars : Chars) (text : Str) :
    (parseDbml chars text).toDiff.fkEdges.foldl
        (Diff.indexFkEdge (Diff.oidToTable (parseDbml chars text).toDiff.relations).get?) .empty =
      (references chars (events chars text)).foldl
        (Dict.upsertAt (fun spec => some spec.group) [] fun spec parts => parts ++ [spec.part])
        .empty := by
  have h : Tracks chars (parseLines chars text) (events chars text) := tracks_parseLines text
  set lookup := (Diff.oidToTable (parseDbml chars text).toDiff.relations).get?
  have hlookup : ∀ table ∈ tablesOf (events chars text),
      lookup (some (oidOf (parseLines chars text).oidByTable table)) = some (label table) :=
    fun table htable => h.get?_oidToTable rfl htable
  calc (parseDbml chars text).toDiff.fkEdges.foldl (Diff.indexFkEdge lookup) .empty
      = ((fkEdgesOf (parseLines chars text)).map FkEdge.row).foldl (indexRow lookup) .empty := by
        rw [List.foldl_map]
        exact List.foldl_map
    _ = ((references chars (events chars text)).map
          (FkSpec.row (parseLines chars text).oidByTable)).foldl (indexRow lookup) .empty := by
        rw [h.fkEdges]
    _ = _ := by
        rw [List.foldl_map]
        refine List.foldl_ext _ _ _ fun fkParts spec hspec => ?_
        obtain ⟨hchild, hparent⟩ := of_decide_eq_true (List.mem_filter.mp hspec).2
        simp only [indexRow, FkSpec.row, hlookup _ hchild, hlookup _ hparent, Dict.upsertAt,
          FkSpec.group, FkSpec.part]

theorem foreignKeys_eq (chars : Chars) (text : Str) :
    (parseDbml chars text).fkEdges.map (parseDbml chars text).foreignKey =
      (references chars (events chars text)).map FkSpec.fk := by
  have h : Tracks chars (parseLines chars text) (events chars text) := tracks_parseLines text
  have hrows := congrArg (List.map fun r : Nat × Str × Nat × Str × Str => (⟨some r.2.2.2.2,
    label ((parseDbml chars text).keyOf r.1), [r.2.1],
    label ((parseDbml chars text).keyOf r.2.2.1), [r.2.2.2.1]⟩ : Diff.Fk)) h.fkEdges
  rw [List.map_map, List.map_map] at hrows
  refine hrows.trans (List.map_congr_left fun spec hspec => ?_)
  obtain ⟨hchild, hparent⟩ := of_decide_eq_true (List.mem_filter.mp hspec).2
  have hkey : ∀ table ∈ tablesOf (events chars text), (parseDbml chars text).keyOf
      (oidOf (parseLines chars text).oidByTable table) = table :=
    fun table htable => h.keyOf_oidOf rfl htable
  simp only [Function.comp_apply, FkSpec.row, hkey _ hchild, hkey _ hparent, FkSpec.fk]

/-! ## When each reference is a key of the index -/

/-- The index has as many keys as references only if their groups and signatures differ. -/
theorem values_fks_iff (chars : Chars) (text : Str) :
    (Diff.indexSnapshot (parseDbml chars text).toDiff).fks.values =
        (references chars (events chars text)).map FkSpec.fk ↔
      ((references chars (events chars text)).map FkSpec.group).Nodup ∧
        ((references chars (events chars text)).map FkSpec.signature).Nodup := by
  set refs := references chars (events chars text)
  set parts := refs.foldl
    (Dict.upsertAt (fun spec : FkSpec => some spec.group) [] fun spec parts =>
      parts ++ [spec.part]) .empty with hparts
  have hfks : (Diff.indexSnapshot (parseDbml chars text).toDiff).fks =
      parts.items.foldl (Dict.upsertAt (fun entry => some (Diff.groupFk entry).signature)
        ⟨none, [], [], [], []⟩ fun entry _ => Diff.groupFk entry) .empty := by
    have hfold := congrArg (fun fkParts : Dict (Str × Str × Str) (List (Int × Str × Str)) =>
      fkParts.items.foldl Diff.addFk .empty) (fkParts_eq chars text)
    exact hfold
  have hsingle : (refs.map FkSpec.group).Nodup →
      parts.items = refs.map fun spec => (spec.group, [spec.part]) := by
    intro hgroups
    rw [hparts, Dict.items_foldl_upsertAt hgroups]
    rfl
  have hsignatures : (refs.map FkSpec.group).Nodup →
      parts.items.map (fun entry => (Diff.groupFk entry).signature) =
        refs.map FkSpec.signature := by
    intro hgroups
    rw [hsingle hgroups, List.map_map]
    refine List.map_congr_left fun spec _ => ?_
    rw [Function.comp_apply, groupFk_single, signature_fk]
  rw [hfks]
  constructor
  · intro hvalues
    have hlength := congrArg List.length hvalues
    rw [Dict.values, List.length_map, List.length_map] at hlength
    have hle : parts.items.length ≤ refs.length := Dict.length_foldl_upsertAt_le
    have hle' : (parts.items.foldl
        (Dict.upsertAt (fun entry => some (Diff.groupFk entry).signature)
          ⟨none, [], [], [], []⟩ fun entry _ => Diff.groupFk entry) .empty).items.length ≤
        parts.items.length := Dict.length_foldl_upsertAt_le
    have hgroups : (refs.map FkSpec.group).Nodup :=
      Dict.nodup_of_length_foldl_upsertAt (by rw [← hparts]; omega)
    refine ⟨hgroups, ?_⟩
    rw [← hsignatures hgroups]
    exact Dict.nodup_of_length_foldl_upsertAt (hlength.trans (by omega))
  · rintro ⟨hgroups, hsigs⟩
    rw [← hsignatures hgroups] at hsigs
    rw [Dict.values, Dict.items_foldl_upsertAt hsigs, List.map_map, hsingle hgroups, List.map_map]
    exact List.map_congr_left fun spec _ => groupFk_single spec

/-- What the names of two edges of one table say about their references. -/
theorem sameRow_iff (h : Tracks chars s es) {spec spec' : FkSpec}
    (hspec : spec ∈ references chars es) (hspec' : spec' ∈ references chars es) :
    ((spec.row s.oidByTable).1 = (spec'.row s.oidByTable).1 →
      (spec.row s.oidByTable).2.2.2.2 = (spec'.row s.oidByTable).2.2.2.2 →
        (spec.row s.oidByTable).2.1 = (spec'.row s.oidByTable).2.1 ∧
        (spec.row s.oidByTable).2.2.1 = (spec'.row s.oidByTable).2.2.1 ∧
        (spec.row s.oidByTable).2.2.2.1 = (spec'.row s.oidByTable).2.2.2.1) ↔
      (spec.child = spec'.child → spec.childColumn = spec'.childColumn → spec = spec') := by
  obtain ⟨hchild, hparent⟩ := of_decide_eq_true (List.mem_filter.mp hspec).2
  obtain ⟨hchild', hparent'⟩ := of_decide_eq_true (List.mem_filter.mp hspec').2
  constructor
  · intro hrow heq hcolumn
    have hname : spec.constraintName = spec'.constraintName := by
      rw [FkSpec.constraintName, FkSpec.constraintName, heq, hcolumn]
    obtain ⟨-, hoid, hparentColumn⟩ := hrow (congrArg (oidOf s.oidByTable) heq) hname
    have hparentEq := h.oidOf_inj hparent hparent' hoid
    obtain ⟨child, childColumn, parent, parentColumn⟩ := spec
    obtain ⟨child', childColumn', parent', parentColumn'⟩ := spec'
    rw [FkSpec.mk.injEq]
    exact ⟨heq, hcolumn, hparentEq, hparentColumn⟩
  · intro hsame hoid hname
    have heq := h.oidOf_inj hchild hchild' hoid
    rw [hsame heq (constraintName_inj heq hname)]
    exact ⟨rfl, rfl, rfl⟩

/-- **The foreign keys of a document stay apart** exactly when no two references between its
    tables start from the same column, and the diff has different groups and different
    signatures for them. -/
theorem keysApart_parseDbml_iff (chars : Chars) (text : Str) :
    KeysApart (parseDbml chars text) ↔
      ((references chars (events chars text)).map
        fun spec => (spec.child, spec.childColumn)).Nodup ∧
      ((references chars (events chars text)).map FkSpec.group).Nodup ∧
      ((references chars (events chars text)).map FkSpec.signature).Nodup := by
  have h : Tracks chars (parseLines chars text) (events chars text) := tracks_parseLines text
  have hkeys := values_fks_iff chars text
  rw [← foreignKeys_eq] at hkeys
  set refs := references chars (events chars text) with hrefs
  have hnames : (∀ e ∈ (parseDbml chars text).fkEdges, ∀ e' ∈ (parseDbml chars text).fkEdges,
      e.childRelationOid = e'.childRelationOid → e.fkConstraintName = e'.fkConstraintName →
        e.childColumnName = e'.childColumnName ∧ e.parentRelationOid = e'.parentRelationOid ∧
          e.parentColumnName = e'.parentColumnName) ↔
      ∀ spec ∈ refs, ∀ spec' ∈ refs, spec.child = spec'.child →
        spec.childColumn = spec'.childColumn → spec = spec' := by
    let SameRow (r r' : Nat × Str × Nat × Str × Str) : Prop :=
      r.1 = r'.1 → r.2.2.2.2 = r'.2.2.2.2 →
        r.2.1 = r'.2.1 ∧ r.2.2.1 = r'.2.2.1 ∧ r.2.2.2.1 = r'.2.2.2.1
    have hrow : ∀ spec ∈ refs,
        (∀ e' ∈ fkEdgesOf (parseLines chars text),
          SameRow (spec.row (parseLines chars text).oidByTable) e'.row) ↔
        ∀ spec' ∈ refs, spec.child = spec'.child → spec.childColumn = spec'.childColumn →
          spec = spec' := by
      intro spec hspec
      refine (h.forall_fkEdges (P := SameRow (spec.row _))).trans ?_
      exact forall₂_congr fun spec' hspec' => sameRow_iff h hspec hspec'
    refine (h.forall_fkEdges (P := fun r =>
      ∀ e' ∈ fkEdgesOf (parseLines chars text), SameRow r e'.row)).trans ?_
    exact forall₂_congr hrow
  constructor
  · intro hapart
    obtain ⟨hgroups, hsigs⟩ := hkeys.mp hapart.keys
    refine ⟨?_, hgroups, hsigs⟩
    refine List.Nodup.map_on (fun spec hspec spec' hspec' heq => ?_) (List.Nodup.of_map _ hgroups)
    obtain ⟨hchild, hcolumn⟩ := Prod.mk.inj heq
    exact hnames.mp hapart.names spec hspec spec' hspec' hchild hcolumn
  · rintro ⟨hcolumns, hgroups, hsigs⟩
    refine ⟨hnames.mpr fun spec hspec spec' hspec' hchild hcolumn => ?_,
      hkeys.mpr ⟨hgroups, hsigs⟩⟩
    exact List.inj_on_of_nodup_map hcolumns hspec hspec' (Prod.ext hchild hcolumn)

/-! ## Two references from one column -/

/-- A column refers to two columns of one table. -/
def twoReferences : Str :=
  "Table a \x7b\n\x7d\nTable b \x7b\n\x7d\nRef: a.x > b.id\nRef: a.x > b.code\n".toList

theorem not_keysApart_twoReferences :
    ¬ ∀ text, KeysApart (parseDbml asciiChars text) := by
  intro hall
  have hrows : (parseDbml asciiChars twoReferences).fkEdges.map FkEdge.row =
      [(1, "x".toList, 2, "id".toList, "fk_a_x".toList),
        (1, "x".toList, 2, "code".toList, "fk_a_x".toList)] := by
    decide +kernel
  obtain ⟨e, he, hrow⟩ := List.mem_map.mp (hrows ▸ List.mem_cons_self)
  obtain ⟨e', he', hrow'⟩ :=
    List.mem_map.mp (hrows ▸ List.mem_cons_of_mem _ List.mem_cons_self)
  obtain ⟨hchild, -, -, hcolumn, hname⟩ : e.childRelationOid = 1 ∧ e.childColumnName = "x".toList ∧
      e.parentRelationOid = 2 ∧ e.parentColumnName = "id".toList ∧
      e.fkConstraintName = "fk_a_x".toList := by
    simpa [FkEdge.row] using hrow
  obtain ⟨hchild', -, -, hcolumn', hname'⟩ : e'.childRelationOid = 1 ∧
      e'.childColumnName = "x".toList ∧ e'.parentRelationOid = 2 ∧
      e'.parentColumnName = "code".toList ∧ e'.fkConstraintName = "fk_a_x".toList := by
    simpa [FkEdge.row] using hrow'
  obtain ⟨-, -, heq⟩ := (hall twoReferences).names e he e' he' (hchild.trans hchild'.symm)
    (hname.trans hname'.symm)
  rw [hcolumn, hcolumn'] at heq
  exact absurd heq (by decide)

end PgErdCloud.Dbml
