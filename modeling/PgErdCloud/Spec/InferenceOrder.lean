/-
  What is inferred does not depend on the order in which the rows of a snapshot are read, nor
  on that of the sets of names. Guesses are told apart by what results are sorted by, as long
  as tables are told apart by the names that are printed.

  `inferRelationships_sameRows` is about every two snapshots with the same rows and any orders of
  sets; names of tables, object ids and names of columns are assumed to be distinct.
-/
import PgErdCloud.Spec.InferenceSoundness
import PgErdCloud.Lib.DictLoops

namespace PgErdCloud.Spec.Inference

open Lib Lib.PyStr

/-- The same rows, in any order. -/
structure Snapshot.SameRows (s s' : Snapshot) : Prop where
  relations : s.relations.Perm s'.relations
  columns : s.columns.Perm s'.columns
  pkColumns : s.pkColumns.Perm s'.pkColumns
  fkEdges : s.fkEdges.Perm s'.fkEdges

/-- Two columns of a table have different names, in lower case. -/
def Snapshot.ColumnsDistinct (unicode : Unicode) (s : Snapshot) : Prop :=
  (s.columns.filterMap fun c =>
    c.columnName.map fun name => (c.relationOid, unicode.lower name)).Nodup

variable {unicode : Unicode} {sets sets' : SetOrder} {s s' : Snapshot}

/-! ## The maps -/

theorem Snapshot.ColumnsDistinct.nodup_map (h : s.ColumnsDistinct unicode) (oid : Option Int) :
    ((s.columns.filter fun c => (c.columnName.map fun _ => c.relationOid) = some oid).map
      fun c => unicode.lower (text c.columnName)).Nodup := by
  rw [Snapshot.ColumnsDistinct, List.Nodup, List.pairwise_filterMap] at h
  rw [List.Nodup, List.pairwise_map, List.pairwise_filter]
  refine h.imp fun {c c'} hne hc hc' hlower => ?_
  obtain ⟨name, hname, hoid⟩ := Option.map_eq_some_iff.mp (of_decide_eq_true hc)
  obtain ⟨name', hname', hoid'⟩ := Option.map_eq_some_iff.mp (of_decide_eq_true hc')
  rw [hname, hname'] at hlower
  refine hne (oid, unicode.lower name) ?_ (oid, unicode.lower name') ?_ ?_
  · rw [hname, Option.map_some, hoid]
  · rw [hname', Option.map_some, hoid']
  · exact congrArg (Prod.mk oid) hlower

/-- With distinct names a column is found whatever is read after it. -/
theorem get?_colsOf (h : s.ColumnsDistinct unicode) {oid : Option Int} {key : Str}
    {c : ColumnRow} :
    (colsOf unicode s oid).get? key = some c ↔
      c ∈ s.columns ∧ c.relationOid = oid ∧
        ∃ name, c.columnName = some name ∧ unicode.lower name = key := by
  refine ⟨of_get?_colsOf, ?_⟩
  rintro ⟨hmem, hoid, name, hname, rfl⟩
  have hc : c ∈ s.columns.filter fun c =>
      (c.columnName.map fun _ => c.relationOid) = some oid := by
    refine List.mem_filter.mpr ⟨hmem, decide_eq_true ?_⟩
    rw [hname, Option.map_some, hoid]
  rw [colsOf, colsByOid, Dict.get?_foldl_upsertAt, if_neg (List.ne_nil_of_mem hc),
    Option.getD_some, Dict.get?_empty, Option.getD_none]
  have hget := Dict.get?_foldl_set (h.nodup_map oid) id hc Dict.empty
  rw [hname] at hget
  exact hget

namespace Snapshot.SameRows

theorem get?_colsOf_eq (h : s.SameRows s') (hcolumns : s.ColumnsDistinct unicode)
    (oid : Option Int) (key : Str) :
    (colsOf unicode s oid).get? key = (colsOf unicode s' oid).get? key := by
  have hcolumns' : s'.ColumnsDistinct unicode := (h.columns.filterMap _).nodup_iff.mp hcolumns
  refine Option.ext fun c => ?_
  rw [get?_colsOf hcolumns, get?_colsOf hcolumns', h.columns.mem_iff]

theorem mem_keys_colsOf_iff (h : s.SameRows s') (hcolumns : s.ColumnsDistinct unicode)
    (oid : Option Int) (key : Str) :
    key ∈ (colsOf unicode s oid).keys ↔ key ∈ (colsOf unicode s' oid).keys := by
  rw [Dict.mem_keys_iff, Dict.mem_keys_iff, h.get?_colsOf_eq hcolumns]

theorem pksOf_perm (h : s.SameRows s') (oid : Option Int) :
    (pksOf unicode s oid).Perm (pksOf unicode s' oid) := by
  rw [pksOf_eq, pksOf_eq]
  exact (h.pkColumns.filter _).map _

theorem mem_declared_iff (h : s.SameRows s') (key : Option Int × Str) :
    key ∈ declared unicode s ↔ key ∈ declared unicode s' :=
  (h.fkEdges.filterMap _).mem_iff

/-- A single key column is the same in any order, and of several none is taken. -/
theorem refColumn_eq (h : s.SameRows s') (hcolumns : s.ColumnsDistinct unicode)
    (oid : Option Int) (col : Str) :
    refColumn unicode s oid col = refColumn unicode s' oid col := by
  have hkeys := h.mem_keys_colsOf_iff hcolumns oid
  have hpks : (pksOf unicode s oid).Perm (pksOf unicode s' oid) := h.pksOf_perm oid
  unfold refColumn
  simp only [hkeys]
  rcases hs : pksOf unicode s oid with _ | ⟨pk, _ | ⟨pk₂, pks⟩⟩
  · rw [hs] at hpks
    rw [hpks.nil_eq.symm]
  · rw [hs] at hpks
    rw [List.perm_singleton.mp hpks.symm]
  · rw [hs] at hpks
    have hlength := hpks.length_eq
    rcases hs' : pksOf unicode s' oid with _ | ⟨pk', _ | ⟨pk₂', pks'⟩⟩
    · rfl
    · rw [hs'] at hlength
      exact absurd hlength (by simp)
    · rfl

end Snapshot.SameRows

/-! ## Guesses -/

theorem Snapshot.SameRows.symm (h : s.SameRows s') : s'.SameRows s :=
  ⟨h.relations.symm, h.columns.symm, h.pkColumns.symm, h.fkEdges.symm⟩

theorem Guess.Made.of_sameRows {g : Guess} (hg : g.Made unicode s) (h : s.SameRows s')
    (hcolumns : s.ColumnsDistinct unicode) : g.Made unicode s' where
  child := h.relations.mem_iff.mp hg.child
  column := (h.get?_colsOf_eq hcolumns _ _).symm.trans hg.column
  suffix := hg.suffix
  long := hg.long
  undeclared := fun hn => hg.undeclared ((h.mem_declared_iff _).mpr hn)
  named := hg.named
  target := h.relations.mem_iff.mp hg.target
  schema := hg.schema
  primaryKey := fun hn => hg.primaryKey (List.perm_nil.mp (hn ▸ h.pksOf_perm _))
  ref := (h.refColumn_eq hcolumns _ _).symm.trans hg.ref
  notSelf := hg.notSelf

/-! ## The order of the results -/

/-- Two tables have different names, where no schema and no name are the empty one. -/
def Snapshot.NamesDistinct (s : Snapshot) : Prop :=
  (s.relations.map fun rel => (text rel.schemaName, text rel.relationName)).Nodup

theorem Inferred.sortKey_eq_iff {r r' : Inferred} :
    r.sortKey = r'.sortKey ↔ r.childSchema = r'.childSchema ∧ r.childTable = r'.childTable ∧
      r.childColumn = r'.childColumn ∧ r.parentTable = r'.parentTable := by
  simp [Inferred.sortKey]

/-- Results are told apart by what they are sorted by. -/
theorem Guess.Made.eq_of_sortKey {g g' : Guess} (hnames : s.NamesDistinct)
    (h : g.Made unicode s) (h' : g'.Made unicode s)
    (hkey : (g.result unicode s).sortKey = (g'.result unicode s).sortKey) : g = g' := by
  obtain ⟨hschema, htable, hcolumn, hparent⟩ := Inferred.sortKey_eq_iff.mp hkey
  have hchild : g.child = g'.child :=
    List.inj_on_of_nodup_map hnames h.child h'.child (Prod.ext hschema htable)
  have htarget : g.target = g'.target := by
    refine List.inj_on_of_nodup_map hnames h.target h'.target (Prod.ext ?_ hparent)
    exact h.schema.trans (hschema.trans h'.schema.symm)
  obtain ⟨-, -, name, hname, hlower⟩ := of_get?_colsOf h.column
  obtain ⟨-, -, name', hname', hlower'⟩ := of_get?_colsOf h'.column
  have hcolumnKey : g.columnKey = g'.columnKey := by
    change text g.column.columnName = text g'.column.columnName at hcolumn
    rw [hname, hname'] at hcolumn
    rw [← hlower, ← hlower']
    exact congrArg unicode.lower hcolumn
  have hrow : g.column = g'.column := by
    have hget := h'.column
    rw [← hchild, ← hcolumnKey, h.column] at hget
    exact Option.some.inj hget
  have href : g.ref = g'.ref := by
    have href := h'.ref
    rw [← htarget, ← hcolumnKey, h.ref] at href
    exact Option.some.inj href
  obtain ⟨child, columnKey, column, target, ref⟩ := g
  obtain ⟨child', columnKey', column', target', ref'⟩ := g'
  obtain rfl : child = child' := hchild
  obtain rfl : columnKey = columnKey' := hcolumnKey
  obtain rfl : column = column' := hrow
  obtain rfl : target = target' := htarget
  obtain rfl : ref = ref' := href
  rfl

/-- What is kept of the guesses: with one row for each relation, all of them, each once. -/
theorem mem_kept_iff (hoids : (s.relations.map (·.relationOid)).Nodup) {g : Guess} :
    g ∈ (guesses unicode sets s).foldl (keepFirst Guess.key fun _ => False) [] ↔
      g.Made unicode s := by
  have hfirsts : Firsts Guess.key (fun _ => False) (guesses unicode sets s)
      ((guesses unicode sets s).foldl (keepFirst Guess.key fun _ => False) []) := firsts_foldl _
  refine ⟨fun hg => mem_guesses_iff.mp (hfirsts.read g hg).1, fun hg => ?_⟩
  obtain ⟨g', hg', hkey⟩ := hfirsts.covered g (mem_guesses_iff.mpr hg) not_false
  have hmade := mem_guesses_iff.mp (hfirsts.read g' hg').1
  obtain rfl := hmade.fits.eq_of_key hoids hg.fits hkey
  exact hg'

theorem result_eq_of_sameRows (h : s.SameRows s') (hcolumns : s.ColumnsDistinct unicode)
    (g : Guess) : g.result unicode s = g.result unicode s' := by
  unfold Guess.result
  rw [h.get?_colsOf_eq hcolumns]

/-- **The order of rows and of names does not matter**: the same results come in the same
    order, when no two tables have the same names and no two columns of one table have. -/
theorem inferRelationships_sameRows (unicode : Unicode) (sets sets' : SetOrder)
    (s s' : Snapshot) (hnames : s.NamesDistinct)
    (hoids : (s.relations.map (·.relationOid)).Nodup) (hcolumns : s.ColumnsDistinct unicode)
    (h : s.SameRows s') :
    inferRelationships unicode sets s = inferRelationships unicode sets' s' := by
  have hoids' : (s'.relations.map (·.relationOid)).Nodup := (h.relations.map _).nodup_iff.mp hoids
  have hcolumns' : s'.ColumnsDistinct unicode := (h.columns.filterMap _).nodup_iff.mp hcolumns
  have hfirsts : Firsts Guess.key (fun _ => False) (guesses unicode sets s)
      ((guesses unicode sets s).foldl (keepFirst Guess.key fun _ => False) []) := firsts_foldl _
  have hfirsts' : Firsts Guess.key (fun _ => False) (guesses unicode sets' s')
      ((guesses unicode sets' s').foldl (keepFirst Guess.key fun _ => False) []) := firsts_foldl _
  have hmade : ∀ g : Guess, g.Made unicode s ↔ g.Made unicode s' := fun g =>
    ⟨fun hg => hg.of_sameRows h hcolumns, fun hg => hg.of_sameRows h.symm hcolumns'⟩
  have hresult : Guess.result unicode s' = Guess.result unicode s :=
    funext fun g => (result_eq_of_sameRows h hcolumns g).symm
  set kept := (guesses unicode sets s).foldl (keepFirst Guess.key fun _ => False) [] with hk
  set kept' := (guesses unicode sets' s').foldl (keepFirst Guess.key fun _ => False) [] with hk'
  have hkept : kept.Perm kept' := by
    refine (List.perm_ext_iff_of_nodup (.of_map _ hfirsts.keys) (.of_map _ hfirsts'.keys)).mpr ?_
    intro g
    rw [hk, hk', mem_kept_iff hoids, mem_kept_iff hoids', hmade]
  unfold inferRelationships
  rw [← hk, ← hk', hresult]
  refine List.Perm.eq_of_pairwise ?_
    (List.pairwise_insertionSort _ _) (List.pairwise_insertionSort _ _) ?_
  · intro r r' hr hr' hle hge
    obtain ⟨g, hg, rfl⟩ := List.mem_map.mp ((List.mem_insertionSort _).mp hr)
    obtain ⟨g', hg', rfl⟩ := List.mem_map.mp ((List.mem_insertionSort _).mp hr')
    have hg : g.Made unicode s := (mem_kept_iff hoids).mp hg
    have hg' : g'.Made unicode s := (hmade g').mpr ((mem_kept_iff hoids').mp hg')
    rw [hg.eq_of_sortKey hnames hg' (le_antisymm hle hge)]
  · have hmap : (kept.map (Guess.result unicode s)).Perm (kept'.map (Guess.result unicode s)) :=
      hkept.map _
    exact (List.perm_insertionSort _ _).trans (hmap.trans (List.perm_insertionSort _ _).symm)

/-- The same rows, each list read from behind. -/
def Snapshot.reverse (s : Snapshot) : Snapshot :=
  ⟨s.relations.reverse, s.columns.reverse, s.pkColumns.reverse, s.fkEdges.reverse⟩

/-- A set that is iterated the other way round. -/
def reverseOrder : SetOrder := ⟨List.reverse, fun names => List.reverse_perm names⟩

theorem inferRelationships_reversedRows :
    inferRelationships asciiUnicode listOrder (memberOrders "id".toList) =
      inferRelationships asciiUnicode reverseOrder (memberOrders "id".toList).reverse :=
  inferRelationships_sameRows asciiUnicode listOrder reverseOrder (memberOrders "id".toList)
    (memberOrders "id".toList).reverse (by unfold Snapshot.NamesDistinct; decide) (by decide)
    (by unfold Snapshot.ColumnsDistinct; decide)
    ⟨(List.reverse_perm _).symm, (List.reverse_perm _).symm, (List.reverse_perm _).symm,
      (List.reverse_perm _).symm⟩

/-! ## A schema without a name -/

/-- Two tables `a`, one of a schema without a name and one of the empty one, and a table that
    refers to an `a`, with the tables `a` in either order. -/
def twoTablesA (swapped : Bool) : Snapshot where
  relations := (if swapped then List.reverse else id)
    [⟨some 1, none, some "a".toList⟩, ⟨some 2, some [], some "a".toList⟩] ++
    [⟨some 3, some [], some "b".toList⟩]
  columns := [⟨some 1, some "id".toList, some "int".toList⟩,
    ⟨some 2, some "id".toList, some "text".toList⟩,
    ⟨some 3, some "a_id".toList, some "int".toList⟩]
  pkColumns := [⟨some 1, some "id".toList⟩, ⟨some 2, some "id".toList⟩]
  fkEdges := []

theorem sameRows_twoTablesA : (twoTablesA false).SameRows (twoTablesA true) where
  relations := List.Perm.swap _ _ _
  columns := List.Perm.refl _
  pkColumns := List.Perm.refl _
  fkEdges := List.Perm.refl _

/-- The pairs of a schema and a name as they are stored do not tell these tables apart. -/
theorem not_inferRelationships_sameRows :
    ¬ ∀ (sets sets' : SetOrder) (s s' : Snapshot),
      (s.relations.map fun rel => (rel.schemaName, rel.relationName)).Nodup →
      (s.relations.map (·.relationOid)).Nodup → s.ColumnsDistinct asciiUnicode →
      s.SameRows s' →
      inferRelationships asciiUnicode sets s = inferRelationships asciiUnicode sets' s' := by
  intro hall
  have heq := hall listOrder listOrder (twoTablesA false) (twoTablesA true) (by decide)
    (by decide) (by unfold Snapshot.ColumnsDistinct; decide) sameRows_twoTablesA
  exact absurd (congrArg (List.map Inferred.confidence) heq) (by decide)

end PgErdCloud.Spec.Inference
