/-
  What is inferred of a snapshot: everything but the name of the parent's column is as it is
  stored. That name is the one that was compared, in lower case.

  `inferRelationships_sound_iff` says on the rows of any snapshot when the results are sound.
-/
import PgErdCloud.Spec.InferenceMatches

namespace PgErdCloud.Spec.Inference

open Lib Lib.PyStr

variable {unicode : Unicode} {sets : SetOrder} {s : Snapshot}

/-! ## What the maps hold -/

theorem of_get?_colsOf {oid : Option Int} {key : Str} {c : ColumnRow}
    (h : (colsOf unicode s oid).get? key = some c) :
    c ∈ s.columns ∧ c.relationOid = oid ∧
      ∃ name, c.columnName = some name ∧ unicode.lower name = key := by
  rw [colsOf, colsByOid, Dict.get?_foldl_upsertAt] at h
  split_ifs at h with hnone
  · exact absurd h (by simp)
  · rw [Option.getD_some, Dict.get?_empty, Option.getD_none] at h
    obtain ⟨x, hx, hkey, rfl⟩ : ∃ x ∈ s.columns.filter fun c =>
        (c.columnName.map fun _ => c.relationOid) = some oid,
        unicode.lower (text x.columnName) = key ∧ id x = c := Dict.exists_of_get?_foldl_set h
    obtain ⟨hmem, hoid⟩ := List.mem_filter.mp hx
    obtain ⟨name, hname, hoid⟩ := Option.map_eq_some_iff.mp (of_decide_eq_true hoid)
    rw [hname] at hkey
    exact ⟨hmem, hoid, name, hname, hkey⟩

/-! ## Guesses -/

/-- What is known of every guess. -/
structure Guess.Fits (unicode : Unicode) (s : Snapshot) (g : Guess) : Prop where
  child : g.child ∈ s.relations
  column : (colsOf unicode s g.child.relationOid).get? g.columnKey = some g.column
  undeclared : (g.child.relationOid, g.columnKey) ∉ declared unicode s
  target : g.target ∈ s.relations
  schema : text g.target.schemaName = text g.child.schemaName
  primaryKey : pksOf unicode s g.target.relationOid ≠ []

theorem Guess.Made.fits {g : Guess} (h : g.Made unicode s) : g.Fits unicode s :=
  ⟨h.child, h.column, h.undeclared, h.target, h.schema, h.primaryKey⟩

/-- The key of a guess says what was guessed. -/
theorem Guess.Fits.eq_of_key {g g' : Guess} (hoids : (s.relations.map (·.relationOid)).Nodup)
    (h : g.Fits unicode s) (h' : g'.Fits unicode s) (hkey : g.key = g'.key) : g = g' := by
  obtain ⟨child, columnKey, column, target, ref⟩ := g
  obtain ⟨child', columnKey', column', target', ref'⟩ := g'
  obtain ⟨hchild, hcolumnKey, htarget, href⟩ :
      child.relationOid = child'.relationOid ∧ columnKey = columnKey' ∧
        target.relationOid = target'.relationOid ∧ ref = ref' := by
    simpa [Guess.key] using hkey
  obtain rfl : child = child' := List.inj_on_of_nodup_map hoids h.child h'.child hchild
  obtain rfl : target = target' := List.inj_on_of_nodup_map hoids h.target h'.target htarget
  subst hcolumnKey href
  obtain rfl : column = column' := Option.some.inj (h.column.symm.trans h'.column)
  rfl

/-! ## Soundness -/

/-- The child's column of a result, as it is stored and not part of a declared foreign key. -/
structure ChildColumn (s : Snapshot) (r : Inferred) (child : RelationRow) : Prop where
  mem : child ∈ s.relations
  schema : text child.schemaName = r.childSchema
  table : text child.relationName = r.childTable
  column : ∃ c ∈ s.columns, c.relationOid = child.relationOid ∧ c.columnName = some r.childColumn
  undeclared : ∀ e ∈ s.fkEdges, e.childRelationOid = child.relationOid →
    e.childColumnName ≠ some r.childColumn

/-- A table with the names, a primary key and the column, as they are stored. -/
structure ParentColumn (s : Snapshot) (schema table column : Str) (parent : RelationRow) :
    Prop where
  mem : parent ∈ s.relations
  schema : text parent.schemaName = schema
  table : text parent.relationName = table
  column : ∃ c ∈ s.columns, c.relationOid = parent.relationOid ∧ c.columnName = some column
  primaryKey : ∃ pk ∈ s.pkColumns, pk.relationOid = parent.relationOid ∧
    pk.columnName.isSome = true

/-- What a list of reported relationships has to be: within one schema, between columns that exist,
    and without repetition. -/
structure Sound (s : Snapshot) (results : List Inferred) : Prop where
  schema : ∀ r ∈ results, r.childSchema = r.parentSchema
  child : ∀ r ∈ results, ∃ child, ChildColumn s r child
  parent : ∀ r ∈ results, ∃ parent,
    ParentColumn s r.parentSchema r.parentTable r.parentColumn parent
  distinct : results.Nodup

theorem Guess.Fits.childColumn {g : Guess} (h : g.Fits unicode s) :
    ChildColumn s (g.result unicode s) g.child := by
  obtain ⟨hmem, hoid, name, hname, hkey⟩ := of_get?_colsOf h.column
  have hcolumn : (g.result unicode s).childColumn = name := by
    rw [Guess.result, hname]
    rfl
  refine ⟨h.child, rfl, rfl, ⟨g.column, hmem, hoid, by rw [hcolumn, hname]⟩, ?_⟩
  intro e he hchild hdeclared
  rw [hcolumn] at hdeclared
  refine h.undeclared (List.mem_filterMap.mpr ⟨e, he, ?_⟩)
  rw [hdeclared, Option.map_some, hchild, hkey]

/-! ## Conditions on the rows -/

/-- The column that a match refers to is stored in lower case, in the table or in another with
    its schema, its name and a key. -/
def Guess.StoredLower (s : Snapshot) (g : Guess) : Prop :=
  ∃ parent ∈ s.relations, text parent.schemaName = text g.target.schemaName ∧
    text parent.relationName = text g.target.relationName ∧
    keyNames s parent.relationOid ≠ [] ∧
    ∃ c ∈ s.columns, c.relationOid = parent.relationOid ∧ c.columnName = some g.ref

/-- The types of both ends of a match agree, up to their modifiers. -/
def Guess.SameType (unicode : Unicode) (s : Snapshot) (g : Guess) : Prop :=
  normType unicode g.column.dataType =
    normType unicode ((columnCalled unicode s g.target.relationOid g.ref).bind ColumnRow.dataType)

/-- Two matches between tables and columns of the same names. -/
structure Guess.Alike (unicode : Unicode) (s : Snapshot) (g g' : Guess) : Prop where
  schema : text g.child.schemaName = text g'.child.schemaName
  child : text g.child.relationName = text g'.child.relationName
  column : g.column.columnName = g'.column.columnName
  target : g.target.relationName = g'.target.relationName
  ref : g.ref = g'.ref
  type : g.SameType unicode s ↔ g'.SameType unicode s

theorem exists_parentColumn_iff {g : Guess} :
    (∃ parent, ParentColumn s (text g.target.schemaName) (text g.target.relationName) g.ref
      parent) ↔ g.StoredLower s := by
  have hkey (oid : Option Int) : (∃ pk ∈ s.pkColumns, pk.relationOid = oid ∧
      pk.columnName.isSome = true) ↔ keyNames s oid ≠ [] := by
    rw [keyNames, ne_eq, List.filterMap_eq_nil_iff]
    simp [Option.isSome_iff_ne_none]
  refine exists_congr fun parent => ?_
  rw [← hkey]
  constructor
  · intro h
    exact ⟨h.mem, h.schema, h.table, h.primaryKey, h.column⟩
  · rintro ⟨hmem, hschema, htable, hpk, hcolumn⟩
    exact ⟨hmem, hschema, htable, hcolumn, hpk⟩

/-- The name of a match's column is there. -/
theorem Guess.Matches.columnName {g : Guess} (h : g.Matches unicode s) :
    ∃ name, g.column.columnName = some name := by
  have hmem := List.mem_of_getLast? h.column
  have hname := (of_decide_eq_true (List.mem_filter.mp hmem).2).2
  exact (Option.map_eq_some_iff.mp hname).imp fun _ => And.left

/-- A name that is missing is printed in two ways, which tell it from a name. -/
theorem eq_of_text_eq {name name' : Option Str} (htext : text name = text name')
    (hshown : name.getD "None".toList = name'.getD "None".toList) : name = name' := by
  cases name with
  | none =>
      cases name' with
      | none => rfl
      | some value =>
          rw [show value = [] from htext.symm] at hshown
          exact absurd hshown (by decide)
  | some value =>
      cases name' with
      | none =>
          rw [show value = [] from htext] at hshown
          exact absurd hshown (by decide)
      | some value' => exact congrArg some htext

/-- Matches are printed alike where their names and the agreement of their types are the same. -/
theorem result_eq_iff {g g' : Guess} (h : g.Matches unicode s) (h' : g'.Matches unicode s) :
    g.result unicode s = g'.result unicode s ↔ g.Alike unicode s g' := by
  have htype (g : Guess) : g.SameType unicode s ↔
      normType unicode g.column.dataType = normType unicode
        (((colsOf unicode s g.target.relationOid).get? g.ref).bind ColumnRow.dataType) := by
    rw [Guess.SameType, get?_colsOf_eq_columnCalled]
  obtain ⟨name, hname⟩ := h.columnName
  obtain ⟨name', hname'⟩ := h'.columnName
  constructor
  · intro heq
    simp only [Guess.result, Inferred.mk.injEq] at heq
    obtain ⟨hschema, hchild, hcolumn, -, htarget, href, hconfidence, hreason⟩ := heq
    have hsame : g.SameType unicode s ↔ g'.SameType unicode s := by
      rw [htype, htype]
      split_ifs at hconfidence with hg hg' hg'
      · exact iff_of_true hg hg'
      · exact iff_of_false hg hg'
    have hcolumn : g.column.columnName = g'.column.columnName := by
      rw [hname, hname'] at hcolumn ⊢
      exact congrArg some hcolumn
    refine ⟨hschema, hchild, hcolumn, eq_of_text_eq htarget ?_, href, hsame⟩
    rw [htype, htype] at hsame
    simp only [hsame, hcolumn, List.append_assoc, List.append_cancel_left_eq] at hreason
    exact List.append_cancel_right hreason
  · rintro ⟨hschema, hchild, hcolumn, htarget, href, hsame⟩
    have hparent : text g.target.schemaName = text g'.target.schemaName :=
      h.schema.trans (hschema.trans h'.schema.symm)
    rw [htype, htype] at hsame
    simp only [Guess.result, Inferred.mk.injEq]
    refine ⟨hschema, hchild, by rw [hcolumn], hparent, by rw [htarget], href, ?_, ?_⟩
    · simp only [hsame]
    · simp only [hsame, hcolumn, htarget]

/-- **The inference is sound** exactly when every column that a match refers to is stored in
    lower case, and no two matches are between tables and columns of the same names. -/
theorem inferRelationships_sound_iff (unicode : Unicode) (sets : SetOrder) (s : Snapshot) :
    Sound s (inferRelationships unicode sets s) ↔
      (∀ g : Guess, g.Counts unicode sets s → g.StoredLower s) ∧
      ∀ g g' : Guess, g.Counts unicode sets s → g'.Counts unicode sets s →
        g.Alike unicode s g' → g = g' := by
  have hfits {g : Guess} (h : g.Counts unicode sets s) : g.Fits unicode s :=
    (made_iff_matches.mpr h.isMatch).fits
  have hperm : (inferRelationships unicode sets s).Perm
      ((kept unicode sets s).map (Guess.result unicode s)) := List.perm_insertionSort _ _
  have hfirsts : Firsts Guess.key _ (guesses unicode sets s) (kept unicode sets s) := firsts_foldl _
  have hnodup : (kept unicode sets s).Nodup := List.Nodup.of_map _ hfirsts.keys
  have hresult (r) : r ∈ inferRelationships unicode sets s ↔
      ∃ g : Guess, g.Counts unicode sets s ∧ g.result unicode s = r := by
    rw [hperm.mem_iff, List.mem_map]
    simp only [mem_kept_iff_counts]
  constructor
  · intro h
    refine ⟨fun g hg => exists_parentColumn_iff.mp (h.parent _ ((hresult _).mpr ⟨g, hg, rfl⟩)), ?_⟩
    intro g g' hg hg' halike
    exact List.inj_on_of_nodup_map (hperm.nodup_iff.mp h.distinct) (mem_kept_iff_counts.mpr hg)
      (mem_kept_iff_counts.mpr hg') ((result_eq_iff hg.isMatch hg'.isMatch).mpr halike)
  · rintro ⟨hstored, hdistinct⟩
    refine ⟨?_, ?_, ?_, ?_⟩
    · intro r hr
      obtain ⟨g, hg, rfl⟩ := (hresult r).mp hr
      exact hg.isMatch.schema.symm
    · intro r hr
      obtain ⟨g, hg, rfl⟩ := (hresult r).mp hr
      exact ⟨g.child, (hfits hg).childColumn⟩
    · intro r hr
      obtain ⟨g, hg, rfl⟩ := (hresult r).mp hr
      exact exists_parentColumn_iff.mpr (hstored g hg)
    · rw [hperm.nodup_iff]
      refine List.Nodup.map_on (fun g hg g' hg' heq => ?_) hnodup
      have hg := mem_kept_iff_counts.mp hg
      have hg' := mem_kept_iff_counts.mp hg'
      exact hdistinct g g' hg hg' ((result_eq_iff hg.isMatch hg'.isMatch).mp heq)

/-! ## A key that is not in lower case -/

/-- Orders of a member, whose key is `ID` or `id`. -/
def memberOrders (key : Str) : Snapshot where
  relations := [⟨some 1, some "public".toList, some "member".toList⟩,
    ⟨some 2, some "public".toList, some "orders".toList⟩]
  columns := [⟨some 1, some key, some "bigint".toList⟩,
    ⟨some 2, some "member_id".toList, some "bigint".toList⟩]
  pkColumns := [⟨some 1, some key⟩]
  fkEdges := []

/-- A set that is iterated as it was filled. -/
def listOrder : SetOrder := ⟨id, fun _ => List.Perm.refl _⟩

/-- The result says `id` where the column is `ID`. -/
theorem inferRelationships_lowers_parent :
    ¬ ∀ s : Snapshot, Sound s (inferRelationships asciiUnicode listOrder s) := by
  intro hall
  have hsound := hall (memberOrders "ID".toList)
  have hresult : (inferRelationships asciiUnicode listOrder (memberOrders "ID".toList)).map
      Inferred.parentColumn = ["id".toList] := by
    decide
  obtain ⟨r, hr, hcolumn⟩ := List.mem_map.mp (hresult ▸ List.mem_cons_self)
  obtain ⟨parent, hparent⟩ := hsound.parent r hr
  obtain ⟨c, hc, -, hname⟩ := hparent.column
  rw [hcolumn] at hname
  have hnone : ∀ c ∈ (memberOrders "ID".toList).columns, c.columnName ≠ some "id".toList := by
    decide
  exact hnone c hc hname

end PgErdCloud.Spec.Inference
