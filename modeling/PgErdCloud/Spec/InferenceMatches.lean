/-
  What the loops of the inference find, on the rows of a snapshot. A guess is a `Match` of rows:
  a column whose name ends in `_id`, a table of the schema with the name before it and a key, and
  the column of that table that is taken (`mem_guesses_iff`, `made_iff_matches`).

  Of the matches with one key the first that is read is kept (`mem_kept_iff_counts`). It is the
  only one where an oid stands for one relation.
-/
import PgErdCloud.Spec.Inference
import PgErdCloud.Lib.DictLoops

namespace PgErdCloud.Spec.Inference

open Lib Lib.PyStr

variable {unicode : Unicode} {sets : SetOrder} {s : Snapshot}

/-! ## What the maps hold -/

/-- The last row of a table whose name is the key in lower case. -/
def columnCalled (unicode : Unicode) (s : Snapshot) (oid : Option Int) (key : Str) :
    Option ColumnRow :=
  (s.columns.filter fun c =>
    c.relationOid = oid ∧ c.columnName.map unicode.lower = some key).getLast?

/-- The columns of a table's primary key, as they are stored. -/
def keyNames (s : Snapshot) (oid : Option Int) : List Str :=
  s.pkColumns.filterMap fun pk => if pk.relationOid = oid then pk.columnName else none

theorem get?_colsOf_eq_columnCalled (oid : Option Int) (key : Str) :
    (colsOf unicode s oid).get? key = columnCalled unicode s oid key := by
  have hfilter : (s.columns.filter fun c =>
      (c.columnName.map fun _ => c.relationOid) = some oid).filter
        (fun c => unicode.lower (text c.columnName) = key) = s.columns.filter fun c =>
          c.relationOid = oid ∧ c.columnName.map unicode.lower = some key := by
    rw [List.filter_filter]
    refine List.filter_congr fun c _ => ?_
    rw [Bool.eq_iff_iff]
    cases hname : c.columnName with
    | none => simp
    | some name =>
        rw [Bool.and_eq_true, decide_eq_true_iff, decide_eq_true_iff, decide_eq_true_iff]
        simp [text, and_comm]
  rw [columnCalled, ← hfilter, colsOf, colsByOid, Dict.get?_foldl_upsertAt]
  split_ifs with hnone
  · rw [hnone]
    rfl
  · rw [Option.getD_some, Dict.get?_empty, Option.getD_none]
    exact (Dict.get?_foldl_set_getLast? _ id _ key).trans Option.map_id_apply

theorem pksOf_eq (oid : Option Int) :
    pksOf unicode s oid =
      (s.pkColumns.filter fun pk => (pk.columnName.map fun _ => pk.relationOid) = some oid).map
        fun pk => unicode.lower (text pk.columnName) :=
  Dict.getD_get?_foldl_groupAt _ _ _ oid

theorem pksOf_eq_keyNames (oid : Option Int) :
    pksOf unicode s oid = (keyNames s oid).map unicode.lower := by
  rw [pksOf_eq, keyNames]
  induction s.pkColumns with
  | nil => rfl
  | cons pk pks ih =>
      cases hname : pk.columnName with
      | none => simpa [hname] using ih
      | some name =>
          by_cases hoid : pk.relationOid = oid
          · simpa [hname, hoid, text] using ih
          · simpa [hname, hoid] using ih

theorem mem_byName {name : Str} {rel : RelationRow} :
    rel ∈ ((byName unicode s).get? name).getD [] ↔
      rel ∈ s.relations ∧ unicode.lower (text rel.relationName) = name := by
  rw [byName, Dict.getD_get?_foldl_groupAt, List.map_id, List.mem_filter, decide_eq_true_iff,
    Option.some.injEq]

theorem mem_declared_iff {oid : Option Int} {key : Str} :
    (oid, key) ∈ declared unicode s ↔
      ∃ e ∈ s.fkEdges, e.childRelationOid = oid ∧
        e.childColumnName.map unicode.lower = some key := by
  rw [declared, List.mem_filterMap]
  refine exists_congr fun e => and_congr_right fun _ => ?_
  cases e.childColumnName <;> simp

/-! ## Guesses -/

/-- What a guess is, with no word on the order in which it is found. -/
structure Guess.Made (unicode : Unicode) (s : Snapshot) (g : Guess) : Prop where
  child : g.child ∈ s.relations
  column : (colsOf unicode s g.child.relationOid).get? g.columnKey = some g.column
  suffix : endsWith g.columnKey "_id".toList = true
  long : 3 < g.columnKey.length
  undeclared : (g.child.relationOid, g.columnKey) ∉ declared unicode s
  named : unicode.lower (text g.target.relationName) ∈
    candidateTargetNames unicode (g.columnKey.take (g.columnKey.length - 3))
  target : g.target ∈ s.relations
  schema : text g.target.schemaName = text g.child.schemaName
  primaryKey : pksOf unicode s g.target.relationOid ≠ []
  ref : refColumn unicode s g.target.relationOid g.columnKey = some g.ref
  notSelf : ¬ (g.target.relationOid = g.child.relationOid ∧ g.ref = g.columnKey)

theorem guessTarget_eq_some_iff {child target : RelationRow} {columnKey : Str}
    {column : ColumnRow} {g : Guess} :
    guessTarget unicode s child columnKey column target = some g ↔
      (g.child = child ∧ g.columnKey = columnKey ∧ g.column = column ∧ g.target = target) ∧
      text target.schemaName = text child.schemaName ∧
      pksOf unicode s target.relationOid ≠ [] ∧
      refColumn unicode s target.relationOid columnKey = some g.ref ∧
      ¬ (target.relationOid = child.relationOid ∧ g.ref = columnKey) := by
  unfold guessTarget
  split_ifs with hschema hpk
  · exact iff_of_false nofun fun h => hschema h.2.1
  · exact iff_of_false nofun fun h => h.2.2.1 hpk
  · cases href : refColumn unicode s target.relationOid columnKey with
    | none => exact iff_of_false nofun fun h => absurd h.2.2.2.1 nofun
    | some ref =>
        dsimp only
        split_ifs with hself
        · refine iff_of_false nofun fun h => h.2.2.2.2 ⟨hself.1, ?_⟩
          rw [← Option.some.inj h.2.2.2.1, hself.2]
        · rw [Option.some.injEq]
          constructor
          · rintro rfl
            exact ⟨⟨rfl, rfl, rfl, rfl⟩, not_not.mp hschema, hpk, rfl, hself⟩
          · obtain ⟨child', columnKey', column', target', ref'⟩ := g
            rintro ⟨⟨rfl, rfl, rfl, rfl⟩, -, -, href', -⟩
            rw [Option.some.inj href']

theorem mem_guesses_iff {g : Guess} : g ∈ guesses unicode sets s ↔ g.Made unicode s := by
  constructor
  · intro h
    obtain ⟨child, hchild, h⟩ := List.mem_flatMap.mp h
    obtain ⟨⟨columnKey, column⟩, hcolumn, h⟩ := List.mem_flatMap.mp h
    unfold guessColumn at h
    split_ifs at h with hname hdeclared
    · exact absurd h List.not_mem_nil
    · exact absurd h List.not_mem_nil
    · obtain ⟨cand, hcand, h⟩ := List.mem_flatMap.mp h
      obtain ⟨target, htarget, h⟩ := List.mem_filterMap.mp h
      obtain ⟨⟨rfl, rfl, rfl, rfl⟩, hschema, hpk, href, hself⟩ := guessTarget_eq_some_iff.mp h
      obtain ⟨hmem, rfl⟩ := mem_byName.mp htarget
      rw [not_or, Bool.not_eq_false, not_le] at hname
      exact ⟨hchild, Dict.mem_items_iff.mp hcolumn, hname.1, hname.2, hdeclared,
        (sets.perm _).mem_iff.mp hcand, hmem, hschema, hpk, href, hself⟩
  · intro h
    refine List.mem_flatMap.mpr ⟨g.child, h.child, List.mem_flatMap.mpr
      ⟨(g.columnKey, g.column), Dict.mem_items_iff.mpr h.column, ?_⟩⟩
    rw [guessColumn, if_neg (by rw [h.suffix]; exact not_or.mpr ⟨by simp, h.long.not_ge⟩),
      if_neg h.undeclared]
    refine List.mem_flatMap.mpr ⟨_, (sets.perm _).mem_iff.mpr h.named, List.mem_filterMap.mpr
      ⟨g.target, mem_byName.mpr ⟨h.target, rfl⟩, ?_⟩⟩
    exact guessTarget_eq_some_iff.mpr
      ⟨⟨rfl, rfl, rfl, rfl⟩, h.schema, h.primaryKey, h.ref, h.notSelf⟩

/-! ## Matches of rows -/

/-- The table has a column with the key for its name in lower case. -/
def HasColumn (unicode : Unicode) (s : Snapshot) (oid : Option Int) (key : Str) : Prop :=
  ∃ c ∈ s.columns, c.relationOid = oid ∧ c.columnName.map unicode.lower = some key

/-- The only column of a table's key, if it is a column of the table, in lower case. -/
def OnlyKey (unicode : Unicode) (s : Snapshot) (oid : Option Int) (ref : Str) : Prop :=
  ∃ name, keyNames s oid = [name] ∧ unicode.lower name = ref ∧ HasColumn unicode s oid ref

/-- The column of a table that is taken for a reference: its only key, else the column called
    like the referring one, else `id`. -/
inductive RefersTo (unicode : Unicode) (s : Snapshot) (oid : Option Int) (key : Str) : Str → Prop
  | key {ref : Str} (h : OnlyKey unicode s oid ref) : RefersTo unicode s oid key ref
  | same (hkey : ∀ ref, ¬ OnlyKey unicode s oid ref) (h : HasColumn unicode s oid key) :
      RefersTo unicode s oid key key
  | id (hkey : ∀ ref, ¬ OnlyKey unicode s oid ref) (hsame : ¬ HasColumn unicode s oid key)
      (h : HasColumn unicode s oid "id".toList) : RefersTo unicode s oid key "id".toList

/-- **A match of rows**: an undeclared column `<x>_id` of a table, and a table of the same schema
    that is called `<x>`, or its plural, and has a primary key. Names are compared in lower case;
    of columns with one name the last counts. -/
structure Guess.Matches (unicode : Unicode) (s : Snapshot) (g : Guess) : Prop where
  child : g.child ∈ s.relations
  column : columnCalled unicode s g.child.relationOid g.columnKey = some g.column
  suffix : endsWith g.columnKey "_id".toList = true
  long : 3 < g.columnKey.length
  undeclared : ∀ e ∈ s.fkEdges, e.childRelationOid = g.child.relationOid →
    e.childColumnName.map unicode.lower ≠ some g.columnKey
  named : unicode.lower (text g.target.relationName) ∈
    candidateTargetNames unicode (g.columnKey.take (g.columnKey.length - 3))
  target : g.target ∈ s.relations
  schema : text g.target.schemaName = text g.child.schemaName
  primaryKey : keyNames s g.target.relationOid ≠ []
  ref : RefersTo unicode s g.target.relationOid g.columnKey g.ref
  notSelf : ¬ (g.target.relationOid = g.child.relationOid ∧ g.ref = g.columnKey)

theorem mem_keys_colsOf_iff {oid : Option Int} {key : Str} :
    key ∈ (colsOf unicode s oid).keys ↔ HasColumn unicode s oid key := by
  rw [Dict.mem_keys_iff, get?_colsOf_eq_columnCalled, HasColumn, columnCalled,
    ← Option.isSome_iff_exists, List.getLast?_isSome, ne_eq, List.filter_eq_nil_iff]
  simp

theorem onlyKey_iff {oid : Option Int} {ref : Str} :
    OnlyKey unicode s oid ref ↔
      pksOf unicode s oid = [ref] ∧ ref ∈ (colsOf unicode s oid).keys := by
  rw [pksOf_eq_keyNames, mem_keys_colsOf_iff, List.map_eq_singleton_iff, OnlyKey]
  constructor
  · rintro ⟨name, hnames, hlower, hcolumn⟩
    exact ⟨⟨name, hnames, hlower⟩, hcolumn⟩
  · rintro ⟨⟨name, hnames, hlower⟩, hcolumn⟩
    exact ⟨name, hnames, hlower, hcolumn⟩

theorem refColumn_eq_some_iff {oid : Option Int} {key ref : Str} :
    refColumn unicode s oid key = some ref ↔ RefersTo unicode s oid key ref := by
  by_cases honly : ∃ pk, OnlyKey unicode s oid pk
  · obtain ⟨pk, hpk⟩ := honly
    obtain ⟨hpks, hcolumn⟩ := onlyKey_iff.mp hpk
    rw [refColumn, hpks]
    dsimp only
    rw [if_pos hcolumn, Option.some.injEq]
    constructor
    · rintro rfl
      exact .key hpk
    · intro h
      cases h with
      | key h => exact (List.cons.inj (hpks.symm.trans (onlyKey_iff.mp h).1)).1
      | same hkey _ => exact absurd hpk (hkey pk)
      | id hkey _ _ => exact absurd hpk (hkey pk)
  · have hkey : ∀ pk, ¬ OnlyKey unicode s oid pk := not_exists.mp honly
    have hnamed : refColumn unicode s oid key =
        if key ∈ (colsOf unicode s oid).keys then some key
        else if "id".toList ∈ (colsOf unicode s oid).keys then some "id".toList else none := by
      rw [refColumn]
      split
      next pk hpks => exact if_neg fun hcolumn => hkey pk (onlyKey_iff.mpr ⟨hpks, hcolumn⟩)
      next => rfl
    rw [hnamed]
    split_ifs with hsame hid
    · rw [Option.some.injEq]
      constructor
      · rintro rfl
        exact .same hkey (mem_keys_colsOf_iff.mp hsame)
      · intro h
        cases h with
        | key h => exact absurd h (hkey ref)
        | same => rfl
        | id _ hnot _ => exact absurd (mem_keys_colsOf_iff.mp hsame) hnot
    · rw [Option.some.injEq]
      constructor
      · rintro rfl
        exact .id hkey (fun h => hsame (mem_keys_colsOf_iff.mpr h)) (mem_keys_colsOf_iff.mp hid)
      · intro h
        cases h with
        | key h => exact absurd h (hkey ref)
        | same _ h => exact absurd (mem_keys_colsOf_iff.mpr h) hsame
        | id => rfl
    · refine iff_of_false (by simp) fun h => ?_
      cases h with
      | key h => exact hkey ref h
      | same _ h => exact hsame (mem_keys_colsOf_iff.mpr h)
      | id _ _ h => exact hid (mem_keys_colsOf_iff.mpr h)

/-- **A guess is a match of rows.** -/
theorem made_iff_matches {g : Guess} : g.Made unicode s ↔ g.Matches unicode s := by
  have hundeclared : (g.child.relationOid, g.columnKey) ∉ declared unicode s ↔
      ∀ e ∈ s.fkEdges, e.childRelationOid = g.child.relationOid →
        e.childColumnName.map unicode.lower ≠ some g.columnKey := by
    rw [mem_declared_iff]
    simp only [not_exists, not_and, ne_eq]
  have hkeys : pksOf unicode s g.target.relationOid ≠ [] ↔
      keyNames s g.target.relationOid ≠ [] := by
    rw [pksOf_eq_keyNames, ne_eq, List.map_eq_nil_iff]
  constructor
  · intro h
    exact ⟨h.child, get?_colsOf_eq_columnCalled _ _ ▸ h.column, h.suffix, h.long,
      hundeclared.mp h.undeclared, h.named, h.target, h.schema, hkeys.mp h.primaryKey,
      refColumn_eq_some_iff.mp h.ref, h.notSelf⟩
  · intro h
    exact ⟨h.child, (get?_colsOf_eq_columnCalled _ _).trans h.column, h.suffix, h.long,
      hundeclared.mpr h.undeclared, h.named, h.target, h.schema, hkeys.mpr h.primaryKey,
      refColumn_eq_some_iff.mpr h.ref, h.notSelf⟩

/-! ## The first match -/

/-- A match with the oids and columns of another, from a table on. -/
def Guess.HasRival (unicode : Unicode) (s : Snapshot) (g : Guess) (p : Guess → Prop) : Prop :=
  ∃ g' : Guess, g'.Matches unicode s ∧ g'.key = g.key ∧ p g'

/-- Of the matches with the same oids and columns, the one that is read first: its child's row is
    the first that has one, its target's name the first of these in the order of the names, and
    its target's row the first with that name. -/
structure Guess.Counts (unicode : Unicode) (sets : SetOrder) (s : Snapshot) (g : Guess) : Prop where
  isMatch : g.Matches unicode s
  child : First (fun row => g.HasRival unicode s fun g' => g'.child = row) s.relations g.child
  name : First (fun name => g.HasRival unicode s fun g' =>
      g'.child = g.child ∧ unicode.lower (text g'.target.relationName) = name)
    (sets.order (candidateTargetNames unicode (g.columnKey.take (g.columnKey.length - 3))))
    (unicode.lower (text g.target.relationName))
  target : First (fun row => g.HasRival unicode s fun g' =>
      g'.child = g.child ∧ g'.target = row ∧
        unicode.lower (text row.relationName) = unicode.lower (text g.target.relationName))
    s.relations g.target

/-- The guesses that are printed. -/
def kept (unicode : Unicode) (sets : SetOrder) (s : Snapshot) : List Guess :=
  (guesses unicode sets s).foldl (keepFirst Guess.key fun _ => False) []

/-- What the loop finds for the column of a match in a row with a name that is tried. -/
theorem guessTarget_of_matches {g g' : Guess} (hg : g.Matches unicode s) {row : RelationRow}
    (hrow : row ∈ s.relations)
    (hnamed : unicode.lower (text row.relationName) ∈
      candidateTargetNames unicode (g.columnKey.take (g.columnKey.length - 3))) :
    guessTarget unicode s g.child g.columnKey g.column row = some g' ↔
      g'.Matches unicode s ∧ g'.child = g.child ∧ g'.columnKey = g.columnKey ∧ g'.target = row := by
  have hmade := made_iff_matches.mpr hg
  rw [guessTarget_eq_some_iff, ← made_iff_matches]
  constructor
  · rintro ⟨⟨hchild, hkey, hcolumn, rfl⟩, hschema, hpk, href, hself⟩
    refine ⟨⟨?_, ?_, ?_, ?_, ?_, ?_, hrow, ?_, hpk, ?_, ?_⟩, hchild, hkey, rfl⟩
    all_goals simp only [hchild, hkey, hcolumn]
    · exact hmade.child
    · exact hmade.column
    · exact hmade.suffix
    · exact hmade.long
    · exact hmade.undeclared
    · exact hnamed
    · exact hschema
    · exact href
    · exact hself
  · rintro ⟨hmade', hchild, hkey, rfl⟩
    have hcolumn : g'.column = g.column := by
      have hget := hmade'.column
      rw [hchild, hkey, hmade.column] at hget
      exact (Option.some.inj hget).symm
    refine ⟨⟨hchild, hkey, hcolumn, rfl⟩, ?_, hmade'.primaryKey, ?_, ?_⟩
    · exact hchild ▸ hmade'.schema
    · exact hkey ▸ hmade'.ref
    · exact hchild ▸ hkey ▸ hmade'.notSelf

/-- The tables of a name that are tried for a column. -/
def guessNamed (unicode : Unicode) (s : Snapshot) (g : Guess) (cand : Str) : List Guess :=
  (((byName unicode s).get? cand).getD []).filterMap
    (guessTarget unicode s g.child g.columnKey g.column)

theorem of_mem_guessColumn {child : RelationRow} {columnKey : Str} {column : ColumnRow}
    {g : Guess} (h : g ∈ guessColumn unicode sets s child columnKey column) :
    g.child = child ∧ (g.columnKey, g.column) = (columnKey, column) := by
  unfold guessColumn at h
  split_ifs at h
  · exact absurd h List.not_mem_nil
  · exact absurd h List.not_mem_nil
  · obtain ⟨cand, -, h⟩ := List.mem_flatMap.mp h
    obtain ⟨target, -, h⟩ := List.mem_filterMap.mp h
    obtain ⟨⟨hchild, hkey, hcolumn, -⟩, -⟩ := guessTarget_eq_some_iff.mp h
    exact ⟨hchild, Prod.ext hkey hcolumn⟩

theorem guessColumn_of_matches {g : Guess} (hg : g.Matches unicode s) :
    guessColumn unicode sets s g.child g.columnKey g.column =
      (sets.order
        (candidateTargetNames unicode (g.columnKey.take (g.columnKey.length - 3)))).flatMap
        (guessNamed unicode s g) := by
  rw [guessColumn, if_neg, if_neg (made_iff_matches.mpr hg).undeclared]
  · rfl
  · rw [hg.suffix]
    exact not_or.mpr ⟨by simp, hg.long.not_ge⟩

theorem mem_guessNamed_iff {g g' : Guess} (hg : g.Matches unicode s) {cand : Str}
    (hcand : cand ∈ candidateTargetNames unicode (g.columnKey.take (g.columnKey.length - 3))) :
    g' ∈ guessNamed unicode s g cand ↔ g'.Matches unicode s ∧ g'.child = g.child ∧
      g'.columnKey = g.columnKey ∧ unicode.lower (text g'.target.relationName) = cand := by
  rw [guessNamed, List.mem_filterMap]
  constructor
  · rintro ⟨row, hrow, h⟩
    obtain ⟨hmem, rfl⟩ := mem_byName.mp hrow
    obtain ⟨hmatches, hchild, hkey, rfl⟩ := (guessTarget_of_matches hg hmem hcand).mp h
    exact ⟨hmatches, hchild, hkey, rfl⟩
  · rintro ⟨hmatches, hchild, hkey, rfl⟩
    exact ⟨g'.target, mem_byName.mpr ⟨hmatches.target, rfl⟩,
      (guessTarget_of_matches hg hmatches.target hcand).mpr ⟨hmatches, hchild, hkey, rfl⟩⟩

theorem columnKey_of_key {g g' : Guess} (h : g'.key = g.key) : g'.columnKey = g.columnKey :=
  congrArg (fun key => key.2.1) h

/-- The round of the tables, for a match. -/
theorem first_guessNamed_iff {g : Guess} (hg : g.Matches unicode s) :
    First (fun g' => g'.key = g.key)
        (guessNamed unicode s g (unicode.lower (text g.target.relationName))) g ↔
      First (fun row => g.HasRival unicode s fun g' => g'.child = g.child ∧ g'.target = row ∧
        unicode.lower (text row.relationName) = unicode.lower (text g.target.relationName))
        s.relations g.target := by
  have hself : guessTarget unicode s g.child g.columnKey g.column g.target = some g :=
    (guessTarget_of_matches hg hg.target hg.named).mpr ⟨hg, rfl, rfl, rfl⟩
  have hrow (row) (hrow : row ∈ s.relations) :
      (decide (some (unicode.lower (text row.relationName)) =
          some (unicode.lower (text g.target.relationName))) = true ∧
        ∃ g' ∈ guessTarget unicode s g.child g.columnKey g.column row, g'.key = g.key) ↔
      g.HasRival unicode s fun g' => g'.child = g.child ∧ g'.target = row ∧
        unicode.lower (text row.relationName) = unicode.lower (text g.target.relationName) := by
    rw [decide_eq_true_iff, Option.some.injEq]
    constructor
    · rintro ⟨hname, g', hg', hkey⟩
      obtain ⟨hmatches, hchild, -, htarget⟩ :=
        (guessTarget_of_matches hg hrow (hname ▸ hg.named)).mp hg'
      exact ⟨g', hmatches, hkey, hchild, htarget, hname⟩
    · rintro ⟨g', hmatches, hkey, hchild, htarget, hname⟩
      exact ⟨hname, g', (guessTarget_of_matches hg hrow (hname ▸ hg.named)).mpr
        ⟨hmatches, hchild, columnKey_of_key hkey, htarget⟩, hkey⟩
  rw [guessNamed, byName, Dict.getD_get?_foldl_groupAt, List.map_id, first_filterMap_iff]
  simp only [first_filter_iff]
  rw [← first_congr hrow]
  constructor
  · rintro ⟨row, hfirst, hg'⟩
    obtain ⟨⟨-, -, -, rfl⟩, -⟩ := guessTarget_eq_some_iff.mp hg'
    exact hfirst
  · exact fun hfirst => ⟨g.target, hfirst, hself⟩

/-- The rounds of the names, for a match. -/
theorem first_guessColumn_iff {g : Guess} (hg : g.Matches unicode s) :
    First (fun g' => g'.key = g.key)
        (guessColumn unicode sets s g.child g.columnKey g.column) g ↔
      First (fun name => g.HasRival unicode s fun g' =>
          g'.child = g.child ∧ unicode.lower (text g'.target.relationName) = name)
        (sets.order (candidateTargetNames unicode (g.columnKey.take (g.columnKey.length - 3))))
        (unicode.lower (text g.target.relationName)) ∧
      First (fun g' => g'.key = g.key)
        (guessNamed unicode s g (unicode.lower (text g.target.relationName))) g := by
  set names := sets.order
    (candidateTargetNames unicode (g.columnKey.take (g.columnKey.length - 3))) with hnames
  have hcand {cand : Str} (h : cand ∈ names) :
      cand ∈ candidateTargetNames unicode (g.columnKey.take (g.columnKey.length - 3)) :=
    (sets.perm _).mem_iff.mp h
  have hround (cand) (h : cand ∈ names) (g') (hg' : g' ∈ guessNamed unicode s g cand) :
      unicode.lower (text g'.target.relationName) = cand :=
    ((mem_guessNamed_iff hg (hcand h)).mp hg').2.2.2
  have hname (name) (h : name ∈ names) :
      (∃ g' ∈ names.flatMap (guessNamed unicode s g), g'.key = g.key ∧
        unicode.lower (text g'.target.relationName) = name) ↔
      g.HasRival unicode s fun g' =>
        g'.child = g.child ∧ unicode.lower (text g'.target.relationName) = name := by
    constructor
    · rintro ⟨g', hg', hkey, hlower⟩
      obtain ⟨cand, hmem, hg'⟩ := List.mem_flatMap.mp hg'
      obtain ⟨hmatches, hchild, -, -⟩ := (mem_guessNamed_iff hg (hcand hmem)).mp hg'
      exact ⟨g', hmatches, hkey, hchild, hlower⟩
    · rintro ⟨g', hmatches, hkey, hchild, hlower⟩
      exact ⟨g', List.mem_flatMap.mpr ⟨name, h, (mem_guessNamed_iff hg (hcand h)).mpr
        ⟨hmatches, hchild, columnKey_of_key hkey, hlower⟩⟩, hkey, hlower⟩
  rw [guessColumn_of_matches hg,
    first_flatMap_iff_of_round (fun g' => unicode.lower (text g'.target.relationName)) hround,
    first_congr hname]

/-- **What is printed are the matches that count.** -/
theorem mem_kept_iff_counts {g : Guess} : g ∈ kept unicode sets s ↔ g.Counts unicode sets s := by
  have hmatches {g' : Guess} : g' ∈ guesses unicode sets s ↔ g'.Matches unicode s :=
    mem_guesses_iff.trans made_iff_matches
  rw [kept, mem_foldl_keepFirst_iff]
  simp only [not_false_eq_true, true_and]
  by_cases hg : g.Matches unicode s
  swap
  · exact iff_of_false (fun h => hg (hmatches.mp h.mem)) fun h => hg h.isMatch
  -- the round of the child
  have hchild (child : RelationRow) (_ : child ∈ s.relations) (g' : Guess)
      (h : g' ∈ (colsOf unicode s child.relationOid).items.flatMap fun entry =>
        guessColumn unicode sets s child entry.1 entry.2) : g'.child = child := by
    obtain ⟨entry, -, h⟩ := List.mem_flatMap.mp h
    exact (of_mem_guessColumn h).1
  have hrows (row) (_ : row ∈ s.relations) :
      (∃ g' ∈ guesses unicode sets s, g'.key = g.key ∧ g'.child = row) ↔
        g.HasRival unicode s fun g' => g'.child = row :=
    exists_congr fun g' => and_congr_left fun _ => hmatches
  -- the round of its column, the only one with the key
  have hentry (entry : Str × ColumnRow) (_ : entry ∈ (colsOf unicode s g.child.relationOid).items)
      (g' : Guess) (h : g' ∈ guessColumn unicode sets s g.child entry.1 entry.2) :
      (g'.columnKey, g'.column) = entry := (of_mem_guessColumn h).2
  have hitem : (g.columnKey, g.column) ∈ (colsOf unicode s g.child.relationOid).items :=
    Dict.mem_items_iff.mpr (made_iff_matches.mpr hg).column
  have hself : g ∈ guessColumn unicode sets s g.child g.columnKey g.column := by
    rw [guessColumn_of_matches hg]
    exact List.mem_flatMap.mpr ⟨_, (sets.perm _).mem_iff.mpr hg.named,
      (mem_guessNamed_iff hg hg.named).mpr ⟨hg, rfl, rfl, rfl⟩⟩
  have hcolumn : First (fun entry => ∃ g' ∈ (colsOf unicode s g.child.relationOid).items.flatMap
      (fun entry => guessColumn unicode sets s g.child entry.1 entry.2),
        g'.key = g.key ∧ (g'.columnKey, g'.column) = entry)
      (colsOf unicode s g.child.relationOid).items (g.columnKey, g.column) := by
    refine (first_iff_of_unique ?_).mpr ⟨hitem, g, List.mem_flatMap.mpr ⟨_, hitem, hself⟩, rfl, rfl⟩
    rintro entry hmem ⟨g', -, hkey, rfl⟩
    have hget := Dict.mem_items_iff.mp hmem
    rw [columnKey_of_key hkey, (made_iff_matches.mpr hg).column] at hget
    rw [columnKey_of_key hkey, Option.some.inj hget]
  rw [guesses, first_flatMap_iff_of_round Guess.child hchild,
    first_flatMap_iff_of_round (fun g' => (g'.columnKey, g'.column)) hentry,
    and_iff_right hcolumn, first_guessColumn_iff hg, first_guessNamed_iff hg]
  rw [← guesses, first_congr hrows]
  exact ⟨fun ⟨hc, hn, ht⟩ => ⟨hg, hc, hn, ht⟩, fun h => ⟨h.child, h.name, h.target⟩⟩

end PgErdCloud.Spec.Inference
