/-
  The names of the fields of a Prisma model: of its columns, of the tables it refers to, and of
  the tables that refer to it. Three rules make them, and none looks at the others.

  `fieldsDistinct_iff` is about every snapshot: no model has two fields of one name exactly when
  each table keeps the three kinds apart (`FieldsApart`).
-/
import PgErdCloud.Spec.OrmCodegen

namespace PgErdCloud.Spec.Orm

open Lib Lib.PyStr

/-- The identifier of a column. -/
def ident (name : Str) : Str := snakeName name "column".toList

theorem fieldName_eq (cols : List ColumnRow) (name : Str) : fieldName cols name = ident name := by
  rw [fieldName]
  cases hget : (columnNames cols).get? name with
  | none => rfl
  | some field =>
      obtain ⟨c, -, hname, hfield⟩ := Dict.exists_of_get?_foldl_set hget
      rw [Option.getD_some, ← hfield, ← hname]
      rfl

/-! ## Names of relations -/

/-- The name ends in `_id`. -/
def EndsInId (name : Str) : Prop := endsWith name "_id".toList = true

theorem endsInId_iff {name : Str} : EndsInId name ↔ ∃ stem, name = stem ++ "_id".toList := by
  rw [EndsInId, endsWith, List.isSuffixOf_iff_suffix]
  exact exists_congr fun _ => eq_comm

theorem dropId_append (stem : Str) : dropId (stem ++ "_id".toList) = stem := by
  have hends : endsWith (stem ++ "_id".toList) "_id".toList = true := endsInId_iff.mpr ⟨stem, rfl⟩
  rw [dropId, if_pos hends]
  simp

theorem dropId_of_not {name : Str} (h : ¬ EndsInId name) : dropId name = name := if_neg h

/-- What becomes a name when `_id` is dropped. -/
theorem dropId_eq_iff {name field : Str} :
    dropId name = field ↔ name = field ∧ ¬ EndsInId name ∨ name = field ++ "_id".toList := by
  constructor
  · intro h
    by_cases hends : EndsInId name
    · obtain ⟨stem, rfl⟩ := endsInId_iff.mp hends
      exact Or.inr (by rw [← h, dropId_append])
    · exact Or.inl ⟨(dropId_of_not hends).symm.trans h, hends⟩
  · rintro (⟨rfl, hends⟩ | rfl)
    · exact dropId_of_not hends
    · exact dropId_append field

/-- Two names that differ at most in `_id` at the end of one of them. -/
def SameStem (a b : Str) : Prop :=
  a = b ∨ (¬ EndsInId b ∧ a = b ++ "_id".toList) ∨ (¬ EndsInId a ∧ b = a ++ "_id".toList)

theorem dropId_eq_dropId_iff {a b : Str} : dropId a = dropId b ↔ SameStem a b := by
  constructor
  · intro h
    by_cases hb : EndsInId b
    · obtain ⟨stem, rfl⟩ := endsInId_iff.mp hb
      rw [dropId_append] at h
      rcases dropId_eq_iff.mp h with ⟨rfl, ha⟩ | ha
      · exact Or.inr (Or.inr ⟨ha, rfl⟩)
      · exact Or.inl ha
    · rw [dropId_of_not hb] at h
      rcases dropId_eq_iff.mp h with ⟨ha, -⟩ | ha
      · exact Or.inl ha
      · exact Or.inr (Or.inl ⟨hb, ha⟩)
  · rintro (rfl | ⟨hb, rfl⟩ | ⟨ha, rfl⟩)
    · rfl
    · rw [dropId_append, dropId_of_not hb]
    · rw [dropId_append, dropId_of_not ha]

theorem relationField_ident (name parentClass : Str) :
    relationField (ident name) parentClass = dropId (ident name) := by
  obtain ⟨ch, rest, hname, hch⟩ := exists_head_snakeName name
  have hne : dropId (ident name) ≠ [] := by
    intro he
    rcases dropId_eq_iff.mp he with ⟨hnil, -⟩ | hid
    · exact absurd (hname.symm.trans hnil) (List.cons_ne_nil _ _)
    · have hunderscore : ch = '_' := (List.cons.inj (hname.symm.trans hid)).1
      rw [hunderscore] at hch
      exact absurd hch (by decide)
  rw [relationField, if_neg hne]

theorem toLower_injOn {a b : Char} (ha : a.isUpper = true) (hb : b.isUpper = true)
    (h : a.toLower = b.toLower) : a = b := by
  have hupper := congrArg Char.toUpper h
  rw [Char.toUpper_toLower_eq_toUpper, Char.toUpper_toLower_eq_toUpper,
    Char.toUpper_eq_of_not_isLower (Char.not_isLower_of_isUpper ha),
    Char.toUpper_eq_of_not_isLower (Char.not_isLower_of_isUpper hb)] at hupper
  exact hupper

theorem pluralName_className {a b : Str}
    (h : pluralName (className a) = pluralName (className b)) : className a = className b := by
  obtain ⟨ch, rest, ha, hch⟩ := exists_head_className a
  obtain ⟨ch', rest', hb, hch'⟩ := exists_head_className b
  rw [ha, hb] at h ⊢
  obtain ⟨hhead, htail⟩ := List.cons.inj h
  rw [toLower_injOn hch hch' hhead, List.append_cancel_right htail]

theorem pluralName_eq_append (name : Str) : ∃ stem, pluralName name = stem ++ ['s'] := by
  cases name with
  | nil => exact ⟨[], rfl⟩
  | cons ch rest => exact ⟨ch.toLower :: rest, rfl⟩

theorem not_endsInId_pluralName (name : Str) : ¬ EndsInId (pluralName name) := by
  intro h
  obtain ⟨stem, hstem⟩ := endsInId_iff.mp h
  obtain ⟨singular, hplural⟩ := pluralName_eq_append name
  have hlast := congrArg List.getLast? (hplural.symm.trans hstem)
  rw [List.getLast?_concat, List.getLast?_append_of_ne_nil _ (by decide)] at hlast
  exact absurd hlast (by decide)

/-! ## Fields of a model -/

/-- What keeps the fields of a table's model apart. -/
structure FieldsApart (ix : Index) (oid : Option Int) : Prop where
  /-- Columns have different identifiers. -/
  columns : ((ix.cols oid).map fun col => ident col.columnName).Nodup
  /-- A column of the table that refers to another ends in `_id`. -/
  suffix : ∀ fk ∈ ix.forward oid, ∀ col ∈ ix.cols oid,
    ident fk.childCol = ident col.columnName → EndsInId (ident fk.childCol)
  /-- No other column has the name of a reference without `_id`. -/
  stems : ∀ fk ∈ ix.forward oid, ∀ col ∈ ix.cols oid,
    ident fk.childCol ≠ ident col.columnName ++ "_id".toList
  /-- References differ in more than `_id`. -/
  forward : (ix.forward oid).Pairwise fun fk fk' =>
    ¬ SameStem (ident fk.childCol) (ident fk'.childCol)
  /-- A class refers to the table with one column at most. -/
  children : ((ix.reverse oid).map fun child => className child.relationName).Nodup
  /-- The plural of such a class is no column. -/
  plurals : ∀ child ∈ ix.reverse oid, ∀ col ∈ ix.cols oid,
    ident col.columnName ≠ pluralName (className child.relationName)
  /-- Nor is it a reference. -/
  references : ∀ child ∈ ix.reverse oid, ∀ fk ∈ ix.forward oid,
    ident fk.childCol ≠ pluralName (className child.relationName) ∧
      ident fk.childCol ≠ pluralName (className child.relationName) ++ "_id".toList

variable (unicode : Unicode)

theorem map_name_fields (ix : Index) (rel : RelationRow) :
    (prismaModel unicode ix rel).fields.map Field.name =
      (ix.cols rel.relationOid).map (fun col => ident col.columnName) ++
        (ix.forward rel.relationOid).map (fun fk => dropId (ident fk.childCol)) ++
        (ix.reverse rel.relationOid).map fun child =>
          pluralName (className child.relationName) := by
  have hcolumn : ∀ col, (scalarField unicode ix rel.relationOid col).name = ident col.columnName :=
    fun col => fieldName_eq _ _
  have hforward : ∀ fk, (forwardField ix rel.relationOid fk).name = dropId (ident fk.childCol) := by
    intro fk
    rw [forwardField]
    simp only [fieldName_eq, relationField_ident]
  have hreverse : ∀ child, (reverseField child).name = pluralName (className child.relationName) :=
    fun child => rfl
  simp only [PrismaModel.fields, prismaModel, List.map_append, List.map_map, Function.comp_def,
    hcolumn, hforward, hreverse]

/-- A reference takes the name of a column. -/
theorem dropId_ident_ne_iff {ix : Index} {oid : Option Int} :
    (∀ col ∈ ix.cols oid, ∀ fk ∈ ix.forward oid,
        ident col.columnName ≠ dropId (ident fk.childCol)) ↔
      (∀ fk ∈ ix.forward oid, ∀ col ∈ ix.cols oid,
        ident fk.childCol = ident col.columnName → EndsInId (ident fk.childCol)) ∧
      ∀ fk ∈ ix.forward oid, ∀ col ∈ ix.cols oid,
        ident fk.childCol ≠ ident col.columnName ++ "_id".toList := by
  constructor
  · intro h
    constructor
    · intro fk hfk col hcol he
      by_contra hends
      exact h col hcol fk hfk (dropId_eq_iff.mpr (Or.inl ⟨he, hends⟩)).symm
    · intro fk hfk col hcol he
      exact h col hcol fk hfk (dropId_eq_iff.mpr (Or.inr he)).symm
  · rintro ⟨hsuffix, hstems⟩ col hcol fk hfk he
    rcases dropId_eq_iff.mp he.symm with ⟨hsame, hends⟩ | hid
    · exact hends (hsuffix fk hfk col hcol hsame)
    · exact hstems fk hfk col hcol hid

/-- A reference takes the name of a table that refers to this one. -/
theorem dropId_eq_pluralName_iff {name child : Str} :
    dropId name = pluralName child ↔
      name = pluralName child ∨ name = pluralName child ++ "_id".toList := by
  rw [dropId_eq_iff]
  constructor
  · rintro (⟨h, -⟩ | h)
    · exact Or.inl h
    · exact Or.inr h
  · rintro (rfl | h)
    · exact Or.inl ⟨rfl, not_endsInId_pluralName child⟩
    · exact Or.inr h

/-- **The fields of a model have different names** exactly where nothing brings two of the
    three rules, or one of them twice, to one name. -/
theorem nodup_fields_iff (ix : Index) (rel : RelationRow) :
    ((prismaModel unicode ix rel).fields.map Field.name).Nodup ↔
      FieldsApart ix rel.relationOid := by
  have hforward : ((ix.forward rel.relationOid).map fun fk => dropId (ident fk.childCol)).Nodup ↔
      (ix.forward rel.relationOid).Pairwise fun fk fk' =>
        ¬ SameStem (ident fk.childCol) (ident fk'.childCol) :=
    List.pairwise_map.trans (List.Pairwise.iff fun _ _ => not_congr dropId_eq_dropId_iff)
  have hreverse : ((ix.reverse rel.relationOid).map fun child =>
      pluralName (className child.relationName)).Nodup ↔
        ((ix.reverse rel.relationOid).map fun child => className child.relationName).Nodup := by
    refine List.pairwise_map.trans (Iff.trans ?_ List.pairwise_map.symm)
    exact List.Pairwise.iff fun _ _ => not_congr ⟨pluralName_className, congrArg pluralName⟩
  rw [map_name_fields, List.append_assoc, List.nodup_append, List.nodup_append, hforward, hreverse]
  simp only [List.forall_mem_map, List.forall_mem_append]
  constructor
  · rintro ⟨hcolumns, ⟨hfwd, hrev, hreferences⟩, hrest⟩
    obtain ⟨hsuffix, hstems⟩ :=
      dropId_ident_ne_iff.mp fun col hcol fk hfk => (hrest col hcol).1 fk hfk
    refine ⟨hcolumns, hsuffix, hstems, hfwd, hrev, ?_, ?_⟩
    · exact fun child hchild col hcol => (hrest col hcol).2 child hchild
    · intro child hchild fk hfk
      have hne := hreferences fk hfk child hchild
      exact ⟨fun he => hne (dropId_eq_pluralName_iff.mpr (Or.inl he)),
        fun he => hne (dropId_eq_pluralName_iff.mpr (Or.inr he))⟩
  · intro h
    have hcross := dropId_ident_ne_iff.mpr ⟨h.suffix, h.stems⟩
    refine ⟨h.columns, ⟨h.forward, h.children, ?_⟩, ?_⟩
    · intro fk hfk child hchild he
      have hne := h.references child hchild fk hfk
      exact (dropId_eq_pluralName_iff.mp he).elim hne.1 hne.2
    · exact fun col hcol => ⟨hcross col hcol, fun child hchild => h.plurals child hchild col hcol⟩

/-- No model of the schema has two fields of one name. -/
def FieldsDistinct (s : Snapshot) : Prop :=
  ∀ model ∈ prismaModels unicode s, (model.fields.map Field.name).Nodup

/-- **Distinct fields**: the models of a schema have them where each table keeps its columns,
    its references and the tables that refer to it apart. -/
theorem fieldsDistinct_iff (s : Snapshot) :
    FieldsDistinct unicode s ↔
      ∀ rel ∈ (index s).relations, FieldsApart (index s) rel.relationOid := by
  rw [FieldsDistinct, prismaModels, List.forall_mem_map]
  exact forall₂_congr fun rel _ => nodup_fields_iff unicode (index s) rel

/-- A post and its owner, in a column that is not called `owner_id`. -/
def ownedPosts : Snapshot where
  relations :=
    [⟨some 1, some "r".toList, "public".toList, "users".toList, none⟩,
      ⟨some 2, some "r".toList, "public".toList, "posts".toList, none⟩]
  columns :=
    [⟨some 1, "id".toList, some 1, some "bigint".toList, true⟩,
      ⟨some 2, "owner".toList, some 1, some "bigint".toList, true⟩]
  pkColumns := [⟨some 1, "id".toList⟩]
  fkEdges := [⟨some 2, some 1, "owner".toList, "id".toList⟩]

/-- The column and the reference are both called `owner`. -/
theorem not_fieldsDistinct_ownedPosts : ¬ FieldsDistinct asciiUnicode ownedPosts := by
  intro h
  have hposts := h (prismaModel asciiUnicode (index ownedPosts)
    ⟨some 2, some "r".toList, "public".toList, "posts".toList, none⟩)
    (List.mem_map.mpr ⟨_, by decide, rfl⟩)
  exact absurd hposts (by decide)

end PgErdCloud.Spec.Orm
