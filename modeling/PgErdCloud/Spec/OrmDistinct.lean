/-
  Names that are lost: two tables or two columns may come to one name in the generated file, or
  a table to a name of the file itself. What a name keeps of the database's are its words, so
  that names differ where the words do.

  `namesDistinct_iff` is about every snapshot and each of the three files, whatever lower case
  Python has.
-/
import PgErdCloud.Spec.PrismaFields

namespace PgErdCloud.Spec.Orm

open Lib Lib.PyStr

/-! ## Columns -/

theorem underscore_not_mem {word : Str} (h : ∀ ch ∈ word, ch.isLower = true ∨ ch.isDigit = true) :
    '_' ∉ word :=
  fun hmem => absurd (h '_' hmem) (by decide)

theorem join_fullWords_injective {a b : Str}
    (h : join "_".toList (fullWords a "column".toList) =
      join "_".toList (fullWords b "column".toList)) :
    fullWords a "column".toList = fullWords b "column".toList := by
  have hsplit : ∀ name : Str, split '_' (join "_".toList (fullWords name "column".toList)) =
      fullWords name "column".toList := by
    intro name
    refine split_join ?_ (fullWords_ne_nil name _)
    exact fun word hword => underscore_not_mem (of_mem_fullWords hword).2
  rw [← hsplit a, ← hsplit b, h]

theorem getLast?_join_fullWords (name : Str) :
    (join "_".toList (fullWords name "column".toList)).getLast? ≠ some '_' := by
  rcases List.eq_nil_or_concat' (fullWords name "column".toList) with hnil | ⟨words, word, hwords⟩
  · exact absurd hnil (fullWords_ne_nil name _)
  · have hword : word ∈ fullWords name "column".toList := by
      rw [hwords]
      exact List.mem_append_right _ (List.mem_singleton_self word)
    obtain ⟨hne, hchars⟩ := of_mem_fullWords hword
    have hlast : (join "_".toList (fullWords name "column".toList)).getLast? = word.getLast? := by
      rw [hwords]
      by_cases hnil : words = []
      · subst hnil
        rw [List.nil_append, join_singleton]
      · rw [join_append hnil (List.cons_ne_nil _ _), join_singleton, ← List.append_assoc,
          List.getLast?_append_of_ne_nil _ hne]
    rw [hlast]
    intro he
    exact underscore_not_mem hchars (List.mem_of_getLast? he)

/-- **Identifiers of columns** are equal where their words are. -/
theorem ident_eq_iff {a b : Str} :
    ident a = ident b ↔ fullWords a "column".toList = fullWords b "column".toList := by
  rw [ident, ident, snakeName_eq a (by decide), snakeName_eq b (by decide)]
  constructor
  · intro h
    refine join_fullWords_injective ?_
    have hlast := congrArg List.getLast? h
    dsimp only at h hlast
    split_ifs at h hlast with ha hb hb
    · exact List.append_cancel_right h
    · rw [List.getLast?_append_of_ne_nil _ (by decide)] at hlast
      exact absurd hlast.symm (getLast?_join_fullWords b)
    · rw [List.getLast?_append_of_ne_nil _ (by decide)] at hlast
      exact absurd hlast (getLast?_join_fullWords a)
    · exact h
  · intro h
    rw [h]

/-! ## Classes -/

/-- A name that `Table` is put before: it is empty, or begins with a digit. -/
def Unnamed (camel : Str) : Prop := camel = [] ∨ startsWithDigit camel = true

instance (camel : Str) : Decidable (Unnamed camel) :=
  inferInstanceAs (Decidable (camel = [] ∨ startsWithDigit camel = true))

/-- The name of a class before a keyword gets `Model` behind it. -/
def tableWord (tableName : Str) : Str :=
  if Unnamed (camelName tableName) then "Table".toList ++ camelName tableName
  else camelName tableName

theorem className_eq (tableName : Str) :
    className tableName =
      if isKeyword (tableWord tableName) then tableWord tableName ++ "Model".toList
      else tableWord tableName := rfl

theorem not_unnamed_table (camel : Str) : ¬ Unnamed ("Table".toList ++ camel) := by
  rintro (hnil | hdigit)
  · exact absurd hnil (List.cons_ne_nil _ _)
  · have hhead : startsWithDigit ("Table".toList ++ camel) = false := rfl
    exact Bool.false_ne_true (hhead.symm.trans hdigit)

/-- Two tables of one word: with one name in capitals, or with it behind `Table`. -/
def SameWord (a b : Str) : Prop :=
  camelName a = camelName b ∨
    (Unnamed (camelName b) ∧ camelName a = "Table".toList ++ camelName b) ∨
      (Unnamed (camelName a) ∧ camelName b = "Table".toList ++ camelName a)

theorem tableWord_eq_iff {a b : Str} : tableWord a = tableWord b ↔ SameWord a b := by
  rw [tableWord, tableWord, SameWord]
  constructor
  · intro h
    split_ifs at h with ha hb hb
    · exact Or.inl (List.append_cancel_left h)
    · exact Or.inr (Or.inr ⟨ha, h.symm⟩)
    · exact Or.inr (Or.inl ⟨hb, h⟩)
    · exact Or.inl h
  · rintro (h | ⟨hb, h⟩ | ⟨ha, h⟩)
    · rw [h]
    · rw [h, if_neg (not_unnamed_table _), if_pos hb]
    · rw [h, if_neg (not_unnamed_table _), if_pos ha]

/-- Two tables of one class: of one word, or one a keyword and the other it with `Model`. -/
def SameClass (a b : Str) : Prop :=
  SameWord a b ∨
    (isKeyword (tableWord a) = true ∧ tableWord b = tableWord a ++ "Model".toList) ∨
      (isKeyword (tableWord b) = true ∧ tableWord a = tableWord b ++ "Model".toList)

theorem not_isKeyword_model {word : Str} (h : isKeyword word = true) :
    isKeyword (word ++ "Model".toList) = false := by
  have hall : (pythonKeywords.all fun word => !isKeyword (word ++ "Model".toList)) = true := by
    decide
  have hmem : word ∈ pythonKeywords := of_decide_eq_true h
  have hword := List.all_eq_true.mp hall word hmem
  exact Bool.not_eq_true' _ ▸ hword

/-- **Classes** have one name where their words are the same, but for keywords. -/
theorem className_eq_iff {a b : Str} : className a = className b ↔ SameClass a b := by
  rw [className_eq, className_eq, SameClass, ← tableWord_eq_iff]
  constructor
  · intro h
    split_ifs at h with ha hb hb
    · exact Or.inl (List.append_cancel_right h)
    · exact Or.inr (Or.inl ⟨ha, h.symm⟩)
    · exact Or.inr (Or.inr ⟨hb, h⟩)
    · exact Or.inl h
  · rintro (h | ⟨ha, h⟩ | ⟨hb, h⟩)
    · rw [h]
    · have hb := not_isKeyword_model ha
      rw [h, if_pos ha, hb, if_neg Bool.false_ne_true]
    · have ha := not_isKeyword_model hb
      rw [h, if_pos hb, ha, if_neg Bool.false_ne_true]

/-- A name that no table can get through `Table` or `Model`. -/
def IsOwnName (name : Str) : Prop :=
  ¬ Unnamed name ∧ isKeyword name = false ∧ startsWith name "Table".toList = false ∧
    ∀ word ∈ pythonKeywords, word ++ "Model".toList ≠ name

instance (name : Str) : Decidable (IsOwnName name) :=
  inferInstanceAs (Decidable (_ ∧ _ ∧ _ ∧ _))

theorem className_eq_own_iff {tableName name : Str} (h : IsOwnName name) :
    className tableName = name ↔ camelName tableName = name := by
  obtain ⟨hname, hkeyword, htable, hmodel⟩ := h
  have hword : tableWord tableName = name ↔ camelName tableName = name := by
    rw [tableWord]
    split_ifs with hunnamed
    · constructor
      · intro he
        have hstart : startsWith name "Table".toList = true := by
          rw [← he]
          exact List.isPrefixOf_iff_prefix.mpr (List.prefix_append _ _)
        exact absurd (htable.symm.trans hstart) Bool.false_ne_true
      · intro he
        exact absurd (he ▸ hunnamed) hname
    · rfl
  rw [className_eq, ← hword]
  split_ifs with hk
  · constructor
    · exact fun he => absurd he (hmodel _ (of_decide_eq_true hk))
    · intro he
      rw [he, hkeyword] at hk
      exact absurd hk Bool.false_ne_true
  · rfl

/-! ## Files -/

/-- The three kinds of files. -/
inductive Target
  | sqlalchemy
  | prisma
  | typeorm
  deriving DecidableEq

/-- The names that a file defines or imports whatever the snapshot is. -/
def Target.ownNames : Target → List Str
  | .sqlalchemy => ["annotations", "dt", "uuid", "Decimal", "ForeignKey", "DeclarativeBase",
      "Mapped", "mapped_column", "Base"].map String.toList
  | .prisma => ["db".toList]
  | .typeorm => ["Column", "Entity", "JoinColumn", "ManyToOne", "OneToMany",
      "PrimaryColumn"].map String.toList

theorem isOwnName_of_mem {target : Target} {name : Str} (h : name ∈ target.ownNames) :
    IsOwnName name := by
  have hall : (target.ownNames.all fun name => decide (IsOwnName name)) = true := by
    cases target <;> decide
  exact of_decide_eq_true (List.all_eq_true.mp hall name h)

variable (unicode : Unicode)

/-- The classes or models of a file, each with the names for its columns. -/
def Target.declared (s : Snapshot) : Target → List (Str × List Str)
  | .sqlalchemy => (modelClasses unicode s).map fun model =>
      (model.name, model.attributes.map Attribute.name)
  | .prisma => (prismaModels unicode s).map fun model =>
      (model.name, model.columns.map Field.name)
  | .typeorm => (entities unicode s).map fun e => (e.name, e.columns.map Property.name)

theorem Target.declared_eq (target : Target) (s : Snapshot) :
    target.declared unicode s = (index s).relations.map fun rel =>
      (className rel.relationName,
        ((index s).cols rel.relationOid).map fun col => ident col.columnName) := by
  have hnames : ∀ rel : RelationRow, ((index s).cols rel.relationOid).map
      (fun col => fieldName ((index s).cols rel.relationOid) col.columnName) =
        ((index s).cols rel.relationOid).map fun col => ident col.columnName :=
    fun rel => List.map_congr_left fun col _ => fieldName_eq _ _
  cases target with
  | sqlalchemy =>
      rw [declared, modelClasses, List.map_map]
      refine List.map_congr_left fun rel _ => ?_
      rw [← hnames, Function.comp_apply, modelClass, List.map_map]
      rfl
  | prisma =>
      rw [declared, prismaModels, List.map_map]
      refine List.map_congr_left fun rel _ => ?_
      rw [← hnames, Function.comp_apply, prismaModel, List.map_map]
      rfl
  | typeorm =>
      rw [declared, entities, List.map_map]
      refine List.map_congr_left fun rel _ => ?_
      rw [← hnames, Function.comp_apply, entity, List.map_map]
      rfl

/-- No table and no column is lost when the file is loaded. -/
def NamesDistinct (target : Target) (s : Snapshot) : Prop :=
  ((target.declared unicode s).map Prod.fst).Nodup ∧
    ∀ declaration ∈ target.declared unicode s,
      declaration.1 ∉ target.ownNames ∧ declaration.2.Nodup

/-- **Distinct names**: a file keeps tables and columns apart where no two tables come to one
    class, none has a name of the file in capitals, and the columns of each have different
    words. -/
theorem namesDistinct_iff (target : Target) (s : Snapshot) :
    NamesDistinct unicode target s ↔
      ((index s).relations.Pairwise fun rel rel' =>
          ¬ SameClass rel.relationName rel'.relationName) ∧
        ∀ rel ∈ (index s).relations, camelName rel.relationName ∉ target.ownNames ∧
          ((index s).cols rel.relationOid).Pairwise fun col col' =>
            fullWords col.columnName "column".toList ≠
              fullWords col'.columnName "column".toList := by
  have hown : ∀ tableName : Str,
      className tableName ∉ target.ownNames ↔ camelName tableName ∉ target.ownNames := by
    intro tableName
    constructor
    · intro h hmem
      have hsame := (className_eq_own_iff (isOwnName_of_mem hmem)).mpr rfl
      exact h (hsame.symm ▸ hmem)
    · intro h hmem
      have hsame := (className_eq_own_iff (isOwnName_of_mem hmem)).mp rfl
      exact h (hsame.symm ▸ hmem)
  rw [NamesDistinct, Target.declared_eq, List.map_map, List.forall_mem_map]
  refine and_congr ?_ (forall₂_congr fun rel _ => and_congr (hown _) ?_)
  · exact List.pairwise_map.trans (List.Pairwise.iff fun _ _ => not_congr className_eq_iff)
  · exact List.pairwise_map.trans (List.Pairwise.iff fun _ _ => not_congr ident_eq_iff)

/-- A table of users in each of two schemas. -/
def usersTwice : Snapshot where
  relations :=
    [⟨some 1, some "r".toList, "public".toList, "users".toList, none⟩,
      ⟨some 2, some "r".toList, "audit".toList, "users".toList, none⟩]
  columns :=
    [⟨some 1, "id".toList, some 1, some "bigint".toList, true⟩,
      ⟨some 2, "id".toList, some 1, some "bigint".toList, true⟩]
  pkColumns := []
  fkEdges := []

/-- Both classes are called `Users`. -/
theorem not_namesDistinct_usersTwice : ¬ NamesDistinct asciiUnicode .sqlalchemy usersTwice :=
  fun h => absurd h.1 (by decide)

end PgErdCloud.Spec.Orm
