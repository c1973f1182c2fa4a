/-
  The names of the three files in their texts. The models and entities of a snapshot are what
  the results on names speak of; here the lines of the generated text are shown to declare them,
  in their order.

  Proved for every snapshot, whatever lower case Python has and whatever it takes for printable:
  nothing in the rows can move a declaration off the beginning of a line.
-/
import PgErdCloud.Lib.Lines
import PgErdCloud.Spec.OrmParses

namespace PgErdCloud.Spec.Orm

open Lib Lib.PyStr Lib.PyLex

/-! ## Declarations -/

/-- How a line begins that declares the class or the model of a table. -/
def Target.headerStart (name : Str) : Target → Str
  | .sqlalchemy => "class ".toList ++ name ++ "(Base):".toList
  | .prisma => "model ".toList ++ name ++ " \x7b".toList
  | .typeorm => "export class ".toList ++ name ++ " \x7b".toList

/-- How a line begins that declares an attribute, a field or a property. -/
def Target.memberStart (name : Str) : Target → Str
  | .sqlalchemy => "    ".toList ++ name ++ ": Mapped[".toList
  | .prisma => "  ".toList ++ name ++ " ".toList
  | .typeorm => "  ".toList ++ name

/-- The beginnings of the lines of a class or model, with the names that it declares. -/
def Target.starts (target : Target) (declaration : Str × List Str) : List Str :=
  target.headerStart declaration.1 :: declaration.2.map target.memberStart

variable (unicode : Unicode) (isPrintable : Printable)

/-- The text of a file. -/
def Target.generate (s : Snapshot) : Target → Str
  | .sqlalchemy => generateSqlalchemyModels unicode isPrintable s
  | .prisma => generatePrismaSchema unicode s
  | .typeorm => generateTypeormEntities unicode s

/-! ## Names without breaks -/

variable {unicode isPrintable}

theorem break_not_mem_of_isName {name : Str} (h : IsName name) : '\n' ∉ name :=
  fun hmem => absurd (h.all '\n' hmem) (by decide)

theorem break_not_mem_headerStart {name : Str} (target : Target) (h : '\n' ∉ name) :
    '\n' ∉ target.headerStart name := by
  have hframe {before after : Str} (hbefore : '\n' ∉ before) (hafter : '\n' ∉ after) :
      '\n' ∉ before ++ name ++ after := by
    rw [List.mem_append, List.mem_append, not_or, not_or]
    exact ⟨⟨hbefore, h⟩, hafter⟩
  cases target with
  | sqlalchemy | prisma | typeorm => exact hframe (by decide) (by decide)

theorem break_not_mem_memberStart {name : Str} (target : Target) (h : '\n' ∉ name) :
    '\n' ∉ target.memberStart name := by
  have hindent {before : Str} (hbefore : '\n' ∉ before) : '\n' ∉ before ++ name :=
    fun hmem => (List.mem_append.mp hmem).elim hbefore h
  cases target with
  | sqlalchemy | prisma =>
      exact fun hmem => (List.mem_append.mp hmem).elim (hindent (by decide)) (by decide)
  | typeorm => exact hindent (by decide)

theorem break_not_mem_starts {target : Target} {declaration : Str × List Str}
    (hname : '\n' ∉ declaration.1) (hmembers : ∀ name ∈ declaration.2, '\n' ∉ name) :
    ∀ start ∈ target.starts declaration, '\n' ∉ start := by
  rw [Target.starts, List.forall_mem_cons, List.forall_mem_map]
  exact ⟨break_not_mem_headerStart target hname,
    fun name hname => break_not_mem_memberStart target (hmembers name hname)⟩

theorem break_not_mem_pluralName (tableName : Str) : '\n' ∉ pluralName (className tableName) := by
  obtain ⟨ch, rest, hname, hupper⟩ := exists_head_className tableName
  have hrest := break_not_mem_of_isName (isName_className tableName).1
  rw [hname] at hrest ⊢
  have hch : isAsciiAlnum ch = true := by
    simp [isAsciiAlnum, Char.isAlphanum, Char.isAlpha, hupper]
  have hlower : '\n' ≠ ch.toLower := by
    intro he
    have hlower := isLower_or_isDigit_toLower hch
    rw [← he] at hlower
    exact absurd hlower (by decide)
  simp only [pluralName, List.cons_append, List.mem_cons, List.mem_append, not_or] at hrest ⊢
  exact ⟨hlower, hrest.2, by decide⟩

theorem break_not_mem_dropId {name : Str} (h : '\n' ∉ name) : '\n' ∉ dropId name := by
  rw [dropId]
  split_ifs
  · exact fun hmem => h (List.mem_of_mem_dropLast (List.mem_of_mem_dropLast
      (List.mem_of_mem_dropLast hmem)))
  · exact h

/-! ## One table -/

/-- The beginnings of lines that `f` makes of the members. -/
theorem sublistForall₂_members {α : Type} {members : List α} {f g : α → Str}
    (h : ∀ member ∈ members, f member <+: g member) :
    List.SublistForall₂ (· <+: ·) (members.map f) (members.map g) := by
  induction members with
  | nil => exact .nil
  | cons member members ih =>
      exact .cons (h member List.mem_cons_self) (ih fun m hm => h m (List.mem_cons_of_mem _ hm))

theorem memberStart_prefix (attr : Attribute) :
    Target.sqlalchemy.memberStart attr.name <+: attr.line isPrintable := by
  unfold Target.memberStart Attribute.line
  exact (((((List.prefix_append _ attr.pyType).trans (List.prefix_append _ _)).trans
    (List.prefix_append _ _)).trans (List.prefix_append _ _)).trans
    (List.prefix_append _ _)).trans (List.prefix_append _ _)

theorem modelClass_lines (model : ModelClass) :
    List.SublistForall₂ (· <+: ·)
      (Target.sqlalchemy.starts (model.name, model.attributes.map Attribute.name))
      (model.lines isPrintable) := by
  have hattributes : List.SublistForall₂ (· <+: ·)
      ((model.attributes.map Attribute.name).map Target.sqlalchemy.memberStart)
      (if model.attributes = [] then ["    pass".toList]
        else model.attributes.map (Attribute.line isPrintable)) := by
    split_ifs with hnone
    · rw [hnone]
      exact .nil
    · rw [List.map_map]
      exact sublistForall₂_members fun attr _ => memberStart_prefix attr
  rw [Target.starts, ModelClass.lines]
  exact .cons_right (.cons_right (.cons (List.prefix_refl _)
    (sublistForall₂_of_sublist hattributes (List.sublist_append_right _ _))))

theorem prismaModel_lines (model : PrismaModel) {fields : List Field}
    (h : fields.Sublist model.fields) :
    List.SublistForall₂ (· <+: ·)
      (Target.prisma.starts (model.name, fields.map Field.name)) model.lines := by
  have hfields : List.SublistForall₂ (· <+: ·)
      ((fields.map Field.name).map Target.prisma.memberStart) (fields.map Field.line) := by
    rw [List.map_map]
    exact sublistForall₂_members fun field _ => List.prefix_append _ field.rest
  rw [Target.starts, PrismaModel.lines]
  exact .cons_right (.cons (List.prefix_refl _) (sublistForall₂_of_sublist hfields
    (((h.map _).trans (List.sublist_append_left _ _)).trans (List.sublist_append_left _ _))))

theorem filter_dropBlankEnd (lines : List Str) :
    (dropBlankEnd lines).filter (· ≠ []) = lines.filter (· ≠ []) := by
  induction lines using List.reverseRecOn with
  | nil => rfl
  | append_singleton lines line ih =>
      rw [dropBlankEnd]
      by_cases hline : line = []
      · rw [List.rdropWhile_concat_pos _ _ _ (by simpa using hline), List.filter_append,
          List.filter_cons_of_neg (by simpa using hline), List.filter_nil, List.append_nil]
        exact ih
      · rw [List.rdropWhile_concat_neg _ _ _ (by simpa using hline)]

/-- Only lines without a declaration are dropped. -/
theorem sublistForall₂_dropBlankEnd {starts lines : List Str} (hstarts : [] ∉ starts)
    (h : List.SublistForall₂ (· <+: ·) starts lines) :
    List.SublistForall₂ (· <+: ·) starts (dropBlankEnd lines) := by
  obtain ⟨selected, hall, hselected⟩ := List.sublistForall₂_iff.mp h
  have hne : ∀ line ∈ selected, line ≠ [] := by
    clear h hselected
    induction hall with
    | nil => simp
    | cons hstart _ ih =>
        rw [List.mem_cons, not_or] at hstarts
        rw [List.forall_mem_cons]
        refine ⟨fun hnil => ?_, ih hstarts.2⟩
        rw [hnil] at hstart
        exact hstarts.1 (List.prefix_nil.mp hstart).symm
  have hfilter : selected.filter (· ≠ []) = selected :=
    List.filter_eq_self.mpr fun line hline => decide_eq_true (hne line hline)
  refine List.sublistForall₂_iff.mpr ⟨selected, hall, ?_⟩
  rw [← hfilter]
  exact (hselected.filter _).trans (filter_dropBlankEnd lines ▸ List.filter_sublist)

theorem entity_lines (e : Entity) :
    List.SublistForall₂ (· <+: ·)
      (Target.typeorm.starts (e.name, e.columns.map Property.name)) e.lines := by
  have hcolumns : List.SublistForall₂ (· <+: ·)
      ((e.columns.map Property.name).map Target.typeorm.memberStart)
      (e.columns.flatMap Property.lines) := by
    rw [List.map_map, List.map_eq_flatMap]
    refine sublistForall₂_flatMap fun property _ => ?_
    refine sublistForall₂_of_sublist ?_ (List.sublist_append_right _ _)
    exact .cons (List.prefix_append _ property.rest) .nil
  have hbody : List.SublistForall₂ (· <+: ·)
      (Target.typeorm.starts (e.name, e.columns.map Property.name))
      ([[], "@Entity(".toList ++ e.args ++ ")".toList,
        "export class ".toList ++ e.name ++ " \x7b".toList] ++
        (e.columns ++ e.forward ++ e.reverse).flatMap Property.lines) := by
    refine .cons_right (.cons_right (.cons (List.prefix_refl _) ?_))
    rw [List.flatMap_append, List.flatMap_append]
    exact sublistForall₂_of_sublist hcolumns
      ((List.sublist_append_left _ _).trans (List.sublist_append_left _ _))
  have hstarts : [] ∉ Target.typeorm.starts (e.name, e.columns.map Property.name) := by
    rw [Target.starts, List.mem_cons, List.mem_map]
    rintro (hnil | ⟨name, -, hnil⟩)
    · exact List.cons_ne_nil _ _ hnil.symm
    · exact List.cons_ne_nil _ _ hnil
  rw [Entity.lines]
  exact sublistForall₂_of_sublist (sublistForall₂_dropBlankEnd hstarts hbody)
    (List.sublist_append_left _ _)

/-! ## Files -/

/-- What the tables put on the beginnings of lines is on the beginnings of lines of the file. -/
theorem linesBegin_file {α : Type} {header : List Str} {records : List α}
    {starts lines : α → List Str}
    (hbreak : ∀ record ∈ records, ∀ start ∈ starts record, '\n' ∉ start)
    (h : ∀ record ∈ records, List.SublistForall₂ (· <+: ·) (starts record) (lines record)) :
    LinesBegin (records.flatMap starts)
      (join "\n".toList (header ++ records.flatMap lines) ++ "\n".toList) := by
  have hparts := linesBegin_of_parts (List.forall_mem_flatMap.mpr hbreak)
    (sublistForall₂_of_sublist (sublistForall₂_flatMap h)
      (List.sublist_append_right header _))
  exact hparts.append []

variable (unicode isPrintable)

theorem break_not_mem_declared (target : Target) (s : Snapshot) :
    ∀ declaration ∈ target.declared unicode s,
      ∀ start ∈ target.starts declaration, '\n' ∉ start := by
  rw [Target.declared_eq, List.forall_mem_map]
  refine fun rel _ => break_not_mem_starts ?_ ?_
  · exact break_not_mem_of_isName (isName_className _).1
  · rw [List.forall_mem_map]
    exact fun col _ => break_not_mem_of_isName (isName_ident _).1

/-- **The declared names are in the text**: its lines declare the class of each table and then
    the names of its columns, in the order of the rows. -/
theorem declared_in_text (target : Target) (s : Snapshot) :
    LinesBegin ((target.declared unicode s).flatMap target.starts)
      (target.generate unicode isPrintable s) := by
  have hbreak := break_not_mem_declared unicode target s
  cases target with
  | sqlalchemy =>
      rw [Target.declared, List.forall_mem_map] at hbreak
      rw [Target.declared, List.flatMap_map]
      exact linesBegin_file hbreak fun model _ => modelClass_lines model
  | prisma =>
      rw [Target.declared, List.forall_mem_map] at hbreak
      rw [Target.declared, List.flatMap_map]
      exact linesBegin_file hbreak fun model _ => prismaModel_lines model
        ((List.sublist_append_left _ _).trans (List.sublist_append_left _ _))
  | typeorm =>
      rw [Target.declared, List.forall_mem_map] at hbreak
      rw [Target.declared, List.flatMap_map]
      exact linesBegin_file hbreak fun e _ => entity_lines e

/-- **The fields of a schema are in its text**, behind the line of their model. -/
theorem fields_in_text (s : Snapshot) :
    LinesBegin
      ((prismaModels unicode s).flatMap fun model =>
        Target.prisma.starts (model.name, model.fields.map Field.name))
      (generatePrismaSchema unicode s) := by
  refine linesBegin_file ?_ fun model _ => prismaModel_lines model (List.Sublist.refl _)
  rw [prismaModels, List.forall_mem_map]
  refine fun rel _ => break_not_mem_starts ?_ ?_
  · exact break_not_mem_of_isName (isName_className _).1
  · rw [map_name_fields, List.forall_mem_append, List.forall_mem_append, List.forall_mem_map,
      List.forall_mem_map, List.forall_mem_map]
    exact ⟨⟨fun col _ => break_not_mem_of_isName (isName_ident _).1,
      fun fk _ => break_not_mem_dropId (break_not_mem_of_isName (isName_ident _).1)⟩,
      fun child _ => break_not_mem_pluralName _⟩

end PgErdCloud.Spec.Orm
