/-
  A catalog of tables, and what the statements of a data definition language do to it. A
  statement that the database refuses has no step, so that a script runs to its end exactly when
  none of its statements fails.

  What a statement is refused for: a table or a column that is there already or is missing, a
  type that the database does not know, a change of type without a cast, a column that a key
  needs, a foreign key to columns that are not the primary key of the other table, columns that
  cannot be compared, and a table that others refer to. The tables are ordinary ones, without
  views, partitions or heirs that depend on them. Rows, comments, and constraints that are no
  keys are not part of the catalog. Nothing here belongs to one program.
-/
import Mathlib
import PgErdCloud.Lib.Loop

namespace PgErdCloud.Lib.Relational

/-! ## Catalogs

Namespaces `N`, tables `T`, columns and constraints by their names in `C`, types `Ty`. -/

variable {N T C Ty : Type}

/-- What the database knows of types: which there are, which one a column can be turned from into
    which other without being told how, and which two can be compared, as foreign keys do. -/
structure Types (Ty : Type) where
  known : Ty → Prop
  casts : Ty → Ty → Prop
  comparable : Ty → Ty → Prop

/-- A column of a table: the type of its values, and whether it takes no `NULL`. -/
structure ColumnDef (Ty : Type) where
  type : Ty
  notNull : Bool

/-- What a table consists of: its columns under their names, and those of its primary key. -/
@[ext] structure Layout (C Ty : Type) where
  column : C → Option (ColumnDef Ty)
  primaryKey : List C

/-- A foreign key of a table, under the name that it has there; its columns refer to those of the
    parent one by one. -/
structure ForeignKey (T C : Type) where
  child : T
  name : C
  childColumns : List C
  parent : T
  parentColumns : List C
  deriving DecidableEq

/-- A database without its rows: the schemas, the tables with their layouts, and the foreign keys
    between them. -/
@[ext] structure Catalog (N T C Ty : Type) where
  namespaces : Set N
  table : T → Option (Layout C Ty)
  foreignKeys : Set (ForeignKey T C)

/-- The foreign key needs the column of the table. -/
def ForeignKey.Uses (fk : ForeignKey T C) (t : T) (c : C) : Prop :=
  (fk.child = t ∧ c ∈ fk.childColumns) ∨ (fk.parent = t ∧ c ∈ fk.parentColumns)

/-- Whichever types they may have, the columns that the foreign key pairs can be compared. -/
def ForeignKey.Compares (fk : ForeignKey T C) (types : Types Ty) (HasType : T → C → Ty → Prop) :
    Prop :=
  ∀ pair ∈ fk.childColumns.zip fk.parentColumns, ∀ type type',
    HasType fk.child pair.1 type → HasType fk.parent pair.2 type' → types.comparable type type'

theorem ForeignKey.Compares.mono {fk : ForeignKey T C} {types : Types Ty}
    {HasType HasType' : T → C → Ty → Prop} (h : fk.Compares types HasType)
    (hsub : ∀ t c type, HasType' t c type → HasType t c type) : fk.Compares types HasType' :=
  fun pair hpair type type' htype htype' =>
    h pair hpair type type' (hsub _ _ _ htype) (hsub _ _ _ htype')

namespace Catalog

variable (cat : Catalog N T C Ty)

/-- A column that a foreign key of the catalog needs, on either of its sides. -/
def Uses (t : T) (c : C) : Prop := ∃ fk ∈ cat.foreignKeys, fk.Uses t c

/-- The table is there, and has all of these columns. -/
def HasColumns (t : T) (columns : List C) : Prop :=
  ∃ d, cat.table t = some d ∧ ∀ c ∈ columns, d.column c ≠ none

/-- The foreign key pairs existing columns. -/
structure Fits (fk : ForeignKey T C) : Prop where
  child : cat.HasColumns fk.child fk.childColumns
  parent : cat.HasColumns fk.parent fk.parentColumns
  length : fk.childColumns.length = fk.parentColumns.length
  ne_nil : fk.childColumns ≠ []

/-- The column is there and has the type. -/
def HasType (t : T) (c : C) (type : Ty) : Prop :=
  ∃ d col, cat.table t = some d ∧ d.column c = some col ∧ col.type = type

/-- The columns that the foreign key pairs can be compared. -/
def Compares (types : Types Ty) (fk : ForeignKey T C) : Prop := fk.Compares types cat.HasType

/-- The foreign key refers to the primary key of the other table, in any order. -/
def RefersToKey (fk : ForeignKey T C) : Prop :=
  ∃ d, cat.table fk.parent = some d ∧ fk.parentColumns.Perm d.primaryKey

/-- The columns of primary keys are there and not null, foreign keys fit, and a table has no
    two of one name. -/
structure WellFormed : Prop where
  nodup : ∀ t d, cat.table t = some d → d.primaryKey.Nodup
  primaryKey : ∀ t d, cat.table t = some d → ∀ c ∈ d.primaryKey,
    ∃ type, d.column c = some ⟨type, true⟩
  fits : ∀ fk ∈ cat.foreignKeys, cat.Fits fk
  named : ∀ fk ∈ cat.foreignKeys, ∀ fk' ∈ cat.foreignKeys, fk.child = fk'.child →
    fk.name = fk'.name → fk = fk'

variable {cat} {fk : ForeignKey T C}

theorem WellFormed.table_child (h : cat.WellFormed) (hfk : fk ∈ cat.foreignKeys) :
    cat.table fk.child ≠ none := by
  obtain ⟨d, hd, -⟩ := (h.fits fk hfk).child
  simp [hd]

theorem WellFormed.table_parent (h : cat.WellFormed) (hfk : fk ∈ cat.foreignKeys) :
    cat.table fk.parent ≠ none := by
  obtain ⟨d, hd, -⟩ := (h.fits fk hfk).parent
  simp [hd]

end Catalog

/-! ## Entries by name -/

variable [DecidableEq T] [DecidableEq C]

section
variable {α β : Type}

/-- The first entry of a name. -/
def entryAt (entries : List (C × α)) (c : C) : Option α := entries.lookup c

theorem entryAt_cons (c' : C) (v : α) (entries : List (C × α)) (c : C) :
    entryAt ((c', v) :: entries) c = if c = c' then some v else entryAt entries c := by
  unfold entryAt
  by_cases h : c = c'
  · simp [h]
  · have hbeq : (c == c') = false := beq_false_of_ne h
    simp [List.lookup_cons, hbeq, h]

theorem entryAt_eq_none {entries : List (C × α)} {c : C} (h : c ∉ entries.map Prod.fst) :
    entryAt entries c = none := by
  refine List.lookup_eq_none_iff.mpr fun e he => ?_
  have hmem : e.1 ∈ entries.map Prod.fst := List.mem_map_of_mem he
  have hne : c ≠ e.1 := fun heq => h (heq ▸ hmem)
  simpa using hne

theorem entryAt_map (entries : List (C × α)) (f : α → β) (c : C) :
    entryAt (entries.map fun e => (e.1, f e.2)) c = (entryAt entries c).map f := by
  induction entries with
  | nil => rfl
  | cons e entries ih =>
      rw [List.map_cons, entryAt_cons, ih, ← Prod.eta e, entryAt_cons]
      split_ifs with h
      · rfl
      · rfl

theorem entryAt_filter (entries : List (C × α)) (p : C → Prop) [DecidablePred p] (c : C) :
    entryAt (entries.filter fun e => p e.1) c = if p c then entryAt entries c else none := by
  induction entries with
  | nil => simp [entryAt]
  | cons e entries ih =>
      obtain ⟨a, v⟩ := e
      by_cases hp : p a
      · rw [List.filter_cons_of_pos (by simpa using hp), entryAt_cons, entryAt_cons, ih]
        by_cases h : c = a
        · simp [h, hp]
        · simp [h]
      · rw [List.filter_cons_of_neg (by simpa using hp), entryAt_cons, ih]
        by_cases h : c = a
        · simp [h, hp]
        · simp [h]

/-- What a loop over the entries picks of each. -/
def pick (f : C → α → Option β) (entries : List (C × α)) : List (C × β) :=
  entries.filterMap fun e => (f e.1 e.2).map fun v => (e.1, v)

omit [DecidableEq C] in
theorem pick_sublist (f : C → α → Option β) (entries : List (C × α)) :
    ((pick f entries).map Prod.fst).Sublist (entries.map Prod.fst) := by
  induction entries with
  | nil => exact List.Sublist.refl []
  | cons e entries ih =>
      rw [List.map_cons]
      cases hf : f e.1 e.2 with
      | none => simpa [pick, hf] using ih.trans (List.sublist_cons_self _ _)
      | some w => simpa [pick, hf] using ih.cons_cons e.1

theorem entryAt_pick {entries : List (C × α)} (hnodup : (entries.map Prod.fst).Nodup)
    (f : C → α → Option β) (c : C) :
    entryAt (pick f entries) c = (entryAt entries c).bind (f c) := by
  induction entries with
  | nil => rfl
  | cons e entries ih =>
      obtain ⟨a, v⟩ := e
      rw [List.map_cons, List.nodup_cons] at hnodup
      rw [entryAt_cons]
      cases hf : f a v with
      | none =>
          have hpick : pick f ((a, v) :: entries) = pick f entries := by simp [pick, hf]
          rw [hpick, ih hnodup.2]
          by_cases h : c = a
          · rw [if_pos h, h, entryAt_eq_none hnodup.1, Option.bind_some, hf, Option.bind_none]
          · rw [if_neg h]
      | some w =>
          have hpick : pick f ((a, v) :: entries) = (a, w) :: pick f entries := by
            simp [pick, hf]
          rw [hpick, entryAt_cons, ih hnodup.2]
          by_cases h : c = a
          · rw [if_pos h, if_pos h, h, Option.bind_some, hf]
          · rw [if_neg h, if_neg h]

end

/-! ## Changes of one table -/

/-- What `ALTER TABLE` does to a table. -/
inductive Alter (C Ty : Type)
  | addColumn (c : C) (def' : ColumnDef Ty)
  | dropColumn (c : C)
  | setType (c : C) (type : Ty)
  | setNotNull (c : C)
  | dropNotNull (c : C)

variable (types : Types Ty)

namespace Alter

/-- Not refused for the table `d`, where `used` are the columns that foreign keys need. -/
def Allowed (used : C → Prop) (d : Layout C Ty) : Alter C Ty → Prop
  | .addColumn c def' => d.column c = none ∧ types.known def'.type
  | .dropColumn c => d.column c ≠ none ∧ c ∉ d.primaryKey ∧ ¬ used c
  | .setType c type => types.known type ∧ ∃ col, d.column c = some col ∧ types.casts col.type type
  | .setNotNull c => d.column c ≠ none
  | .dropNotNull c => d.column c ≠ none ∧ c ∉ d.primaryKey

/-- What an accepted `ALTER TABLE` makes of the layout. -/
def apply (d : Layout C Ty) : Alter C Ty → Layout C Ty
  | .addColumn c def' => { d with column := Function.update d.column c (some def') }
  | .dropColumn c => { d with column := Function.update d.column c none }
  | .setType c type => { d with
      column := Function.update d.column c ((d.column c).map fun col => { col with type }) }
  | .setNotNull c => { d with
      column := Function.update d.column c ((d.column c).map fun col =>
        { col with notNull := true }) }
  | .dropNotNull c => { d with
      column := Function.update d.column c ((d.column c).map fun col =>
        { col with notNull := false }) }

open scoped Classical in
/-- An `ALTER TABLE`, which the database refuses where it is not allowed. -/
noncomputable def step (used : C → Prop) (d : Layout C Ty) (a : Alter C Ty) :
    Option (Layout C Ty) :=
  if a.Allowed types used d then some (a.apply d) else none

variable {types}

theorem step_of_allowed {used : C → Prop} {d : Layout C Ty} {a : Alter C Ty}
    (h : a.Allowed types used d) : step types used d a = some (a.apply d) :=
  if_pos h

end Alter

/-! ## Types of one table -/

/-- Every column has one of the types allowed for it. -/
def Layout.TypesIn (d : Layout C Ty) (allowed : C → Ty → Prop) : Prop :=
  ∀ c col, d.column c = some col → allowed c col.type

/-- A column that the change gives a type to gets an allowed one. -/
def Alter.TypesIn (allowed : C → Ty → Prop) : Alter C Ty → Prop
  | .addColumn c def' => allowed c def'.type
  | .setType c type => allowed c type
  | .dropColumn _ | .setNotNull _ | .dropNotNull _ => True

theorem Layout.TypesIn.update {d : Layout C Ty} {allowed : C → Ty → Prop} (h : d.TypesIn allowed)
    {c : C} {col : Option (ColumnDef Ty)} (hcol : ∀ new ∈ col, allowed c new.type) :
    Layout.TypesIn { d with column := Function.update d.column c col } allowed := by
  intro c' new hnew
  dsimp only at hnew
  by_cases hc : c' = c
  · subst hc
    rw [Function.update_self] at hnew
    exact hcol new hnew
  · rw [Function.update_of_ne hc] at hnew
    exact h c' new hnew

/-- The types stay within what is allowed. -/
theorem Alter.TypesIn.apply {a : Alter C Ty} {d : Layout C Ty} {allowed : C → Ty → Prop}
    (ha : a.TypesIn allowed) (h : d.TypesIn allowed) : (a.apply d).TypesIn allowed := by
  have hkeep (c : C) (b : Bool) : ∀ new ∈ (d.column c).map fun col => { col with notNull := b },
      allowed c new.type := by
    intro new hnew
    obtain ⟨col, hcol, rfl⟩ := Option.map_eq_some_iff.mp hnew
    exact h c col hcol
  cases a with
  | addColumn c def' =>
      refine h.update fun new hnew => ?_
      obtain rfl := Option.some.inj hnew
      exact ha
  | dropColumn c => exact h.update nofun
  | setType c type =>
      refine h.update fun new hnew => ?_
      obtain ⟨col, -, rfl⟩ := Option.map_eq_some_iff.mp hnew
      exact ha
  | setNotNull c => exact h.update (hkeep c true)
  | dropNotNull c => exact h.update (hkeep c false)

/-! ## Statements -/

/-- The statements, each for one table or one foreign key. -/
inductive Stmt (N T C Ty : Type)
  /-- `CREATE SCHEMA IF NOT EXISTS` -/
  | createNamespace (n : N)
  | createTable (n : N) (t : T) (columns : List (C × ColumnDef Ty)) (primaryKey : List C)
  /-- `DROP TABLE IF EXISTS`, which foreign keys of other tables prevent -/
  | dropTable (t : T)
  | alter (t : T) (a : Alter C Ty)
  | addForeignKey (fk : ForeignKey T C)
  | dropConstraint (t : T) (name : C)
  | comment (t : T)

/-- A new table. The columns of its primary key are not null. -/
def newTable (columns : List (C × ColumnDef Ty)) (primaryKey : List C) : Layout C Ty where
  column c := (entryAt columns c).map fun col =>
    { col with notNull := col.notNull || c ∈ primaryKey }
  primaryKey := primaryKey

namespace Catalog

variable (cat : Catalog N T C Ty)

/-- What an accepted statement makes of the catalog. -/
def apply : Stmt N T C Ty → Catalog N T C Ty
  | .createNamespace n => { cat with namespaces := insert n cat.namespaces }
  | .createTable _ t columns primaryKey =>
      { cat with table := Function.update cat.table t (some (newTable columns primaryKey)) }
  | .dropTable t => { cat with
      table := Function.update cat.table t none
      foreignKeys := {fk ∈ cat.foreignKeys | fk.child ≠ t} }
  | .alter t a => { cat with
      table := Function.update cat.table t ((cat.table t).map a.apply) }
  | .addForeignKey fk => { cat with foreignKeys := insert fk cat.foreignKeys }
  | .dropConstraint t name => { cat with
      foreignKeys := {fk ∈ cat.foreignKeys | ¬ (fk.child = t ∧ fk.name = name)} }
  | .comment _ => cat

/-- Not refused. A column of a foreign key may only get a type that goes with the column that it
    is paired with. -/
def Allowed : Stmt N T C Ty → Prop
  | .createNamespace _ => True
  | .createTable n t columns primaryKey =>
      cat.table t = none ∧ n ∈ cat.namespaces ∧ (columns.map Prod.fst).Nodup ∧
        (∀ e ∈ columns, types.known e.2.type) ∧
        primaryKey.Nodup ∧ primaryKey ⊆ columns.map Prod.fst
  | .dropTable t => ∀ fk ∈ cat.foreignKeys, fk.parent = t → fk.child = t
  | .alter t a => (∃ d, cat.table t = some d ∧ a.Allowed types (cat.Uses t) d) ∧
      ∀ fk ∈ cat.foreignKeys, (cat.apply (.alter t a)).Compares types fk
  | .addForeignKey fk => cat.Fits fk ∧ cat.RefersToKey fk ∧ cat.Compares types fk ∧
      ∀ fk' ∈ cat.foreignKeys, fk'.child = fk.child → fk'.name ≠ fk.name
  | .dropConstraint t name => ∃ fk ∈ cat.foreignKeys, fk.child = t ∧ fk.name = name
  | .comment t => cat.table t ≠ none

open scoped Classical in
/-- A statement, which the database refuses where it is not allowed. -/
noncomputable def step (cat : Catalog N T C Ty) (stmt : Stmt N T C Ty) :
    Option (Catalog N T C Ty) :=
  if cat.Allowed types stmt then some (cat.apply stmt) else none

variable {types}

theorem step_of_allowed {cat : Catalog N T C Ty} {stmt : Stmt N T C Ty}
    (h : cat.Allowed types stmt) : cat.step types stmt = some (cat.apply stmt) :=
  if_pos h

end Catalog

variable {types}

/-! ## Loops over columns -/

section
variable {used : C → Prop} {d : Layout C Ty}

theorem Alter.run_cons_allowed {a : Alter C Ty} {actions : List (Alter C Ty)}
    (h : a.Allowed types used d) :
    run (Alter.step types used) d (a :: actions) =
      run (Alter.step types used) (a.apply d) actions := by
  rw [run, Alter.step_of_allowed h, Option.bind_some]

/-- Columns that are not there are added. -/
theorem run_addColumn {columns : List (C × ColumnDef Ty)} (hnodup : (columns.map Prod.fst).Nodup)
    (hnew : ∀ e ∈ columns, d.column e.1 = none) (hknown : ∀ e ∈ columns, types.known e.2.type) :
    run (Alter.step types used) d (columns.map fun e => .addColumn e.1 e.2) =
      some { d with column := fun c => (entryAt columns c).or (d.column c) } := by
  induction columns generalizing d with
  | nil => rfl
  | cons e columns ih =>
      obtain ⟨c, col⟩ := e
      rw [List.map_cons, List.nodup_cons] at hnodup
      have hrest : ∀ e ∈ columns, e.1 ≠ c := by
        intro e he heq
        have hmem : e.1 ∈ columns.map Prod.fst := List.mem_map_of_mem he
        exact hnodup.1 (heq ▸ hmem)
      have hc : (Alter.addColumn c col).Allowed types used d :=
        ⟨hnew (c, col) List.mem_cons_self, hknown (c, col) List.mem_cons_self⟩
      rw [List.map_cons, Alter.run_cons_allowed hc, ih hnodup.2]
      · congr 2
        funext c'
        by_cases h : c' = c
        · rw [h, entryAt_eq_none hnodup.1, entryAt_cons, if_pos rfl]
          simp [Alter.apply]
        · simp [Alter.apply, entryAt_cons, h]
      · intro e he
        show Function.update d.column c (some col) e.1 = none
        rw [Function.update_of_ne (hrest e he)]
        exact hnew e (List.mem_cons_of_mem _ he)
      · exact fun e he => hknown e (List.mem_cons_of_mem _ he)

/-- Columns that nothing needs are dropped. -/
theorem run_dropColumn {columns : List C} (hnodup : columns.Nodup)
    (hold : ∀ c ∈ columns, d.column c ≠ none ∧ c ∉ d.primaryKey ∧ ¬ used c) :
    run (Alter.step types used) d (columns.map .dropColumn) =
      some { d with column := fun c => if c ∈ columns then none else d.column c } := by
  induction columns generalizing d with
  | nil => simp
  | cons c columns ih =>
      rw [List.nodup_cons] at hnodup
      have hc : (Alter.dropColumn c).Allowed types used d := hold c List.mem_cons_self
      rw [List.map_cons, Alter.run_cons_allowed hc, ih hnodup.2]
      · congr 2
        funext c'
        by_cases h : c' = c
        · simp [Alter.apply, h]
        · simp [Alter.apply, h]
      · intro c' hc'
        have hne : c' ≠ c := by
          rintro rfl
          exact hnodup.1 hc'
        simpa [Alter.apply, Function.update_of_ne hne] using hold c' (List.mem_cons_of_mem _ hc')

/-- What turns a column into another one of its name. -/
def Alter.change [DecidableEq Ty] (c : C) (old new : ColumnDef Ty) : List (Alter C Ty) :=
  (if old.type ≠ new.type then [.setType c new.type] else []) ++
    if old.notNull ≠ new.notNull then [if new.notNull then .setNotNull c else .dropNotNull c]
    else []

theorem run_change [DecidableEq Ty] {c : C} {old new : ColumnDef Ty}
    (hc : d.column c = some old) (hpk : new.notNull = false → c ∉ d.primaryKey)
    (htypes : old.type ≠ new.type → types.known new.type ∧ types.casts old.type new.type) :
    run (Alter.step types used) d (Alter.change c old new) =
      some { d with column := Function.update d.column c (some new) } := by
  obtain ⟨oldType, oldNotNull⟩ := old
  obtain ⟨newType, newNotNull⟩ := new
  -- after the type is set, if it has to be
  have htype : run (Alter.step types used) d
      (if oldType ≠ newType then [.setType c newType] else []) =
        some { d with column := Function.update d.column c (some ⟨newType, oldNotNull⟩) } := by
    split_ifs with h
    · have hallowed : (Alter.setType c newType).Allowed types used d :=
        ⟨(htypes h).1, _, hc, (htypes h).2⟩
      rw [Alter.run_cons_allowed hallowed, run_nil, Alter.apply, hc]
      rfl
    · obtain rfl := not_not.mp h
      rw [run_nil, ← hc, Function.update_eq_self]
  refine run_append.mpr ⟨_, htype, ?_⟩
  dsimp only
  cases oldNotNull <;> cases newNotNull
  · simp
  · simp [run, Alter.step, Alter.Allowed, Alter.apply]
  · have hnot := hpk rfl
    simp [run, Alter.step, Alter.Allowed, Alter.apply, hnot]
  · simp

/-- Columns that are there are changed, one after the other. -/
theorem run_changes [DecidableEq Ty] {changes : List (C × ColumnDef Ty × ColumnDef Ty)}
    (hnodup : (changes.map Prod.fst).Nodup)
    (hold : ∀ e ∈ changes, d.column e.1 = some e.2.1)
    (hpk : ∀ e ∈ changes, e.2.2.notNull = false → e.1 ∉ d.primaryKey)
    (htypes : ∀ e ∈ changes, e.2.1.type ≠ e.2.2.type →
      types.known e.2.2.type ∧ types.casts e.2.1.type e.2.2.type) :
    run (Alter.step types used) d (changes.flatMap fun e => Alter.change e.1 e.2.1 e.2.2) =
      some { d with column := fun c => ((entryAt changes c).map Prod.snd).or (d.column c) } := by
  induction changes generalizing d with
  | nil => rfl
  | cons e changes ih =>
      obtain ⟨c, old, new⟩ := e
      rw [List.map_cons, List.nodup_cons] at hnodup
      have hrest : ∀ e ∈ changes, e.1 ≠ c := by
        intro e he heq
        have hmem : e.1 ∈ changes.map Prod.fst := List.mem_map_of_mem he
        exact hnodup.1 (heq ▸ hmem)
      have hfirst : run (Alter.step types used) d (Alter.change c old new) =
          some { d with column := Function.update d.column c (some new) } :=
        run_change (hold _ List.mem_cons_self) (hpk _ List.mem_cons_self)
          (htypes _ List.mem_cons_self)
      rw [List.flatMap_cons]
      refine run_append.mpr ⟨_, hfirst, ?_⟩
      rw [ih hnodup.2]
      · congr 2
        funext c'
        by_cases h : c' = c
        · rw [h, entryAt_eq_none hnodup.1, entryAt_cons, if_pos rfl]
          simp
        · simp [entryAt_cons, h]
      · intro e he
        show Function.update d.column c (some new) e.1 = _
        rw [Function.update_of_ne (hrest e he)]
        exact hold e (List.mem_cons_of_mem _ he)
      · exact fun e he => hpk e (List.mem_cons_of_mem _ he)
      · exact fun e he => htypes e (List.mem_cons_of_mem _ he)

end

/-! ## Loops over tables and constraints -/

section
variable {cat : Catalog N T C Ty}

theorem Catalog.run_cons_allowed {stmt : Stmt N T C Ty} {stmts : List (Stmt N T C Ty)}
    (h : cat.Allowed types stmt) :
    run (Catalog.step types) cat (stmt :: stmts) =
      run (Catalog.step types) (cat.apply stmt) stmts := by
  rw [run, Catalog.step_of_allowed h, Option.bind_some]

/-- The changes of one table are those of the catalog, where the columns of foreign keys can be
    compared whichever allowed types they have. -/
theorem run_alter {t : T} {d d' : Layout C Ty} {actions : List (Alter C Ty)}
    {allowed : C → Ty → Prop} (ht : cat.table t = some d)
    (h : run (Alter.step types (cat.Uses t)) d actions = some d') (hfrom : d.TypesIn allowed)
    (hactions : ∀ a ∈ actions, a.TypesIn allowed)
    (hcompares : ∀ u : Layout C Ty, u.TypesIn allowed → ∀ fk ∈ cat.foreignKeys,
      Catalog.Compares { cat with table := Function.update cat.table t (some u) } types fk) :
    run (Catalog.step types) cat (actions.map (.alter t)) =
      some { cat with table := Function.update cat.table t (some d') } := by
  induction actions generalizing cat d with
  | nil =>
      rw [run_nil, Option.some.injEq] at h
      rw [List.map_nil, run_nil, ← h, ← ht, Function.update_eq_self]
  | cons a actions ih =>
      rw [List.forall_mem_cons] at hactions
      have hto : (a.apply d).TypesIn allowed := hactions.1.apply hfrom
      obtain ⟨u, hu, hr⟩ := run_cons.mp h
      by_cases ha : a.Allowed types (cat.Uses t) d
      · rw [Alter.step_of_allowed ha, Option.some.injEq] at hu
        subst hu
        have hallowed : cat.Allowed types (.alter t a) := by
          refine ⟨⟨d, ht, ha⟩, ?_⟩
          rw [Catalog.apply, ht]
          exact hcompares _ hto
        rw [List.map_cons, Catalog.run_cons_allowed hallowed]
        have htable : (cat.apply (.alter t a)).table t = some (a.apply d) := by
          simp [Catalog.apply, ht]
        rw [ih htable hr hto hactions.2]
        · simp [Catalog.apply]
        · intro u hu fk hfk
          have hsame := hcompares u hu fk hfk
          simpa [Catalog.apply] using hsame
      · rw [Alter.step, if_neg ha] at hu
        exact absurd hu (by simp)

theorem run_dropConstraint {fks : List (ForeignKey T C)} (hnodup : fks.Nodup)
    (hmem : ∀ fk ∈ fks, fk ∈ cat.foreignKeys)
    (hnamed : ∀ fk ∈ cat.foreignKeys, ∀ fk' ∈ cat.foreignKeys, fk.child = fk'.child →
      fk.name = fk'.name → fk = fk') :
    run (Catalog.step types) cat (fks.map fun fk => .dropConstraint fk.child fk.name) =
      some { cat with foreignKeys := {fk ∈ cat.foreignKeys | fk ∉ fks} } := by
  induction fks generalizing cat with
  | nil => simp
  | cons k fks ih =>
      rw [List.nodup_cons] at hnodup
      have hk : k ∈ cat.foreignKeys := hmem k List.mem_cons_self
      have hallowed : cat.Allowed types (.dropConstraint k.child k.name) := ⟨k, hk, rfl, rfl⟩
      have hdrop : {fk ∈ cat.foreignKeys | ¬ (fk.child = k.child ∧ fk.name = k.name)} =
          {fk ∈ cat.foreignKeys | fk ≠ k} := by
        ext fk
        refine and_congr_right fun hfk => not_congr ⟨fun h => hnamed fk hfk k hk h.1 h.2, ?_⟩
        rintro rfl
        exact ⟨rfl, rfl⟩
      rw [List.map_cons, Catalog.run_cons_allowed hallowed, Catalog.apply, hdrop, ih hnodup.2]
      · congr 2
        ext fk
        simp [and_assoc]
      · intro fk hfk
        refine ⟨hmem fk (List.mem_cons_of_mem _ hfk), ?_⟩
        rintro rfl
        exact hnodup.1 hfk
      · exact fun fk hfk fk' hfk' => hnamed fk hfk.1 fk' hfk'.1

theorem run_dropTable {tables : List T}
    (hfree : ∀ t ∈ tables, ∀ fk ∈ cat.foreignKeys, fk.parent = t → fk.child = t) :
    run (Catalog.step types) cat (tables.map .dropTable) =
      some { cat with
        table := fun t => if t ∈ tables then none else cat.table t
        foreignKeys := {fk ∈ cat.foreignKeys | fk.child ∉ tables} } := by
  induction tables generalizing cat with
  | nil => simp
  | cons t tables ih =>
      have hallowed : cat.Allowed types (.dropTable t) := hfree t List.mem_cons_self
      rw [List.map_cons, Catalog.run_cons_allowed hallowed, Catalog.apply, ih]
      · congr 2
        · funext t'
          by_cases h : t' = t
          · simp [h]
          · simp [h]
        · ext fk
          simp [and_assoc]
      · exact fun t' ht' fk hfk => hfree t' (List.mem_cons_of_mem _ ht') fk hfk.1

theorem run_createNamespace (namespaces : List N) :
    run (Catalog.step types) cat (namespaces.map .createNamespace) =
      some { cat with namespaces := cat.namespaces ∪ {n | n ∈ namespaces} } := by
  induction namespaces generalizing cat with
  | nil => simp
  | cons n namespaces ih =>
      have hallowed : cat.Allowed types (.createNamespace n) := trivial
      rw [List.map_cons, Catalog.run_cons_allowed hallowed, Catalog.apply, ih]
      congr 2
      ext m
      simp only [Set.mem_union, Set.mem_insert_iff, Set.mem_ofPred_eq, List.mem_cons]
      tauto

/-- A table to create. -/
structure TableSpec (N T C Ty : Type) where
  schema : N
  table : T
  columns : List (C × ColumnDef Ty)
  primaryKey : List C

/-- The `CREATE TABLE` of a table. -/
def TableSpec.stmt (spec : TableSpec N T C Ty) : Stmt N T C Ty :=
  .createTable spec.schema spec.table spec.columns spec.primaryKey

theorem run_createTable {specs : List (TableSpec N T C Ty)}
    (hnodup : (specs.map TableSpec.table).Nodup)
    (hallowed : ∀ spec ∈ specs, cat.Allowed types spec.stmt) :
    run (Catalog.step types) cat (specs.map TableSpec.stmt) =
      some { cat with
        table := fun t =>
          ((specs.find? (·.table = t)).map fun spec =>
            newTable spec.columns spec.primaryKey).or (cat.table t) } := by
  induction specs generalizing cat with
  | nil => rfl
  | cons spec specs ih =>
      rw [List.map_cons, List.nodup_cons] at hnodup
      have hrest : ∀ other ∈ specs, other.table ≠ spec.table := by
        intro other hm he
        exact hnodup.1 (he ▸ List.mem_map_of_mem hm)
      rw [List.map_cons, Catalog.run_cons_allowed (hallowed spec List.mem_cons_self), ih hnodup.2]
      · congr 2
        funext t
        by_cases h : spec.table = t
        · have hfind : specs.find? (·.table = t) = none :=
            List.find?_eq_none.mpr fun other hm => by simpa [← h] using hrest other hm
          subst h
          simp [TableSpec.stmt, Catalog.apply, hfind]
        · have h' : t ≠ spec.table := fun he => h he.symm
          simp [TableSpec.stmt, Catalog.apply, h, Function.update_of_ne h']
      · intro other hm
        obtain ⟨hnone, hrequires⟩ := hallowed other (List.mem_cons_of_mem _ hm)
        exact ⟨by simpa [TableSpec.stmt, Catalog.apply, hrest other hm] using hnone, hrequires⟩

omit [DecidableEq T] [DecidableEq C] in
theorem Catalog.Fits.congr {cat' : Catalog N T C Ty} {fk : ForeignKey T C} (h : cat.Fits fk)
    (htable : cat'.table = cat.table) : cat'.Fits fk where
  child := by simpa only [Catalog.HasColumns, htable] using h.child
  parent := by simpa only [Catalog.HasColumns, htable] using h.parent
  length := h.length
  ne_nil := h.ne_nil

omit [DecidableEq T] [DecidableEq C] in
/-- Only the tables count for a foreign key that is new. -/
theorem Catalog.Compares.congr {cat' : Catalog N T C Ty} {fk : ForeignKey T C}
    (h : cat.Compares types fk) (htable : cat'.table = cat.table) : cat'.Compares types fk :=
  ForeignKey.Compares.mono h fun t c type => by simp only [Catalog.HasType, htable, imp_self]

omit [DecidableEq T] [DecidableEq C] in
theorem Catalog.RefersToKey.congr {cat' : Catalog N T C Ty} {fk : ForeignKey T C}
    (h : cat.RefersToKey fk) (htable : cat'.table = cat.table) : cat'.RefersToKey fk := by
  simpa only [Catalog.RefersToKey, htable] using h

theorem run_addForeignKey {fks : List (ForeignKey T C)} (hnodup : fks.Nodup)
    (hfits : ∀ fk ∈ fks, cat.Fits fk) (hkeys : ∀ fk ∈ fks, cat.RefersToKey fk)
    (hcompares : ∀ fk ∈ fks, cat.Compares types fk)
    (hnamed : ∀ fk ∈ fks, ∀ fk', (fk' ∈ fks ∨ fk' ∈ cat.foreignKeys) → fk'.child = fk.child →
      fk'.name = fk.name → fk' = fk)
    (hnew : ∀ fk ∈ fks, fk ∉ cat.foreignKeys) :
    run (Catalog.step types) cat (fks.map .addForeignKey) =
      some { cat with foreignKeys := cat.foreignKeys ∪ {fk | fk ∈ fks} } := by
  induction fks generalizing cat with
  | nil => simp
  | cons k fks ih =>
      rw [List.nodup_cons] at hnodup
      have hallowed : cat.Allowed types (.addForeignKey k) := by
        refine ⟨hfits k List.mem_cons_self, hkeys k List.mem_cons_self,
          hcompares k List.mem_cons_self, fun fk' hfk' hchild hname => ?_⟩
        have he := hnamed k List.mem_cons_self fk' (.inr hfk') hchild hname
        exact hnew k List.mem_cons_self (he ▸ hfk')
      rw [List.map_cons, Catalog.run_cons_allowed hallowed, Catalog.apply, ih hnodup.2]
      · congr 2
        ext fk
        simp only [Set.mem_union, Set.mem_insert_iff, Set.mem_ofPred_eq, List.mem_cons]
        tauto
      · exact fun fk hfk => (hfits fk (List.mem_cons_of_mem _ hfk)).congr rfl
      · exact fun fk hfk => (hkeys fk (List.mem_cons_of_mem _ hfk)).congr rfl
      · exact fun fk hfk => (hcompares fk (List.mem_cons_of_mem _ hfk)).congr rfl
      · intro fk hfk fk' hfk'
        refine hnamed fk (List.mem_cons_of_mem _ hfk) fk' ?_
        rcases hfk' with h | rfl | h
        · exact .inl (List.mem_cons_of_mem _ h)
        · exact .inl List.mem_cons_self
        · exact .inr h
      · rintro fk hfk (rfl | h)
        · exact hnodup.1 hfk
        · exact hnew fk (List.mem_cons_of_mem _ hfk) h

end

end PgErdCloud.Lib.Relational
