/-
  What a DBML text says, without the numbers that the parser gives to tables: the parser's run
  is a run of its modes, which yields events, and the snapshot's content is that of the events.
-/
import PgErdCloud.Dbml.Parse

namespace PgErdCloud.Dbml

open Lib Lib.PyStr

variable (chars : Chars)

/-! ## Content -/

/-- A column as the document declares it, without the numbers that the parser gives out. -/
structure ColumnInfo where
  table : TableKey
  name : Str
  dataType : Str
  isNotNull : Bool
  hasDefault : Bool
  deriving DecidableEq

/-- A foreign key between named tables. -/
structure ForeignKey where
  child : TableKey
  childColumns : List Str
  parent : TableKey
  parentColumns : List Str
  deriving DecidableEq

/-- The tables, and the columns and foreign keys by the names of their tables. -/
structure Content where
  tables : List TableKey
  columns : List ColumnInfo
  pkColumns : List (TableKey × Str)
  foreignKeys : List ForeignKey
  deriving DecidableEq

/-- The name under which the parser looks a table up. -/
def Relation.key (r : Relation) : TableKey := (r.schemaName, r.relationName)

namespace Snapshot

/-- The table with an object id. -/
def keyOf (snap : Snapshot) (oid : Nat) : TableKey :=
  ((snap.relations.find? fun r => r.relationOid = oid).map Relation.key).getD ([], [])

/-- What a snapshot says, without the numbers that the parser gave out. -/
def content (snap : Snapshot) : Content where
  tables := snap.relations.map Relation.key
  columns := snap.columns.map fun c =>
    ⟨snap.keyOf c.relationOid, c.columnName, c.dataType, c.isNotNull, c.hasDefault⟩
  pkColumns := snap.pkColumns.map fun pk => (snap.keyOf pk.relationOid, pk.columnName)
  foreignKeys := snap.fkEdges.map fun e =>
    ⟨snap.keyOf e.childRelationOid, [e.childColumnName],
      snap.keyOf e.parentRelationOid, [e.parentColumnName]⟩

end Snapshot

/-! ## Modes and events -/

/-- Where in the document the parser is. -/
structure Mode where
  current : Option TableKey
  inIgnoredBlock : Int
  inIndexes : Bool
  deriving DecidableEq

/-- In no table and in no block. -/
def Mode.start : Mode := ⟨none, 0, false⟩

/-- What a line adds: a table, a column of a table, or a reference. -/
inductive Event
  | table (table : TableKey)
  | column (table : TableKey) (name dataType settings : Str)
  | reference (spec : FkSpec)
  deriving DecidableEq

/-- A line within a table. -/
def bodyStep (m : Mode) (table : TableKey) (line : Str) : Mode × Option Event :=
  if (indexesRe.matchStart line).isSome then ({ m with inIndexes := true }, none)
  else if m.inIndexes then ({ m with inIndexes := '}' ∉ line }, none)
  else (m, (parseColumn chars line).map fun c => .column table c.1 c.2.1 c.2.2)

/-- A line that is not skipped. -/
def lineStep (m : Mode) (line : Str) : Mode × Option Event :=
  if m.inIgnoredBlock ≠ 0 then ({ m with inIgnoredBlock := m.inIgnoredBlock + braces line }, none)
  else if ((ignoredBlockRe chars).matchStart line).isSome then
    ({ m with inIgnoredBlock := if braces line ≤ 0 ∧ '{' ∉ line then 1 else braces line }, none)
  else
    match parseTableHeader chars line with
    | some table => ({ m with current := some table }, some (.table table))
    | none =>
        if line.head? = some '}' then ({ m with current := none, inIndexes := false }, none)
        else if ((refLineRe chars).matchStart line).isSome then
          (m, (refSpec chars line).map .reference)
        else
          match m.current with
          | none => (m, none)
          | some table => bodyStep chars m table line

/-- A line, with its comment cut off, moves the parser and may say something. -/
def step (m : Mode) (rawLine : Str) : Mode × Option Event :=
  ((lineOf rawLine).map (lineStep chars m)).getD (m, none)

/-- Where the parser is behind some lines. -/
def modeAfter (m : Mode) (lines : List Str) : Mode :=
  lines.foldl (fun m line => (step chars m line).1) m

/-- The events of a run. -/
def eventsFrom : Mode → List Str → List Event
  | _, [] => []
  | m, line :: lines => (step chars m line).2.toList ++ eventsFrom (step chars m line).1 lines

/-- The events of a text. -/
def events (text : Str) : List Event := eventsFrom chars .start (splitlines text)

@[simp] theorem modeAfter_nil (m : Mode) : modeAfter chars m [] = m := rfl

@[simp] theorem modeAfter_cons (m : Mode) (line : Str) (lines : List Str) :
    modeAfter chars m (line :: lines) = modeAfter chars (step chars m line).1 lines := rfl

theorem eventsFrom_append (m : Mode) (before after : List Str) :
    eventsFrom chars m (before ++ after) =
      eventsFrom chars m before ++ eventsFrom chars (modeAfter chars m before) after := by
  induction before generalizing m with
  | nil => rfl
  | cons line before ih =>
      rw [List.cons_append, eventsFrom, eventsFrom, ih, List.append_assoc, modeAfter_cons]

/-! ## The content of events -/

/-- Each table once, where it is named first. -/
def addTable (tables : List TableKey) : Event → List TableKey
  | .table table => if table ∈ tables then tables else tables ++ [table]
  | _ => tables

/-- The tables that the events declare, each once. -/
def tablesOf (es : List Event) : List TableKey := es.foldl addTable []

/-- The column that an event declares. -/
def columnOf : Event → Option ColumnInfo
  | .column table name dataType settings =>
      some ⟨table, name, dataType,
        isPkSettings chars settings || contains "not null".toList (chars.lower settings),
        contains "default:".toList (chars.lower settings)⟩
  | _ => none

/-- The key column that an event declares. -/
def pkColumnOf : Event → Option (TableKey × Str)
  | .column table name _ settings =>
      if isPkSettings chars settings then some (table, name) else none
  | _ => none

/-- The reference that an event declares. -/
def specOf : Event → Option FkSpec
  | .column table name _ settings => inlineRefSpec chars table name settings
  | .reference spec => some spec
  | _ => none

/-- The foreign key of a reference. -/
def FkSpec.foreignKey (spec : FkSpec) : ForeignKey :=
  ⟨spec.child, [spec.childColumn], spec.parent, [spec.parentColumn]⟩

/-- References count where both tables are there. -/
def contentOf (es : List Event) : Content where
  tables := tablesOf es
  columns := es.filterMap (columnOf chars)
  pkColumns := es.filterMap (pkColumnOf chars)
  foreignKeys := ((es.filterMap (specOf chars)).filter fun spec =>
    spec.child ∈ tablesOf es ∧ spec.parent ∈ tablesOf es).map FkSpec.foreignKey

/-! ## The parser follows the events -/

namespace ParseState

/-- Where the parser is. -/
def mode (s : ParseState) : Mode := ⟨s.current, s.inIgnoredBlock, s.inIndexes⟩

/-- The same content at another place. -/
def withMode (s : ParseState) (m : Mode) : ParseState :=
  { s with current := m.current, inIgnoredBlock := m.inIgnoredBlock, inIndexes := m.inIndexes }

/-- What an event does to the data. -/
def apply (s : ParseState) : Event → ParseState
  | .table table => openTable s table
  | .column table name dataType settings => addColumn chars s table (name, dataType, settings)
  | .reference spec => { s with fkSpecs := s.fkSpecs ++ [spec] }

/-- The state behind a step of the modes. -/
def record (s : ParseState) (r : Mode × Option Event) : ParseState :=
  (r.2.elim s (s.apply chars)).withMode r.1

end ParseState

theorem openTable_eq (s : ParseState) (table : TableKey) :
    openTable s table =
      s.record chars ({ s.mode with current := some table }, some (.table table)) := by
  rw [ParseState.record, Option.elim_some, ParseState.apply, openTable]
  split_ifs <;> rfl

theorem bodyLine_eq (s : ParseState) (table : TableKey) (line : Str) :
    bodyLine chars s table line = s.record chars (bodyStep chars s.mode table line) := by
  unfold bodyLine bodyStep
  by_cases hindexes : (indexesRe.matchStart line).isSome = true
  · rw [if_pos hindexes, if_pos hindexes]
    rfl
  · rw [if_neg hindexes, if_neg hindexes]
    by_cases hin : s.inIndexes = true
    · have hmode : s.mode.inIndexes = true := hin
      rw [if_pos hin, if_pos hmode]
      rfl
    · have hmode : ¬ s.mode.inIndexes = true := hin
      rw [if_neg hin, if_neg hmode]
      cases parseColumn chars line <;> rfl

theorem parseLine_some (s : ParseState) {rawLine line : Str} (h : lineOf rawLine = some line) :
    parseLine chars s rawLine = s.record chars (lineStep chars s.mode line) := by
  unfold parseLine lineStep
  simp only [h]
  by_cases hignored : s.inIgnoredBlock ≠ 0
  · have hmode : s.mode.inIgnoredBlock ≠ 0 := hignored
    rw [if_pos hignored, if_pos hmode]
    rfl
  · have hmode : ¬ s.mode.inIgnoredBlock ≠ 0 := hignored
    rw [if_neg hignored, if_neg hmode]
    by_cases hblock : ((ignoredBlockRe chars).matchStart line).isSome = true
    · rw [if_pos hblock, if_pos hblock]
      rfl
    · rw [if_neg hblock, if_neg hblock]
      cases parseTableHeader chars line with
      | some table => exact openTable_eq chars s table
      | none =>
          simp only
          by_cases hclose : line.head? = some '}'
          · rw [if_pos hclose, if_pos hclose]
            rfl
          · rw [if_neg hclose, if_neg hclose]
            by_cases href : ((refLineRe chars).matchStart line).isSome = true
            · rw [if_pos href, if_pos href]
              cases refSpec chars line with
              | none => simp [ParseState.record, ParseState.withMode, ParseState.mode]
              | some spec => rfl
            · rw [if_neg href, if_neg href]
              cases hcurrent : s.current with
              | none =>
                  have hmode : s.mode.current = none := hcurrent
                  rw [hmode]
                  rfl
              | some table =>
                  have hmode : s.mode.current = some table := hcurrent
                  rw [hmode]
                  exact bodyLine_eq chars s table line

/-- **One line** of the parser: a step of the modes, and what its event adds. -/
theorem parseLine_eq (s : ParseState) (rawLine : Str) :
    parseLine chars s rawLine = s.record chars (step chars s.mode rawLine) := by
  rw [step]
  cases h : lineOf rawLine with
  | none =>
      rw [parseLine, h]
      rfl
  | some line => exact parseLine_some chars s h

/-! ## Tables by their numbers -/

/-- The table that the parser's number of a column stands for is the column's. -/
def oidOf (d : Dict TableKey Nat) (table : TableKey) : Nat := (d.get? table).getD 0

/-- The parser's data after some events. -/
structure Tracks (s : ParseState) (es : List Event) : Prop where
  keys : s.oidByTable.keys = tablesOf es
  values : s.oidByTable.values = List.range' 1 s.oidByTable.items.length
  nextOid : s.nextOid = s.oidByTable.items.length + 1
  relations : s.relations = s.oidByTable.items.map fun e => ⟨e.2, e.1.1, e.1.2⟩
  columns : s.columns.map (fun c =>
      (c.relationOid, c.columnName, c.dataType, c.isNotNull, c.hasDefault)) =
    (es.filterMap (columnOf chars)).map fun i =>
      (oidOf s.oidByTable i.table, i.name, i.dataType, i.isNotNull, i.hasDefault)
  pkColumns : s.pkColumns.map (fun pk => (pk.relationOid, pk.columnName)) =
    (es.filterMap (pkColumnOf chars)).map fun pk => (oidOf s.oidByTable pk.1, pk.2)
  fkSpecs : s.fkSpecs = es.filterMap (specOf chars)
  known : ∀ table name dataType settings,
    Event.column table name dataType settings ∈ es → table ∈ tablesOf es
  current : ∀ table, s.current = some table → table ∈ tablesOf es

theorem tablesOf_concat (es : List Event) (e : Event) :
    tablesOf (es ++ [e]) = addTable (tablesOf es) e := by
  rw [tablesOf, List.foldl_append]
  rfl

theorem mem_tablesOf_concat {es : List Event} {table : TableKey} (e : Event)
    (h : table ∈ tablesOf es) : table ∈ tablesOf (es ++ [e]) := by
  rw [tablesOf_concat]
  cases e with
  | table t =>
      rw [addTable]
      split_ifs
      · exact h
      · exact List.mem_append_left _ h
  | column => exact h
  | reference => exact h

variable {chars} {s : ParseState} {es : List Event}

theorem Tracks.start : Tracks chars .start [] where
  keys := rfl
  values := rfl
  nextOid := rfl
  relations := rfl
  columns := rfl
  pkColumns := rfl
  fkSpecs := rfl
  known := by
    intro _ _ _ _ h
    exact absurd h List.not_mem_nil
  current := by
    intro _ h
    exact absurd h (by simp [ParseState.start])

/-- A new table leaves the numbers of the others. -/
theorem oidOf_set {d : Dict TableKey Nat} {table new : TableKey} (oid : Nat)
    (h : table ∈ d.keys) (hnew : new ∉ d.keys) : oidOf (d.set new oid) table = oidOf d table := by
  have hne : table ≠ new := fun he => hnew (he ▸ h)
  rw [oidOf, oidOf, Dict.get?_set_ne d oid hne]

/-- A new key goes to the end. -/
theorem items_set_of_not_mem {d : Dict TableKey Nat} {table : TableKey} (oid : Nat)
    (h : table ∉ d.keys) : (d.set table oid).items = d.items ++ [(table, oid)] := by
  have key : ∀ items : List (TableKey × Nat), table ∉ items.map Prod.fst →
      setEntry table oid items = items ++ [(table, oid)] := by
    intro items hitems
    induction items with
    | nil => rfl
    | cons e items ih =>
        rw [List.map_cons, List.mem_cons, not_or] at hitems
        rw [setEntry, if_neg (Ne.symm hitems.1), ih hitems.2, List.cons_append]
  exact key d.items h

theorem filterMap_concat_none {β : Type} {f : Event → Option β} {e : Event} (es : List Event)
    (h : f e = none) : (es ++ [e]).filterMap f = es.filterMap f := by
  rw [List.filterMap_append, List.filterMap_cons_none h, List.filterMap_nil, List.append_nil]

theorem mem_columnOf {i : ColumnInfo} (h : i ∈ es.filterMap (columnOf chars)) :
    ∃ name dataType settings, .column i.table name dataType settings ∈ es := by
  obtain ⟨e, he, hi⟩ := List.mem_filterMap.mp h
  cases e with
  | column table name dataType settings =>
      obtain rfl := Option.some.inj hi
      exact ⟨name, dataType, settings, he⟩
  | table => exact absurd hi (by simp [columnOf])
  | reference => exact absurd hi (by simp [columnOf])

theorem mem_pkColumnOf {pk : TableKey × Str} (h : pk ∈ es.filterMap (pkColumnOf chars)) :
    ∃ name dataType settings, .column pk.1 name dataType settings ∈ es := by
  obtain ⟨e, he, hi⟩ := List.mem_filterMap.mp h
  cases e with
  | column table name dataType settings =>
      rw [pkColumnOf] at hi
      split_ifs at hi
      obtain rfl := Option.some.inj hi
      exact ⟨name, dataType, settings, he⟩
  | table => exact absurd hi (by simp [pkColumnOf])
  | reference => exact absurd hi (by simp [pkColumnOf])

theorem Tracks.mem_keys_of_isSome (h : Tracks chars s es) {table : TableKey} :
    (s.oidByTable.get? table).isSome = true ↔ table ∈ tablesOf es := by
  rw [Option.isSome_iff_exists, ← Dict.mem_keys_iff, h.keys]

/-- A header of a table that is known. -/
theorem Tracks.oldTable (h : Tracks chars s es) {table : TableKey} (hold : table ∈ tablesOf es) :
    Tracks chars { s with current := some table } (es ++ [.table table]) := by
  have htables : tablesOf (es ++ [.table table]) = tablesOf es := by
    rw [tablesOf_concat, addTable, if_pos hold]
  refine ⟨?_, h.values, h.nextOid, h.relations, ?_, ?_, ?_, ?_, ?_⟩
  · rw [htables]
    exact h.keys
  · rw [filterMap_concat_none es rfl]
    exact h.columns
  · rw [filterMap_concat_none es rfl]
    exact h.pkColumns
  · rw [filterMap_concat_none es rfl]
    exact h.fkSpecs
  · intro t name dataType settings hmem
    rw [htables]
    exact h.known t name dataType settings (by simpa using hmem)
  · intro t ht
    obtain rfl := Option.some.inj ht
    rw [htables]
    exact hold

/-- A header of a new table. -/
theorem Tracks.newTable (h : Tracks chars s es) {table : TableKey} (hnew : table ∉ tablesOf es) :
    Tracks chars
      { s with
        current := some table
        oidByTable := s.oidByTable.set table s.nextOid
        relations := s.relations ++ [⟨s.nextOid, table.1, table.2⟩]
        nextOid := s.nextOid + 1 }
      (es ++ [.table table]) := by
  have htables : tablesOf (es ++ [.table table]) = tablesOf es ++ [table] := by
    rw [tablesOf_concat, addTable, if_neg hnew]
  have hkey : table ∉ s.oidByTable.keys := h.keys ▸ hnew
  have hitems := items_set_of_not_mem s.nextOid hkey
  have hoid : ∀ t ∈ tablesOf es,
      oidOf (s.oidByTable.set table s.nextOid) t = oidOf s.oidByTable t :=
    fun t ht => oidOf_set s.nextOid (h.keys ▸ ht) hkey
  refine ⟨?_, ?_, ?_, ?_, ?_, ?_, ?_, ?_, ?_⟩
  · rw [Dict.keys_set, if_neg hkey, h.keys, htables]
  · have hvalues := h.values
    rw [Dict.values] at hvalues ⊢
    rw [hitems, List.map_append, hvalues, h.nextOid, List.length_append, List.length_singleton,
      List.range'_concat]
    simp [Nat.add_comm]
  · rw [hitems, List.length_append, List.length_singleton, h.nextOid]
  · rw [hitems, List.map_append, h.relations]
    rfl
  · rw [filterMap_concat_none es rfl, h.columns]
    refine List.map_congr_left fun i hi => ?_
    obtain ⟨name, dataType, settings, hmem⟩ := mem_columnOf hi
    rw [hoid _ (h.known _ _ _ _ hmem)]
  · rw [filterMap_concat_none es rfl, h.pkColumns]
    refine List.map_congr_left fun pk hpk => ?_
    obtain ⟨name, dataType, settings, hmem⟩ := mem_pkColumnOf hpk
    rw [hoid _ (h.known _ _ _ _ hmem)]
  · rw [filterMap_concat_none es rfl]
    exact h.fkSpecs
  · intro t name dataType settings hmem
    exact mem_tablesOf_concat _ (h.known t name dataType settings (by simpa using hmem))
  · intro t ht
    obtain rfl := Option.some.inj ht
    rw [htables]
    exact List.mem_append_right _ List.mem_cons_self

theorem Tracks.table (h : Tracks chars s es) (table : TableKey) :
    Tracks chars (openTable s table) (es ++ [.table table]) := by
  rw [openTable]
  split_ifs with hold
  · exact h.oldTable (h.mem_keys_of_isSome.mp hold)
  · exact h.newTable fun hmem => hold (h.mem_keys_of_isSome.mpr hmem)

theorem Tracks.column (h : Tracks chars s es) {table : TableKey} (htable : table ∈ tablesOf es)
    (name dataType settings : Str) :
    Tracks chars (addColumn chars s table (name, dataType, settings))
      (es ++ [.column table name dataType settings]) := by
  have htables : tablesOf (es ++ [.column table name dataType settings]) = tablesOf es := by
    rw [tablesOf_concat]
    rfl
  refine ⟨?_, h.values, h.nextOid, h.relations, ?_, ?_, ?_, ?_, ?_⟩
  · rw [htables]
    exact h.keys
  · rw [addColumn, List.map_append, h.columns, List.filterMap_append, List.map_append]
    rfl
  · rw [addColumn, List.map_append, h.pkColumns, List.filterMap_append, List.map_append]
    simp only [List.filterMap_cons, List.filterMap_nil, pkColumnOf]
    by_cases hpk : isPkSettings chars settings = true
    · rw [if_pos hpk, if_pos hpk]
      rfl
    · rw [if_neg hpk, if_neg hpk]
      rfl
  · rw [addColumn, List.filterMap_append, ← h.fkSpecs]
    simp only [List.filterMap_cons, List.filterMap_nil, specOf]
    cases inlineRefSpec chars table name settings <;> rfl
  · intro t name' dataType' settings' hmem
    rw [htables]
    rcases List.mem_append.mp hmem with hmem | hmem
    · exact h.known t name' dataType' settings' hmem
    · obtain ⟨rfl, -⟩ : t = table ∧ _ := by simpa using hmem
      exact htable
  · intro t ht
    rw [htables]
    exact h.current t ht

theorem Tracks.reference (h : Tracks chars s es) (spec : FkSpec) :
    Tracks chars { s with fkSpecs := s.fkSpecs ++ [spec] } (es ++ [.reference spec]) := by
  have htables : tablesOf (es ++ [.reference spec]) = tablesOf es := by
    rw [tablesOf_concat]
    rfl
  refine ⟨?_, h.values, h.nextOid, h.relations, ?_, ?_, ?_, ?_, ?_⟩
  · rw [htables]
    exact h.keys
  · rw [filterMap_concat_none es rfl]
    exact h.columns
  · rw [filterMap_concat_none es rfl]
    exact h.pkColumns
  · rw [List.filterMap_append, ← h.fkSpecs]
    rfl
  · intro t name dataType settings hmem
    rw [htables]
    exact h.known t name dataType settings (by simpa using hmem)
  · intro t ht
    rw [htables]
    exact h.current t ht

/-! ## Runs -/

/-- What a step of the modes can do. -/
inductive StepKind (m : Mode) : Mode × Option Event → Prop
  | quiet (m' : Mode) (h : m'.current = m.current ∨ m'.current = none) : StepKind m (m', none)
  | table (t : TableKey) : StepKind m ({ m with current := some t }, some (.table t))
  | column (t : TableKey) (name dataType settings : Str) (h : m.current = some t) :
      StepKind m (m, some (.column t name dataType settings))
  | reference (spec : FkSpec) : StepKind m (m, some (.reference spec))

theorem stepKind_bodyStep {m : Mode} {table : TableKey} (h : m.current = some table) (line : Str) :
    StepKind m (bodyStep chars m table line) := by
  unfold bodyStep
  split_ifs
  · exact .quiet _ (.inl rfl)
  · exact .quiet _ (.inl rfl)
  · cases parseColumn chars line with
    | none => exact .quiet _ (.inl rfl)
    | some c => exact .column table _ _ _ h

/-- **Every step** is of one of these kinds. -/
theorem stepKind_step (m : Mode) (rawLine : Str) : StepKind m (step chars m rawLine) := by
  unfold step
  cases lineOf rawLine with
  | none => exact .quiet m (.inl rfl)
  | some line =>
      rw [Option.map_some, Option.getD_some]
      unfold lineStep
      by_cases hignored : m.inIgnoredBlock ≠ 0
      · rw [if_pos hignored]
        exact .quiet _ (.inl rfl)
      rw [if_neg hignored]
      by_cases hblock : ((ignoredBlockRe chars).matchStart line).isSome = true
      · rw [if_pos hblock]
        exact .quiet _ (.inl rfl)
      rw [if_neg hblock]
      cases parseTableHeader chars line with
      | some table => exact .table table
      | none =>
          simp only
          split_ifs
          · exact .quiet _ (.inr rfl)
          · cases refSpec chars line with
            | none => exact .quiet _ (.inl rfl)
            | some spec => exact .reference spec
          · cases hcurrent : m.current with
            | none => exact .quiet m (.inl rfl)
            | some table => exact stepKind_bodyStep hcurrent line

theorem Tracks.withMode (h : Tracks chars s es) {m : Mode}
    (hm : ∀ table, m.current = some table → table ∈ tablesOf es) :
    Tracks chars (s.withMode m) es :=
  ⟨h.keys, h.values, h.nextOid, h.relations, h.columns, h.pkColumns, h.fkSpecs, h.known, hm⟩

theorem Tracks.record (h : Tracks chars s es) {r : Mode × Option Event} (hr : StepKind s.mode r) :
    Tracks chars (s.record chars r) (es ++ r.2.toList) := by
  cases hr with
  | quiet m' hm =>
      rw [Option.toList_none, List.append_nil]
      refine h.withMode fun table ht => ?_
      rcases hm with hm | hm
      · exact h.current table (hm.symm.trans ht)
      · rw [hm] at ht
        exact absurd ht (by simp)
  | table t =>
      refine (h.table t).withMode fun table ht => ?_
      obtain rfl := Option.some.inj ht
      exact (h.table t).current t (by rw [openTable]; split_ifs <;> rfl)
  | column t name dataType settings ht =>
      have hcolumn := h.column (h.current t ht) name dataType settings
      exact hcolumn.withMode fun table ht => hcolumn.current table ht
  | reference spec =>
      have href := h.reference spec
      exact href.withMode fun table ht => href.current table ht

theorem Tracks.run (h : Tracks chars s es) (lines : List Str) :
    Tracks chars (lines.foldl (parseLine chars) s) (es ++ eventsFrom chars s.mode lines) := by
  induction lines generalizing s es with
  | nil => simpa [eventsFrom] using h
  | cons line lines ih =>
      have hkind : StepKind s.mode (step chars s.mode line) := stepKind_step s.mode line
      have hstep := h.record hkind
      rw [← parseLine_eq] at hstep
      have hmode : (parseLine chars s line).mode = (step chars s.mode line).1 := by
        rw [parseLine_eq]
        rfl
      rw [List.foldl_cons, eventsFrom, ← List.append_assoc, ← hmode]
      exact ih hstep

/-- The parser's data behind the last line of a text. -/
theorem tracks_parseLines (text : Str) : Tracks chars (parseLines chars text) (events chars text) :=
  Tracks.start.run (splitlines text)

/-! ## The snapshot -/

/-- The number of a table leads back to it. -/
theorem Tracks.keyOf_oidOf (h : Tracks chars s es) {snap : Snapshot}
    (hsnap : snap.relations = s.relations) {table : TableKey} (htable : table ∈ tablesOf es) :
    snap.keyOf (oidOf s.oidByTable table) = table := by
  obtain ⟨oid, hoid⟩ := Dict.mem_keys_iff.mp (h.keys.symm ▸ htable)
  have hitem := Dict.mem_items_iff.mpr hoid
  have hnodup : (s.oidByTable.items.map Prod.snd).Nodup := by
    have hvalues := h.values
    rw [Dict.values] at hvalues
    rw [hvalues]
    exact List.nodup_range'
  have hfind : s.oidByTable.items.find? (fun e => e.2 = oid) = some (table, oid) := by
    cases hf : s.oidByTable.items.find? fun e => e.2 = oid with
    | none =>
        exact absurd (decide_eq_true rfl) (List.find?_eq_none.mp hf _ hitem)
    | some e =>
        have heq : e.2 = oid := by simpa using List.find?_some hf
        rw [List.inj_on_of_nodup_map hnodup (List.mem_of_find?_eq_some hf) hitem heq]
  have hrel : snap.relations.find? (fun r => r.relationOid = oid) =
      some ⟨oid, table.1, table.2⟩ := by
    rw [hsnap, h.relations, List.find?_map]
    simp only [Function.comp_def]
    rw [hfind]
    rfl
  rw [oidOf, hoid, Option.getD_some, Snapshot.keyOf, hrel]
  rfl

/-- The references between known tables, numbered from any number on. -/
theorem map_filterMap_zipIdx {ε β γ : Type} (p : ε → Bool) (f : ε → Nat → Option β) (g : β → γ)
    (k : ε → γ) (xs : List ε) (hsome : ∀ x ∈ xs, p x = true → ∀ i, ∃ b, f x i = some b ∧ g b = k x)
    (hnone : ∀ x ∈ xs, p x = false → ∀ i, f x i = none) (start : Nat) :
    ((xs.zipIdx start).filterMap fun e => f e.1 e.2).map g = (xs.filter p).map k := by
  induction xs generalizing start with
  | nil => rfl
  | cons x xs ih =>
      have ih := ih (fun y hy => hsome y (List.mem_cons_of_mem x hy))
        (fun y hy => hnone y (List.mem_cons_of_mem x hy)) (start + 1)
      rw [List.zipIdx_cons, List.filterMap_cons]
      cases hp : p x with
      | true =>
          obtain ⟨b, hb, hg⟩ := hsome x List.mem_cons_self hp start
          rw [List.filter_cons_of_pos hp, List.map_cons]
          simp only [hb, List.map_cons, hg]
          rw [ih]
      | false =>
          rw [List.filter_cons_of_neg (by simp [hp])]
          simp only [hnone x List.mem_cons_self hp start]
          exact ih

/-- **The content of the snapshot** is that of the events of the text. -/
theorem content_parseDbml (text : Str) :
    (parseDbml chars text).content = contentOf chars (events chars text) := by
  have h : Tracks chars (parseLines chars text) (events chars text) := tracks_parseLines text
  have hkey {table : TableKey} (htable : table ∈ tablesOf (events chars text)) :
      (parseDbml chars text).keyOf (oidOf (parseLines chars text).oidByTable table) = table :=
    h.keyOf_oidOf rfl htable
  rw [Snapshot.content, contentOf, Content.mk.injEq]
  refine ⟨?_, ?_, ?_, ?_⟩
  · rw [← h.keys, Dict.keys]
    calc (parseDbml chars text).relations.map Relation.key
        = ((parseLines chars text).oidByTable.items.map
            fun e => (⟨e.2, e.1.1, e.1.2⟩ : Relation)).map Relation.key := by
              rw [← h.relations]
              rfl
      _ = (parseLines chars text).oidByTable.items.map Prod.fst := by rw [List.map_map]; rfl
  · have hcolumns := congrArg (List.map fun r : Nat × Str × Str × Bool × Bool =>
      (⟨(parseDbml chars text).keyOf r.1, r.2.1, r.2.2.1, r.2.2.2.1, r.2.2.2.2⟩ : ColumnInfo))
      h.columns
    rw [List.map_map, List.map_map] at hcolumns
    refine hcolumns.trans ?_
    refine (List.map_congr_left fun i hi => ?_).trans (List.map_id _)
    obtain ⟨name, dataType, settings, hmem⟩ := mem_columnOf hi
    simp only [Function.comp_apply, hkey (h.known _ _ _ _ hmem), id]
  · have hpks := congrArg
      (List.map fun r : Nat × Str => ((parseDbml chars text).keyOf r.1, r.2)) h.pkColumns
    rw [List.map_map, List.map_map] at hpks
    refine hpks.trans ?_
    refine (List.map_congr_left fun pk hpk => ?_).trans (List.map_id _)
    obtain ⟨name, dataType, settings, hmem⟩ := mem_pkColumnOf hpk
    simp only [Function.comp_apply, hkey (h.known _ _ _ _ hmem), id]
  · rw [← h.fkSpecs]
    refine map_filterMap_zipIdx _ (fkEdgeOf (parseLines chars text).oidByTable) _ _ _
      (fun spec _ hp i => ?_) (fun spec _ hp i => ?_) 1
    · obtain ⟨hchild, hparent⟩ := of_decide_eq_true hp
      obtain ⟨child, hc⟩ := Dict.mem_keys_iff.mp (h.keys.symm ▸ hchild)
      obtain ⟨parent, hp⟩ := Dict.mem_keys_iff.mp (h.keys.symm ▸ hparent)
      have hc' := hkey hchild
      have hp' := hkey hparent
      rw [oidOf, hc] at hc'
      rw [oidOf, hp] at hp'
      refine ⟨_, by rw [fkEdgeOf, hc, hp], ?_⟩
      rw [Option.getD_some] at hc' hp'
      simp only [hc', hp', FkSpec.foreignKey]
    · have hmissing := of_decide_eq_false hp
      rw [← h.keys, not_and_or, ← Dict.get?_eq_none_iff, ← Dict.get?_eq_none_iff] at hmissing
      rcases hmissing with hm | hm
      · rw [fkEdgeOf, hm]
      · rw [fkEdgeOf, hm]
        cases (parseLines chars text).oidByTable.get? spec.child <;> rfl

end PgErdCloud.Dbml
