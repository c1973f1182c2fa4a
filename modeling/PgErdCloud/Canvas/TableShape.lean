/-
  The tables of the SQL export, read as SQL. Names are quoted and cannot change their shape.
  Types are not: they may have any parentheses and commas.

  `shapesKept_iff` is about all nodes and edges: every statement is read as the table it was made
  for exactly when no type has a comma outside of parentheses or a parenthesis without its other
  one.
-/
import PgErdCloud.Canvas.Exporters
import PgErdCloud.Lib.ParenList

namespace PgErdCloud.Canvas

open Lib Lib.PyStr Lib.ParenList

/-! ## Reading -/

/-- A table as it is read: what stands between the commas of its list. -/
structure SqlTable where
  name : Str
  elements : List Str

/-- The table of a `CREATE TABLE`, and what follows the parenthesis that closes its list. -/
def readTable (s : Str) : Option (SqlTable × Str) := do
  let (name, s) ← (dropStart "CREATE TABLE \"".toList s).bind (readName false)
  let s ← dropStart " (".toList s
  let (elements, s) ← readElements s.length s
  some (⟨name, elements⟩, s)

/-- A number of tables, each of which ends right behind its list, and what follows them. -/
def readTables : Nat → Str → Option (List SqlTable × Str)
  | 0, s => some ([], s)
  | count + 1, s => do
      let (table, s) ← readTable s
      let s ← dropStart ";\n\n".toList s
      let (tables, s) ← readTables count s
      some (table :: tables, s)

/-! ## What was written -/

/-- The line of a column within `CREATE TABLE`. -/
def columnDefinition (c : Column) : Str :=
  "  ".toList ++ quoteSqlIdentifier c.columnName ++ " ".toList ++ sqlDataType c.dataType ++
    if c.isNotNull then " NOT NULL".toList else []

/-- The line of the primary key, where there is one. -/
def primaryKeyClause (columns : List Column) : List Str :=
  let pkCols := (columns.filter Column.isPk).map fun c => quoteSqlIdentifier c.columnName
  if pkCols = [] then []
  else ["  PRIMARY KEY (".toList ++ join ", ".toList pkCols ++ ")".toList]

/-- Elements with the line breaks that are written around them. Of no elements a blank line is
    left. -/
def withBreaks : List Str → List Str
  | [] => ["\n\n".toList]
  | [element] => ["\n".toList ++ element ++ "\n".toList]
  | element :: elements => ("\n".toList ++ element) :: withBreaks elements

/-- The table of a node: one definition for each column, and the primary key. -/
def nodeTable (node : TableNode) : SqlTable where
  name := JsStr.orElse (JsStr.trim (tableTitle node)) "unnamed".toList
  elements := withBreaks (node.columns.map columnDefinition ++ primaryKeyClause node.columns)

theorem join_withBreaks (elements : List Str) :
    join ",".toList (withBreaks elements) =
      "\n".toList ++ join ",\n".toList elements ++ "\n".toList := by
  induction elements using withBreaks.induct with
  | case1 => rfl
  | case2 element => rw [withBreaks, join_singleton, join_singleton]
  | case3 element elements hne ih =>
      have hne : elements ≠ [] := fun he => hne he
      have hbreaks : withBreaks elements ≠ [] := by
        rcases elements with _ | ⟨e, _ | ⟨e', es⟩⟩ <;> simp [withBreaks]
      rw [withBreaks, join_cons_of_ne_nil _ _ hbreaks, ih, join_cons_of_ne_nil _ _ hne]
      · simp
      · exact hne

theorem ddlTable_def (node : TableNode) : ddlTable node =
    "CREATE TABLE ".toList ++ quoteSqlIdentifier (tableTitle node) ++ " (\n".toList ++
      join ",\n".toList (node.columns.map columnDefinition ++ primaryKeyClause node.columns) ++
      "\n);\n\n".toList := rfl

theorem ddlTable_eq (node : TableNode) (rest : Str) :
    ddlTable node ++ rest = "CREATE TABLE \"".toList ++
      (replaceChar '"' "\"\"".toList (nodeTable node).name ++ '"' :: (" (".toList ++
        (join ",".toList (nodeTable node).elements ++ ')' :: (";\n\n".toList ++ rest)))) := by
  have hlist := join_withBreaks
    (node.columns.map columnDefinition ++ primaryKeyClause node.columns)
  have helements : join ",".toList (nodeTable node).elements = _ := hlist
  have hname : quoteSqlIdentifier (tableTitle node) = "\"".toList ++
      replaceChar '"' "\"\"".toList (nodeTable node).name ++ "\"".toList := rfl
  rw [ddlTable_def, helements, hname]
  generalize replaceChar '"' "\"\"".toList (nodeTable node).name = name
  generalize join ",\n".toList _ = elements
  simp

/-! ## Elements -/

theorem quote_not_mem_sqlDataType (value : Str) : '"' ∉ sqlDataType value := by
  dsimp only [sqlDataType]
  split_ifs with htype
  · intro hmem
    rw [isSqlDataType, Bool.and_eq_true] at htype
    exact absurd (List.all_eq_true.mp htype.2 '"' hmem) (by decide)
  · decide

/-- The definition of a column is an element when its type is none by itself. -/
theorem closed_columnDefinition (c : Column) :
    ParenList.Closed (columnDefinition c) ↔ ParenList.Closed (sqlDataType c.dataType) := by
  have hnotNull : ∀ ch ∈ if c.isNotNull then " NOT NULL".toList else [], isPlain ch = true := by
    split_ifs
    · exact List.all_eq_true.mp (by decide)
    · exact nofun
  have hindent : ∀ ch ∈ "  ".toList, isPlain ch = true := List.all_eq_true.mp (by decide)
  have hblank : ∀ ch ∈ " ".toList, isPlain ch = true := List.all_eq_true.mp (by decide)
  have hname : ParenList.Closed (quoteSqlIdentifier c.columnName) := scan_quoteName _ 0
  have hquoted (rest : Str) :
      ParenList.Closed (quoteSqlIdentifier c.columnName ++ rest) ↔ ParenList.Closed rest := by
    rw [ParenList.Closed, scan_append, hname, Option.bind_some, ParenList.Closed]
  rw [columnDefinition, closed_append_plain hnotNull, List.append_assoc, List.append_assoc,
    closed_plain_append hindent, hquoted, closed_plain_append hblank]

theorem closed_primaryKeyClause {columns : List Column} {clause : Str}
    (h : clause ∈ primaryKeyClause columns) : ParenList.Closed clause := by
  dsimp only [primaryKeyClause] at h
  split_ifs at h with hnone
  · exact absurd h List.not_mem_nil
  · rw [List.mem_singleton.mp h]
    set names := (columns.filter Column.isPk).map fun c =>
      JsStr.orElse (JsStr.trim c.columnName) "unnamed".toList with hnames
    have hcols : ((columns.filter Column.isPk).map fun c => quoteSqlIdentifier c.columnName) =
        names.map quoteName := by
      rw [hnames, List.map_map]
      rfl
    have hopen : scan .start "  PRIMARY KEY (".toList = some ⟨false, 1⟩ := by decide
    rw [hcols, ParenList.Closed, scan_append, scan_append, hopen, Option.bind_some, scan_names,
      Option.bind_some]
    rfl

theorem forall_mem_withBreaks (elements : List Str) :
    (∀ e ∈ withBreaks elements, ParenList.Closed e) ↔ ∀ e ∈ elements, ParenList.Closed e := by
  have hbreak : ∀ ch ∈ "\n".toList, isPlain ch = true := List.all_eq_true.mp (by decide)
  induction elements using withBreaks.induct with
  | case1 => exact iff_of_true (by decide) nofun
  | case2 element =>
      rw [withBreaks, List.forall_mem_singleton, List.forall_mem_singleton,
        closed_append_plain hbreak, closed_plain_append hbreak]
  | case3 element elements hne ih =>
      rw [withBreaks, List.forall_mem_cons, List.forall_mem_cons, closed_plain_append hbreak]
      · exact and_congr Iff.rfl ih
      · exact hne

/-- A type that is a part of one element: its parentheses are balanced, and its commas are
    within them. -/
def Contained (type : Str) : Prop :=
  Nesting.WellNested '(' ')' type ∧
    ∀ before after, type = before ++ ',' :: after → 0 < Nesting.depth '(' ')' before

theorem closed_nodeTable_iff (node : TableNode) :
    (∀ e ∈ (nodeTable node).elements, ParenList.Closed e) ↔
      ∀ c ∈ node.columns, Contained (sqlDataType c.dataType) := by
  rw [nodeTable, forall_mem_withBreaks]
  constructor
  · intro h c hc
    have hclosed := h _ (List.mem_append_left _ (List.mem_map_of_mem hc))
    exact (closed_iff_of_no_quote (quote_not_mem_sqlDataType c.dataType)).mp
      ((closed_columnDefinition c).mp hclosed)
  · intro h e he
    rcases List.mem_append.mp he with he | he
    · obtain ⟨c, hc, rfl⟩ := List.mem_map.mp he
      exact (closed_columnDefinition c).mpr
        ((closed_iff_of_no_quote (quote_not_mem_sqlDataType c.dataType)).mpr (h c hc))
    · exact closed_primaryKeyClause he

/-! ## Tables -/

theorem withBreaks_ne_nil (elements : List Str) : withBreaks elements ≠ [] := by
  rcases elements with _ | ⟨e, _ | ⟨e', es⟩⟩ <;> simp [withBreaks]

theorem length_le_join (elements : List Str) :
    elements.length ≤ (join ",".toList elements).length + 1 := by
  induction elements with
  | nil => exact Nat.zero_le _
  | cons e elements ih =>
      by_cases hnil : elements = []
      · subst hnil
        exact Nat.le_add_left _ _
      · have hcomma : ",".toList.length = 1 := rfl
        rw [join_cons_of_ne_nil _ _ hnil, List.length_append, List.length_append, hcomma,
          List.length_cons]
        omega

/-- A table that is read as it was written ends where it was ended. -/
theorem readTable_eq_some_iff (node : TableNode) (rest r : Str) :
    readTable (ddlTable node ++ rest) = some (nodeTable node, r) ↔
      r = ";\n\n".toList ++ rest ∧ ∀ c ∈ node.columns, Contained (sqlDataType c.dataType) := by
  set body := join ",".toList (nodeTable node).elements ++ ')' :: (";\n\n".toList ++ rest)
    with hbody
  have hname : readName false (replaceChar '"' "\"\"".toList (nodeTable node).name ++
      '"' :: (" (".toList ++ body)) = some ((nodeTable node).name, " (".toList ++ body) :=
    readName_append _ nofun
  have hread : readTable (ddlTable node ++ rest) = (readElements body.length body).bind
      fun result => some (⟨(nodeTable node).name, result.1⟩, result.2) := by
    rw [ddlTable_eq, readTable, dropStart_append, Option.bind_some, hname]
    simp only [Option.bind_eq_bind, Option.bind_some, dropStart_append]
  have hlength : (nodeTable node).elements.length ≤ body.length := by
    have hle := length_le_join (nodeTable node).elements
    rw [hbody, List.length_append, List.length_cons]
    omega
  rw [hread]
  constructor
  · intro h
    obtain ⟨⟨elements, s⟩, helements, hresult⟩ := Option.bind_eq_some_iff.mp h
    obtain ⟨htable, rfl⟩ := Prod.mk.inj (Option.some.inj hresult)
    obtain rfl : elements = (nodeTable node).elements := congrArg SqlTable.elements htable
    obtain ⟨hsplit, -, -, hclosed⟩ := readElements_eq_some_iff.mp helements
    refine ⟨?_, (closed_nodeTable_iff node).mp hclosed⟩
    exact ((List.cons.inj (List.append_cancel_left hsplit)).2).symm
  · rintro ⟨rfl, hcontained⟩
    rw [readElements_eq_some_iff.mpr ⟨hbody, withBreaks_ne_nil _, hlength,
      (closed_nodeTable_iff node).mpr hcontained⟩]
    rfl

/-- The tables of a list of nodes, and what was written behind them. -/
theorem readTables_iff (nodes : List TableNode) (rest : Str) :
    (∃ r, readTables nodes.length (nodes.flatMap ddlTable ++ rest) =
        some (nodes.map nodeTable, r)) ↔
      ∀ node ∈ nodes, ∀ c ∈ node.columns, Contained (sqlDataType c.dataType) := by
  induction nodes with
  | nil => exact iff_of_true ⟨rest, rfl⟩ nofun
  | cons node nodes ih =>
      rw [List.forall_mem_cons, ← ih, List.flatMap_cons, List.append_assoc, List.length_cons,
        List.map_cons]
      have hiff := readTable_eq_some_iff node (nodes.flatMap ddlTable ++ rest)
      constructor
      · rintro ⟨r, h⟩
        obtain ⟨⟨table, s⟩, htable, h⟩ := Option.bind_eq_some_iff.mp h
        obtain ⟨s', hdrop, h⟩ := Option.bind_eq_some_iff.mp h
        obtain ⟨⟨tables, r'⟩, htables, h⟩ := Option.bind_eq_some_iff.mp h
        obtain ⟨hcons, rfl⟩ := Prod.mk.inj (Option.some.inj h)
        obtain ⟨rfl, rfl⟩ := List.cons.inj hcons
        obtain ⟨rfl, hcontained⟩ := (hiff s).mp htable
        obtain rfl := Option.some.inj ((dropStart_append _ _).symm.trans hdrop)
        exact ⟨hcontained, r', htables⟩
      · rintro ⟨hcontained, r, h⟩
        refine ⟨r, ?_⟩
        rw [readTables, (hiff _).mpr ⟨rfl, hcontained⟩]
        simp only [Option.bind_eq_bind, Option.bind_some, dropStart_append, h]

/-- Each `CREATE TABLE` is read as a table with the definitions of its node's columns, its
    primary key and nothing else, and ends behind its list. -/
def ShapesKept (nodes : List TableNode) (edges : List Edge) : Prop :=
  ∃ rest, (dropStart "-- Generated DDL\n\n".toList (exportDDL nodes edges)).bind
    (readTables nodes.length) = some (nodes.map nodeTable, rest)

/-- **The tables keep their shape** exactly when each type, as it is written, has balanced
    parentheses and no comma outside of them. -/
theorem shapesKept_iff (nodes : List TableNode) (edges : List Edge) :
    ShapesKept nodes edges ↔
      ∀ node ∈ nodes, ∀ c ∈ node.columns, Contained (sqlDataType c.dataType) := by
  obtain ⟨rest, hexport⟩ : ∃ rest, exportDDL nodes edges =
      "-- Generated DDL\n\n".toList ++ (nodes.flatMap ddlTable ++ rest) := by
    dsimp only [exportDDL]
    rw [List.append_assoc, List.append_assoc, List.append_assoc]
    exact ⟨_, rfl⟩
  rw [ShapesKept, hexport, dropStart_append]
  exact readTables_iff nodes rest

/-! ## A type that is two columns -/

/-- A table with one column, of a type with a comma. -/
def oneColumn : List TableNode :=
  [⟨"t1".toList, "public.notes".toList, none,
    [⟨"id".toList, "int, x text".toList, false, false, none⟩], [], ⟨false, false⟩⟩]

/-- The table is read with two columns. -/
theorem not_shapesKept_oneColumn : ¬ ShapesKept oneColumn [] := by
  rintro ⟨rest, h⟩
  have hread : (((dropStart "-- Generated DDL\n\n".toList (exportDDL oneColumn [])).bind
      (readTables 1)).map fun result => result.1.map fun table => table.elements.length) =
      some [2] := by decide
  have hone : oneColumn.length = 1 := rfl
  rw [hone] at h
  rw [h, Option.map_some] at hread
  have hwritten : (oneColumn.map nodeTable).map (fun table => table.elements.length) = [1] := by
    decide
  exact absurd (hwritten.symm.trans (Option.some.inj hread)) (by decide)

end PgErdCloud.Canvas
