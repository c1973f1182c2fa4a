/-
  The data dictionary of the diagram as comma-separated values (`exportDictionaryCsv` of
  erd/exportDataDictionary.ts). What the cells are to hold is stated from the fields of the
  nodes, apart from the exporter: a reader finds it in every cell, but for control characters,
  and no cell is a formula.

  A number is taken as `String` prints it.

  `exportDictionaryCsv_lossless` says so for all nodes and edges.
-/
import PgErdCloud.Canvas.Graph
import PgErdCloud.Lib.Csv

namespace PgErdCloud.Canvas

open Lib Lib.PyStr

/-! ## Nodes with examples -/

/-- An example value; a number comes with what JavaScript prints for it. -/
inductive ExampleValue
  | text (value : Str)
  | number (printed : Str)
  | boolean (value : Bool)

/-- A column with its example. -/
structure DictionaryColumn extends Column where
  exampleValue : Option ExampleValue

/-- A table with such columns. -/
structure DictionaryNode where
  id : Str
  title : Str
  comment : Option Str
  columns : List DictionaryColumn

/-- `exampleValue(column.example_value)` -/
def exampleText : Option ExampleValue → Str
  | none => []
  | some (.text value) => value
  | some (.number printed) => printed
  | some (.boolean value) => if value then "true".toList else "false".toList

/-- What a table is called in the dictionary. -/
def DictionaryNode.tableName (node : DictionaryNode) : Str := JsStr.orElse node.title node.id

/-! ## Foreign keys -/

/-- What the edges that begin at a table say of its columns. -/
structure ForeignKeyNodeInfo where
  columns : List Str
  handles : List Str

/-- The columns that the data of an edge names on its source. -/
def sourceColumnsForEdge (edge : Edge) : List Str :=
  ((edge.data.bind EdgeData.sourceColumns).getD []).filter (· ≠ [])

/-- `foreignKeyColumnsByNode` -/
def foreignKeyColumnsByNode (edges : List Edge) : Dict Str ForeignKeyNodeInfo :=
  edges.foldl (Dict.upsertAt (fun edge => some edge.source) ⟨[], []⟩ fun edge info =>
    { columns := info.columns ++ sourceColumnsForEdge edge
      handles := info.handles ++ edge.sourceHandle.toList.filter (· ≠ []) }) .empty

/-- `isForeignKeyColumn`: an edge names the column, or has its handle. -/
def isForeignKeyColumn (edgeColumnsByNode : Dict Str ForeignKeyNodeInfo) (node : DictionaryNode)
    (columnName : Str) : Bool :=
  match edgeColumnsByNode.get? node.id with
  | none => false
  | some info =>
      columnName ∈ info.columns || sourceColumnHandleId columnName ∈ info.handles

/-! ## Cells -/

/-- `CONTROL_TEXT_RE` -/
def isControl (ch : Char) : Bool := ch.toNat ≤ 0x1F || ch.toNat = 0x7F

/-- Each run of control characters is replaced by a blank; whether the character before was
    one. -/
def replaceControls : Bool → Str → Str
  | _, [] => []
  | replaced, ch :: s =>
      if isControl ch then (if replaced then [] else [' ']) ++ replaceControls true s
      else ch :: replaceControls false s

/-- `cellText`: each run of control characters becomes one blank. -/
def cellText (value : Str) : Str := replaceControls false value

/-- `CSV_FORMULA_RE.test(text.trimStart())` -/
def startsFormula (text : Str) : Bool :=
  match text.dropWhile JsStr.isSpace with
  | [] => false
  | ch :: _ => ch ∈ "=+-@".toList

/-- A text that a spreadsheet would compute gets an apostrophe before it. -/
def neutralized (text : Str) : Str := if startsFormula text then '\'' :: text else text

/-- `csvCell` -/
def csvCell (value : Str) : Str :=
  "\"".toList ++ replaceChar '"' "\"\"".toList (neutralized (cellText value)) ++ "\"".toList

/-! ## Rows -/

/-- The first row. -/
def csvHeader : List Str :=
  ["Table Name".toList, "Table Comment".toList, "Column Name".toList, "Data Type".toList,
    "PK".toList, "FK".toList, "Not Null".toList, "Column Comment".toList, "Example Value".toList]

/-- `flag ? 'Y' : 'N'` -/
def yesNo (flag : Bool) : Str := if flag then "Y".toList else "N".toList

/-- The rows of a table, before cells are quoted. -/
def csvRows (fkColumnsByNode : Dict Str ForeignKeyNodeInfo) (node : DictionaryNode) :
    List (List Str) :=
  let tableComment := node.comment.getD []
  if node.columns = [] then [[node.tableName, tableComment, [], [], [], [], [], [], []]]
  else node.columns.map fun column =>
    [node.tableName, tableComment, column.columnName, column.dataType, yesNo column.isPk,
      yesNo (isForeignKeyColumn fkColumnsByNode node column.columnName), yesNo column.isNotNull,
      column.columnComment.getD [], exampleText column.exampleValue]

/-- `exportDictionaryCsv` -/
def exportDictionaryCsv (nodes : List DictionaryNode) (edges : List Edge) : Str :=
  let rows := csvHeader :: nodes.flatMap (csvRows (foreignKeyColumnsByNode edges))
  join "\n".toList (rows.map fun row => join ",".toList (row.map csvCell))

/-! ## What the cells are to hold -/

/-- A control character: one below the blank, or the delete character. -/
def IsControl (ch : Char) : Prop := ch.toNat < 32 ∨ ch.toNat = 127

/-- The second text is the first one with each run of control characters as one blank. -/
inductive Normalized : Str → Str → Prop
  | nil : Normalized [] []
  | keep {ch : Char} {s t : Str} : ¬ IsControl ch → Normalized s t →
      Normalized (ch :: s) (ch :: t)
  | run {controls s t : Str} : controls ≠ [] → (∀ ch ∈ controls, IsControl ch) →
      (∀ ch ∈ s.head?, ¬ IsControl ch) → Normalized s t → Normalized (controls ++ s) (' ' :: t)

/-- A spreadsheet takes the text for a formula, whatever blanks stand before it. -/
def IsFormula (text : Str) : Prop :=
  ∃ blanks ch rest, text = blanks ++ ch :: rest ∧ (∀ b ∈ blanks, JsStr.isSpace b = true) ∧
    (ch = '=' ∨ ch = '+' ∨ ch = '-' ∨ ch = '@')

/-- The cell of a text: the text with its runs of control characters as blanks, and with an
    apostrophe in front where it is a formula. -/
def IsCsvText (source cell : Str) : Prop :=
  ∃ text, Normalized source text ∧
    (IsFormula text ∧ cell = '\'' :: text ∨ ¬ IsFormula text ∧ cell = text)

/-- A column of a table is a foreign key when an edge that leaves the table names it, or starts
    at its handle. -/
def isForeignKey (edges : List Edge) (nodeId columnName : Str) : Bool :=
  edges.any fun edge => edge.source = nodeId &&
    ((columnName ≠ [] && (edge.data.bind EdgeData.sourceColumns).any (columnName ∈ ·)) ||
      edge.sourceHandle = some (sourceColumnHandleId columnName))

/-- What is shown of an example. -/
def exampleSource : Option ExampleValue → Str
  | none => []
  | some (.text value) => value
  | some (.number printed) => printed
  | some (.boolean true) => "true".toList
  | some (.boolean false) => "false".toList

/-- The source texts of the nine cells of a column. -/
def csvSources (edges : List Edge) (node : DictionaryNode) (column : DictionaryColumn) :
    List Str :=
  [if node.title = [] then node.id else node.title,
    node.comment.getD [],
    column.columnName,
    column.dataType,
    if column.isPk then ['Y'] else ['N'],
    if isForeignKey edges node.id column.columnName then ['Y'] else ['N'],
    if column.isNotNull then ['Y'] else ['N'],
    column.columnComment.getD [],
    exampleSource column.exampleValue]

/-- Those of a table: one row for each column, and one with name and comment where it has
    none. -/
def tableSources (edges : List Edge) (node : DictionaryNode) : List (List Str) :=
  if node.columns = [] then
    [[if node.title = [] then node.id else node.title, node.comment.getD [],
      [], [], [], [], [], [], []]]
  else node.columns.map (csvSources edges node)

/-! ## Control characters -/

theorem isControl_iff (ch : Char) : isControl ch = true ↔ IsControl ch := by
  rw [isControl, IsControl, Bool.or_eq_true, decide_eq_true_eq, decide_eq_true_eq]
  omega

theorem replaceControls_run (replaced : Bool) {controls : Str} (s : Str) (hne : controls ≠ [])
    (h : ∀ ch ∈ controls, IsControl ch) :
    replaceControls replaced (controls ++ s) =
      (if replaced then [] else [' ']) ++ replaceControls true s := by
  induction controls generalizing replaced with
  | nil => exact absurd rfl hne
  | cons ch controls ih =>
      have hch : isControl ch = true := (isControl_iff ch).mpr (h ch List.mem_cons_self)
      rw [List.cons_append, replaceControls, if_pos hch]
      by_cases hcontrols : controls = []
      · rw [hcontrols, List.nil_append]
      · rw [ih true hcontrols fun c hc => h c (List.mem_cons_of_mem ch hc)]
        rfl

theorem replaceControls_of_head {s : Str} (h : ∀ ch ∈ s.head?, ¬ IsControl ch) :
    replaceControls true s = replaceControls false s := by
  cases s with
  | nil => rfl
  | cons ch s =>
      have hch : ¬ isControl ch = true := fun he => h ch rfl ((isControl_iff ch).mp he)
      rw [replaceControls, replaceControls, if_neg hch, if_neg hch]

/-- **The text of a cell** is the one with each run of control characters as one blank. -/
theorem normalized_iff {source text : Str} : Normalized source text ↔ text = cellText source := by
  constructor
  · intro h
    induction h with
    | nil => rfl
    | @keep ch s t hch _ ih =>
        have hch : ¬ isControl ch = true := fun he => hch ((isControl_iff ch).mp he)
        rw [cellText, replaceControls, if_neg hch, ih, cellText]
    | run hne hall hstop _ ih =>
        rw [cellText, replaceControls_run false _ hne hall, replaceControls_of_head hstop, ih]
        rfl
  · rintro rfl
    -- By the length of the text: a run is taken off at once.
    induction hn : source.length using Nat.strongRecOn generalizing source with
    | ind n ih =>
        subst hn
        cases source with
        | nil => exact .nil
        | cons ch s =>
            by_cases hch : isControl ch = true
            · have hsplit := List.takeWhile_append_dropWhile (p := isControl) (l := ch :: s)
              have hne : (ch :: s).takeWhile isControl ≠ [] := by
                rw [List.takeWhile_cons_of_pos hch]
                exact List.cons_ne_nil _ _
              have hall : ∀ c ∈ (ch :: s).takeWhile isControl, IsControl c :=
                fun c hc => (isControl_iff c).mp (List.mem_takeWhile_imp hc)
              have hstop : ∀ c ∈ ((ch :: s).dropWhile isControl).head?, ¬ IsControl c := by
                intro c hc hcontrol
                have hnot := List.head?_dropWhile_not isControl (ch :: s)
                rw [Option.mem_def.mp hc] at hnot
                exact absurd ((isControl_iff c).mpr hcontrol) (by simpa using hnot)
              have hshort : ((ch :: s).dropWhile isControl).length < (ch :: s).length := by
                rw [List.dropWhile_cons_of_pos hch]
                exact Nat.lt_succ_of_le (List.dropWhile_suffix isControl).length_le
              have hrun := Normalized.run hne hall hstop (ih _ hshort rfl)
              have hcell : cellText (ch :: s) =
                  ' ' :: cellText ((ch :: s).dropWhile isControl) := by
                rw [cellText, cellText, ← replaceControls_of_head hstop]
                conv_lhs => rw [← hsplit]
                rw [replaceControls_run false _ hne hall]
                rfl
              rw [hcell]
              rwa [hsplit] at hrun
            · rw [cellText, replaceControls, if_neg hch]
              exact .keep (fun hc => hch ((isControl_iff ch).mpr hc)) (ih s.length (by simp) rfl)

theorem not_isControl_of_mem {replaced : Bool} {value : Str} {ch : Char}
    (h : ch ∈ replaceControls replaced value) : isControl ch = false := by
  induction value generalizing replaced with
  | nil => exact absurd h List.not_mem_nil
  | cons first value ih =>
      rw [replaceControls] at h
      by_cases hfirst : isControl first = true
      · rw [if_pos hfirst] at h
        rcases List.mem_append.mp h with h | h
        · cases replaced with
          | true => exact absurd h List.not_mem_nil
          | false => rw [List.mem_singleton.mp h]; rfl
        · exact ih h
      · rw [if_neg hfirst] at h
        rcases List.mem_cons.mp h with rfl | h
        · exact Bool.eq_false_of_not_eq_true hfirst
        · exact ih h

/-! ## Formulas -/

theorem startsFormula_iff (text : Str) : startsFormula text = true ↔ IsFormula text := by
  have hsign (ch : Char) : decide (ch ∈ "=+-@".toList) = true ↔
      (ch = '=' ∨ ch = '+' ∨ ch = '-' ∨ ch = '@') := by
    simp
  constructor
  · intro h
    rw [startsFormula] at h
    cases hrest : text.dropWhile JsStr.isSpace with
    | nil =>
        rw [hrest] at h
        exact absurd h Bool.false_ne_true
    | cons ch rest =>
        rw [hrest] at h
        refine ⟨text.takeWhile JsStr.isSpace, ch, rest, ?_,
          fun b hb => List.mem_takeWhile_imp hb, (hsign ch).mp h⟩
        rw [← hrest, List.takeWhile_append_dropWhile]
  · rintro ⟨blanks, ch, rest, rfl, hblanks, hch⟩
    have hvisible : JsStr.isSpace ch = false := by
      rcases hch with rfl | rfl | rfl | rfl <;> decide
    have hdrop : (blanks ++ ch :: rest).dropWhile JsStr.isSpace = ch :: rest := by
      rw [List.dropWhile_append_of_pos hblanks, List.dropWhile_cons_of_neg (by simp [hvisible])]
    rw [startsFormula, hdrop]
    exact (hsign ch).mpr hch

/-- What a reader finds in the cell of a text. -/
def csvText (value : Str) : Str := neutralized (cellText value)

theorem isCsvText_csvText (value : Str) : IsCsvText value (csvText value) := by
  refine ⟨cellText value, normalized_iff.mpr rfl, ?_⟩
  rw [← startsFormula_iff, csvText, neutralized]
  by_cases hformula : startsFormula (cellText value) = true
  · exact .inl ⟨hformula, if_pos hformula⟩
  · exact .inr ⟨hformula, if_neg hformula⟩

/-- No cell is a formula, whatever blanks stand before it. -/
theorem IsCsvText.not_isFormula {source cell : Str} (h : IsCsvText source cell) :
    ¬ IsFormula cell := by
  obtain ⟨text, -, ⟨-, rfl⟩ | ⟨hformula, rfl⟩⟩ := h
  · rw [← startsFormula_iff]
    exact Bool.false_ne_true
  · exact hformula

/-! ## Foreign keys of the edges -/

/-- The handle that an edge leaves from, where it has one. -/
def handlesOfEdge (edge : Edge) : List Str := edge.sourceHandle.toList.filter (· ≠ [])

/-- What is kept of a table: the columns and the handles of the edges that leave it. -/
theorem get?_foreignKeyColumnsByNode (edges : List Edge) (id : Str) :
    (foreignKeyColumnsByNode edges).get? id =
      if edges.filter (fun edge => edge.source = id) = [] then none
      else some ⟨(edges.filter fun edge => edge.source = id).flatMap sourceColumnsForEdge,
        (edges.filter fun edge => edge.source = id).flatMap handlesOfEdge⟩ := by
  have hfold (leaving : List Edge) (info : ForeignKeyNodeInfo) :
      leaving.foldl (fun info edge => ForeignKeyNodeInfo.mk
        (info.columns ++ sourceColumnsForEdge edge) (info.handles ++ handlesOfEdge edge)) info =
      ⟨info.columns ++ leaving.flatMap sourceColumnsForEdge,
        info.handles ++ leaving.flatMap handlesOfEdge⟩ := by
    induction leaving generalizing info with
    | nil => simp
    | cons edge leaving ih => simp [ih]
  have hfilter : edges.filter (fun edge => some edge.source = some id) =
      edges.filter fun edge => edge.source = id := by
    simp only [Option.some.injEq]
  rw [foreignKeyColumnsByNode, Dict.get?_foldl_upsertAt, hfilter]
  split_ifs
  · rfl
  · exact congrArg some (hfold _ ⟨[], []⟩)

theorem isForeignKeyColumn_eq (edges : List Edge) (node : DictionaryNode) (columnName : Str) :
    isForeignKeyColumn (foreignKeyColumnsByNode edges) node columnName =
      isForeignKey edges node.id columnName := by
  have hhandle : sourceColumnHandleId columnName ≠ [] := by simp [sourceColumnHandleId]
  have hcolumns (edge : Edge) : columnName ∈ sourceColumnsForEdge edge ↔
      columnName ≠ [] ∧ (edge.data.bind EdgeData.sourceColumns).any (columnName ∈ ·) = true := by
    rw [sourceColumnsForEdge, List.mem_filter, decide_eq_true_eq, and_comm]
    cases edge.data.bind EdgeData.sourceColumns <;> simp
  have hhandles (edge : Edge) : sourceColumnHandleId columnName ∈ handlesOfEdge edge ↔
      edge.sourceHandle = some (sourceColumnHandleId columnName) := by
    rw [handlesOfEdge, List.mem_filter, Option.mem_toList]
    simp [hhandle]
  rw [Bool.eq_iff_iff, isForeignKeyColumn, get?_foreignKeyColumnsByNode, isForeignKey,
    List.any_eq_true]
  split_ifs with hnone
  · refine iff_of_false (by simp) ?_
    rintro ⟨edge, hedge, hsource⟩
    rw [Bool.and_eq_true, decide_eq_true_eq] at hsource
    have hmem : edge ∈ edges.filter fun edge => edge.source = node.id :=
      List.mem_filter.mpr ⟨hedge, decide_eq_true hsource.1⟩
    rw [hnone] at hmem
    exact absurd hmem List.not_mem_nil
  · simp only [Bool.or_eq_true, decide_eq_true_eq, List.mem_flatMap, List.mem_filter, hcolumns,
      hhandles, Bool.and_eq_true]
    constructor
    · rintro (⟨edge, ⟨hedge, hsource⟩, hname⟩ | ⟨edge, ⟨hedge, hsource⟩, hname⟩)
      · exact ⟨edge, hedge, hsource, .inl hname⟩
      · exact ⟨edge, hedge, hsource, .inr hname⟩
    · rintro ⟨edge, hedge, hsource, hname | hname⟩
      · exact .inl ⟨edge, ⟨hedge, hsource⟩, hname⟩
      · exact .inr ⟨edge, ⟨hedge, hsource⟩, hname⟩

/-! ## What is read back -/

theorem exportDictionaryCsv_eq (nodes : List DictionaryNode) (edges : List Edge) :
    exportDictionaryCsv nodes edges =
      Csv.write ((csvHeader :: nodes.flatMap (csvRows (foreignKeyColumnsByNode edges))).map
        fun row => row.map csvText) := by
  have hrow (row : List Str) : join ",".toList (row.map csvCell) =
      Csv.writeRecord (row.map csvText) := by
    rw [Csv.writeRecord, List.map_map]
    rfl
  rw [exportDictionaryCsv, Csv.write, List.map_map]
  exact congrArg (join "\n".toList) (List.map_congr_left fun row _ => hrow row)

theorem exampleText_eq (value : Option ExampleValue) : exampleText value = exampleSource value := by
  rcases value with _ | value | printed | (_ | _) <;> rfl

/-- The rows of the exporter are those of the fields. -/
theorem csvRows_eq (edges : List Edge) (node : DictionaryNode) :
    csvRows (foreignKeyColumnsByNode edges) node = tableSources edges node := by
  by_cases hcolumns : node.columns = []
  · rw [csvRows, tableSources, if_pos hcolumns, if_pos hcolumns]
    rfl
  · rw [csvRows, tableSources, if_neg hcolumns, if_neg hcolumns]
    refine List.map_congr_left fun column _ => ?_
    rw [isForeignKeyColumn_eq, exampleText_eq]
    rfl

theorem length_of_mem_tableSources {edges : List Edge} {node : DictionaryNode} {row : List Str}
    (h : row ∈ tableSources edges node) : row.length = 9 := by
  by_cases hcolumns : node.columns = []
  · rw [tableSources, if_pos hcolumns] at h
    rw [List.mem_singleton.mp h]
    rfl
  · rw [tableSources, if_neg hcolumns] at h
    obtain ⟨column, -, rfl⟩ := List.mem_map.mp h
    rfl

theorem length_tableSources (edges : List Edge) (node : DictionaryNode) :
    (tableSources edges node).length = max 1 node.columns.length := by
  by_cases hcolumns : node.columns = []
  · rw [tableSources, if_pos hcolumns, hcolumns]
    rfl
  · have hpos := List.length_pos_iff.mpr hcolumns
    rw [tableSources, if_neg hcolumns, List.length_map]
    omega

/-- The records of an export: the header, and one for each column, or one for a table without
    columns. Each cell is that of its source text, and none is a formula. -/
structure CsvLossless (nodes : List DictionaryNode) (edges : List Edge)
    (records : List (List Str)) : Prop where
  header : records.head? = some ["Table Name".toList, "Table Comment".toList,
    "Column Name".toList, "Data Type".toList, "PK".toList, "FK".toList, "Not Null".toList,
    "Column Comment".toList, "Example Value".toList]
  texts : List.Forall₂ (List.Forall₂ IsCsvText) (nodes.flatMap (tableSources edges)) records.tail
  rows : ∀ node, (tableSources edges node).length = max 1 node.columns.length
  count : records.length = 1 + (nodes.map fun node => max 1 node.columns.length).sum
  cells : ∀ record ∈ records, record.length = 9
  safe : ∀ record ∈ records, ∀ cell ∈ record, ¬ IsFormula cell

/-- **The values can be read back**: a reader finds the header and one row for each column,
    or one for a table without columns, in nine cells that hold the texts of the fields. -/
theorem exportDictionaryCsv_lossless (nodes : List DictionaryNode) (edges : List Edge) :
    ∃ records, Csv.read (exportDictionaryCsv nodes edges) = some records ∧
      CsvLossless nodes edges records := by
  set sources := nodes.flatMap (tableSources edges) with hsources
  have hnine : ∀ row ∈ csvHeader :: sources, row.length = 9 := by
    intro row hrow
    rcases List.mem_cons.mp hrow with rfl | hrow
    · rfl
    · obtain ⟨node, -, hrow⟩ := List.mem_flatMap.mp hrow
      exact length_of_mem_tableSources hrow
  have hcells : ∀ record ∈ (csvHeader :: sources).map fun row => row.map csvText,
      record.length = 9 := by
    intro record hrecord
    obtain ⟨row, hrow, rfl⟩ := List.mem_map.mp hrecord
    rw [List.length_map, hnine row hrow]
  refine ⟨(csvHeader :: sources).map fun row => row.map csvText, ?_, ⟨?_, ?_,
    length_tableSources edges, ?_, hcells, ?_⟩⟩
  · have hrows : nodes.flatMap (csvRows (foreignKeyColumnsByNode edges)) = sources :=
      List.flatMap_congr fun node _ => csvRows_eq edges node
    rw [exportDictionaryCsv_eq, hrows]
    refine Csv.read_write fun record hrecord => ?_
    rw [← List.length_pos_iff, hcells record hrecord]
    decide
  · have hheader : csvHeader.map csvText = csvHeader := by decide
    rw [List.map_cons, List.head?_cons, hheader]
    rfl
  · rw [List.map_cons, List.tail_cons, List.forall₂_map_right_iff]
    refine List.forall₂_same.mpr fun row _ => ?_
    rw [List.forall₂_map_right_iff]
    exact List.forall₂_same.mpr fun value _ => isCsvText_csvText value
  · rw [List.length_map, List.length_cons, hsources, List.length_flatMap]
    simp only [length_tableSources]
    omega
  · intro record hrecord cell hcell
    obtain ⟨row, -, rfl⟩ := List.mem_map.mp hrecord
    obtain ⟨value, -, rfl⟩ := List.mem_map.mp hcell
    exact (isCsvText_csvText value).not_isFormula

end PgErdCloud.Canvas
