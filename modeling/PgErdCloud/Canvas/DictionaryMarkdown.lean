/-
  The data dictionary of the diagram as Markdown (`exportDictionaryMarkdown` of
  erd/exportDataDictionary.ts), which a reader of tables finds again: the lines that are rows
  are those of the tables, and without their escapes the cells are the texts of the fields, each
  run of control characters as one blank.

  `exportDictionaryMarkdown_intact` says so for all nodes and edges.
-/
import PgErdCloud.Canvas.Dictionary
import PgErdCloud.Lib.Markdown

namespace PgErdCloud.Canvas

open Lib Lib.PyStr

/-! ## Cells -/

/-- `MARKDOWN_ESCAPE_RE` -/
def markdownEscapes : List Char := "\\|`[]()".toList

/-- `markdownText`: entities, and then Markdown's own characters, are escaped. -/
def markdownText (value : Str) : Str :=
  Markdown.escape markdownEscapes (Markdown.escapeEntities (cellText value))

/-- What the text of a cell stands for. -/
def shownText (cell : Str) : Str := Markdown.unescapeEntities (Markdown.unescape cell)

theorem shownText_markdownText (value : Str) : shownText (markdownText value) = cellText value := by
  have hpunctuation : ∀ ch ∈ markdownEscapes, Markdown.isPunctuation ch = true :=
    List.all_eq_true.mp (by decide)
  rw [shownText, markdownText, Markdown.unescape_escape (by decide) hpunctuation,
    Markdown.unescapeEntities_escapeEntities]

theorem unescapedPipes_markdownText (value : Str) :
    Markdown.unescapedPipes (markdownText value) = 0 :=
  Markdown.unescapedPipes_escape (by decide) (by decide) _

theorem singleLine_markdownText (value : Str) : Markdown.SingleLine (markdownText value) := by
  have hcell : Markdown.SingleLine (cellText value) :=
    ⟨fun h => absurd (not_isControl_of_mem h) (by decide),
      fun h => absurd (not_isControl_of_mem h) (by decide)⟩
  exact hcell.escapeEntities.escape _

/-! ## Lines -/

/-- The header of a table. -/
def markdownHeader : Str :=
  "| Column Name | Data Type | PK | FK | Not Null | Comment | Example |".toList

/-- The line below the header. -/
def markdownDelimiter : Str := "|---|---|---|---|---|---|---|".toList

/-- The texts of the cells of a column. -/
def columnCells (fkColumnsByNode : Dict Str ForeignKeyNodeInfo) (node : DictionaryNode)
    (column : DictionaryColumn) : List Str :=
  [markdownText column.columnName, markdownText column.dataType, yesNo column.isPk,
    yesNo (isForeignKeyColumn fkColumnsByNode node column.columnName), yesNo column.isNotNull,
    markdownText (column.columnComment.getD []), markdownText (exampleText column.exampleValue)]

/-- The row of a column. -/
def columnLine (fkColumnsByNode : Dict Str ForeignKeyNodeInfo) (node : DictionaryNode)
    (column : DictionaryColumn) : Str :=
  "| ".toList ++ join " | ".toList (columnCells fkColumnsByNode node column) ++ " |".toList

/-- The heading of a table, with its comment. -/
def tableHeading (node : DictionaryNode) : Str :=
  let tableComment := node.comment.getD []
  "## Table: ".toList ++ markdownText node.tableName ++
    if tableComment = [] then []
    else " (".toList ++ markdownText tableComment ++ ")".toList

/-- The lines of a table. -/
def tableLines (fkColumnsByNode : Dict Str ForeignKeyNodeInfo) (node : DictionaryNode) :
    List Str :=
  tableHeading node ::
    if node.columns = [] then ["No columns.".toList, []]
    else markdownHeader :: markdownDelimiter ::
      (node.columns.map (columnLine fkColumnsByNode node) ++ [[]])

/-- `exportDictionaryMarkdown` -/
def exportDictionaryMarkdown (nodes : List DictionaryNode) (edges : List Edge) : Str :=
  let lines : List Str := ["# Data Dictionary".toList, []]
  if nodes = [] then join "\n".toList (lines ++ ["No tables found.".toList])
  else JsStr.trim (join "\n".toList
    (lines ++ nodes.flatMap (tableLines (foreignKeyColumnsByNode edges))))

/-! ## The lines of the text -/

theorem columnLine_eq (fkColumnsByNode : Dict Str ForeignKeyNodeInfo) (node : DictionaryNode)
    (column : DictionaryColumn) : columnLine fkColumnsByNode node column =
      Markdown.row (columnCells fkColumnsByNode node column) :=
  Markdown.row_eq_join (List.cons_ne_nil _ _)

theorem unescapedPipes_yesNo (flag : Bool) : Markdown.unescapedPipes (yesNo flag) = 0 := by
  cases flag <;> rfl

theorem unescapedPipes_columnCells {fkColumnsByNode : Dict Str ForeignKeyNodeInfo}
    {node : DictionaryNode} {column : DictionaryColumn} :
    ∀ cell ∈ columnCells fkColumnsByNode node column, Markdown.unescapedPipes cell = 0 := by
  simp only [columnCells, List.mem_cons, List.not_mem_nil, or_false, forall_eq_or_imp, forall_eq,
    unescapedPipes_markdownText, unescapedPipes_yesNo, and_self]

theorem unescapedPipes_columnLine (fkColumnsByNode : Dict Str ForeignKeyNodeInfo)
    (node : DictionaryNode) (column : DictionaryColumn) :
    Markdown.unescapedPipes (columnLine fkColumnsByNode node column) = 8 := by
  have hsum : ((columnCells fkColumnsByNode node column).map Markdown.unescapedPipes).sum = 0 := by
    refine List.sum_eq_zero fun n hn => ?_
    obtain ⟨cell, hcell, rfl⟩ := List.mem_map.mp hn
    exact unescapedPipes_columnCells cell hcell
  rw [columnLine_eq, Markdown.unescapedPipes_row, hsum]
  rfl

theorem unescapedPipes_tableHeading (node : DictionaryNode) :
    Markdown.unescapedPipes (tableHeading node) = 0 := by
  have hname : Markdown.unescapedPipes ("## Table:".toList ++ ' ' :: markdownText node.tableName) =
      0 := by
    rw [Markdown.unescapedPipes_append_blank, unescapedPipes_markdownText]
    rfl
  have hcomment (comment : Str) :
      Markdown.unescapedPipes ('(' :: (markdownText comment ++ ")".toList)) = 0 := by
    have hclose (odd : Bool) : Markdown.pipes false odd ")".toList = 0 := by cases odd <;> rfl
    have hfirst : Markdown.unescapedPipes ('(' :: (markdownText comment ++ ")".toList)) =
        Markdown.pipes false false (markdownText comment ++ ")".toList) := Nat.zero_add _
    rw [hfirst, Markdown.pipes_append, hclose, Nat.add_zero]
    exact unescapedPipes_markdownText comment
  dsimp only [tableHeading]
  split_ifs with hempty
  · rw [List.append_nil]
    exact hname
  · have hsplit : "## Table: ".toList ++ markdownText node.tableName ++
        (" (".toList ++ markdownText (node.comment.getD []) ++ ")".toList) =
        ("## Table:".toList ++ ' ' :: markdownText node.tableName) ++
          ' ' :: ('(' :: (markdownText (node.comment.getD []) ++ ")".toList)) := by
      simp
    rw [hsplit, Markdown.unescapedPipes_append_blank, hname, hcomment]

theorem singleLine_yesNo (flag : Bool) : Markdown.SingleLine (yesNo flag) := by
  cases flag <;> decide

theorem singleLine_columnLine (fkColumnsByNode : Dict Str ForeignKeyNodeInfo)
    (node : DictionaryNode) (column : DictionaryColumn) :
    Markdown.SingleLine (columnLine fkColumnsByNode node column) := by
  have hcells : ∀ cell ∈ columnCells fkColumnsByNode node column, Markdown.SingleLine cell := by
    simp only [columnCells, List.mem_cons, List.not_mem_nil, or_false, forall_eq_or_imp,
      forall_eq, singleLine_markdownText, singleLine_yesNo, and_self]
  exact Markdown.singleLine_append.mpr ⟨Markdown.singleLine_append.mpr
    ⟨by decide, Markdown.singleLine_join (by decide) hcells⟩, by decide⟩

theorem singleLine_tableHeading (node : DictionaryNode) :
    Markdown.SingleLine (tableHeading node) := by
  have hname : Markdown.SingleLine ("## Table: ".toList ++ markdownText node.tableName) :=
    Markdown.singleLine_append.mpr ⟨by decide, singleLine_markdownText _⟩
  dsimp only [tableHeading]
  split_ifs with hempty
  · exact Markdown.singleLine_append.mpr ⟨hname, by decide⟩
  · exact Markdown.singleLine_append.mpr ⟨hname, Markdown.singleLine_append.mpr
      ⟨Markdown.singleLine_append.mpr ⟨by decide, singleLine_markdownText _⟩, by decide⟩⟩

theorem singleLine_of_mem_tableLines {fkColumnsByNode : Dict Str ForeignKeyNodeInfo}
    {node : DictionaryNode} {line : Str} (h : line ∈ tableLines fkColumnsByNode node) :
    Markdown.SingleLine line := by
  rw [tableLines, List.mem_cons] at h
  rcases h with rfl | h
  · exact singleLine_tableHeading node
  · split_ifs at h with hcolumns
    · have hall : ∀ line ∈ ["No columns.".toList, []], Markdown.SingleLine line := by decide
      exact hall line h
    · rw [List.mem_cons, List.mem_cons, List.mem_append, List.mem_singleton] at h
      rcases h with rfl | rfl | h | rfl
      · decide
      · decide
      · obtain ⟨column, -, rfl⟩ := List.mem_map.mp h
        exact singleLine_columnLine fkColumnsByNode node column
      · decide

/-- The lines of a table end in a line that is not blank and one that is empty. -/
theorem exists_tableLines_eq (fkColumnsByNode : Dict Str ForeignKeyNodeInfo)
    (node : DictionaryNode) : ∃ before last, tableLines fkColumnsByNode node =
      before ++ [last] ++ [[]] ∧ ∃ ch, last.getLast? = some ch ∧ JsStr.isSpace ch = false := by
  rw [tableLines]
  rcases List.eq_nil_or_concat node.columns with hnil | ⟨columns, column, hcolumns⟩
  · rw [if_pos hnil]
    exact ⟨[_], "No columns.".toList, rfl, '.', rfl, rfl⟩
  · rw [if_neg (by simp [hcolumns]), hcolumns]
    refine ⟨tableHeading node :: markdownHeader :: markdownDelimiter ::
      columns.map (columnLine fkColumnsByNode node), columnLine fkColumnsByNode node column,
      by simp, '|', ?_, rfl⟩
    have hend : " |".toList = [' '] ++ ['|'] := rfl
    rw [columnLine, hend, ← List.append_assoc, List.getLast?_concat]

/-- What stands between two characters that are not blank is not trimmed. -/
theorem trim_append_blank {s : Str} {ch first last : Char} (hblank : JsStr.isSpace ch = true)
    (hhead : s.head? = some first) (hfirst : JsStr.isSpace first = false)
    (hgetLast : s.getLast? = some last) (hlast : JsStr.isSpace last = false) :
    JsStr.trim (s ++ [ch]) = s := by
  obtain ⟨rest, rfl⟩ := List.head?_eq_some_iff.mp hhead
  have hleft : (first :: rest ++ [ch]).dropWhile JsStr.isSpace = first :: rest ++ [ch] := by
    rw [List.cons_append, List.dropWhile_cons_of_neg (by simp [hfirst])]
  obtain ⟨front, hfront⟩ := List.getLast?_eq_some_iff.mp hgetLast
  rw [JsStr.trim, hleft, hfront, List.reverse_append, List.reverse_singleton,
    List.singleton_append, List.dropWhile_cons_of_pos hblank, List.reverse_append,
    List.reverse_singleton, List.singleton_append, List.dropWhile_cons_of_neg (by simp [hlast]),
    List.reverse_cons, List.reverse_reverse]

/-- The lines of the document before it is trimmed. -/
def documentLines (nodes : List DictionaryNode) (edges : List Edge) : List Str :=
  ["# Data Dictionary".toList, []] ++
    nodes.flatMap (tableLines (foreignKeyColumnsByNode edges))

theorem singleLine_of_mem_documentLines {nodes : List DictionaryNode} {edges : List Edge}
    {line : Str} (h : line ∈ documentLines nodes edges) : Markdown.SingleLine line := by
  rcases List.mem_append.mp h with h | h
  · have hall : ∀ line ∈ ["# Data Dictionary".toList, []], Markdown.SingleLine line := by decide
    exact hall line h
  · obtain ⟨node, -, h⟩ := List.mem_flatMap.mp h
    exact singleLine_of_mem_tableLines h

/-- Trimming takes the last line, which is empty. -/
theorem lines_exportDictionaryMarkdown {nodes : List DictionaryNode} (edges : List Edge)
    (hne : nodes ≠ []) :
    Markdown.lines (exportDictionaryMarkdown nodes edges) ++ [[]] = documentLines nodes edges := by
  obtain ⟨init, node, hnodes⟩ := (List.eq_nil_or_concat nodes).resolve_left hne
  rw [List.concat_eq_append] at hnodes
  subst hnodes
  obtain ⟨before, last, htable, ch, hlast, hch⟩ :=
    exists_tableLines_eq (foreignKeyColumnsByNode edges) node
  set kept := ["# Data Dictionary".toList, []] ++
    (init.flatMap (tableLines (foreignKeyColumnsByNode edges)) ++ (before ++ [last])) with hkept
  have hdocument : documentLines (init ++ [node]) edges = kept ++ [[]] := by
    rw [documentLines, List.flatMap_append, List.flatMap_singleton, htable, hkept]
    simp only [List.append_assoc]
  have hkeptne : kept ≠ [] := List.cons_ne_nil _ _
  have htext : exportDictionaryMarkdown (init ++ [node]) edges =
      JsStr.trim (join "\n".toList kept ++ ['\n']) := by
    have hjoin : join "\n".toList (kept ++ [[]]) = join "\n".toList kept ++ ['\n'] := by
      rw [join_append hkeptne (by simp), join_singleton, List.append_nil]
      rfl
    rw [exportDictionaryMarkdown, if_neg hne, ← hjoin, ← hdocument]
    rfl
  have hhead : (join "\n".toList kept).head? = some '#' := by
    rw [hkept, List.cons_append, join_cons_of_ne_nil _ _ (by simp)]
    rfl
  have hgetLast : (join "\n".toList kept).getLast? = some ch := by
    have hsplit : kept = ["# Data Dictionary".toList, []] ++
        (init.flatMap (tableLines (foreignKeyColumnsByNode edges)) ++ before) ++ [last] := by
      rw [hkept]
      simp only [List.append_assoc]
    rw [hsplit, join_append (by simp) (by simp), join_singleton, List.getLast?_append,
      List.getLast?_append, hlast]
    rfl
  rw [htext, trim_append_blank rfl hhead rfl hgetLast hch, hdocument,
    Markdown.lines_join ?_ hkeptne]
  intro line hline
  have hmem : line ∈ documentLines (init ++ [node]) edges := by
    rw [hdocument]
    exact List.mem_append_left _ hline
  exact singleLine_of_mem_documentLines hmem

/-! ## What is read back -/

/-- The source texts of the seven cells of a column. -/
def markdownSources (edges : List Edge) (node : DictionaryNode) (column : DictionaryColumn) :
    List Str :=
  [column.columnName,
    column.dataType,
    if column.isPk then ['Y'] else ['N'],
    if isForeignKey edges node.id column.columnName then ['Y'] else ['N'],
    if column.isNotNull then ['Y'] else ['N'],
    column.columnComment.getD [],
    exampleSource column.exampleValue]

/-- The texts above the columns. -/
def headerTexts : List Str :=
  ["Column Name".toList, "Data Type".toList, "PK".toList, "FK".toList, "Not Null".toList,
    "Comment".toList, "Example".toList]

/-- The source texts of the rows of a table, of which one without columns has none. -/
def rowSources (edges : List Edge) (node : DictionaryNode) : List (List Str) :=
  if node.columns = [] then []
  else headerTexts :: List.replicate 7 "---".toList ::
    node.columns.map (markdownSources edges node)

/-- What a reader takes for the cells of a row, where a line is one. -/
def readRow (line : Str) : Option (List Str) :=
  if Markdown.unescapedPipes line = 8 then some ((Markdown.rawCells line).map shownText) else none

theorem shownText_yesNo (flag : Bool) : shownText (yesNo flag) = yesNo flag := by
  cases flag <;> rfl

/-- The line of a column is read as a row, and each cell is its source text. -/
theorem readRow_columnLine (edges : List Edge) (node : DictionaryNode)
    (column : DictionaryColumn) :
    ∃ row, readRow (columnLine (foreignKeyColumnsByNode edges) node column) = some row ∧
      List.Forall₂ Normalized (markdownSources edges node column) row := by
  have hflag (flag : Bool) : Normalized (if flag then ['Y'] else ['N']) (yesNo flag) := by
    cases flag <;> exact normalized_iff.mpr (by decide)
  have htext (value : Str) : Normalized value (cellText value) := normalized_iff.mpr rfl
  refine ⟨_, ?_, .cons (htext _) (.cons (htext _) (.cons (hflag _) (.cons (hflag _)
    (.cons (hflag _) (.cons (htext _) (.cons (htext _) .nil))))))⟩
  rw [readRow, if_pos (unescapedPipes_columnLine _ _ _), columnLine_eq,
    Markdown.rawCells_row unescapedPipes_columnCells]
  simp only [columnCells, List.map_cons, List.map_nil, shownText_markdownText, shownText_yesNo,
    isForeignKeyColumn_eq, exampleText_eq]

theorem readRow_of_unescapedPipes {line : Str} (h : Markdown.unescapedPipes line = 0) :
    readRow line = none := by
  rw [readRow, h]
  rfl

/-- A text without control characters stays as it is. -/
theorem normalized_self {texts : List Str} (h : ∀ text ∈ texts, cellText text = text) :
    List.Forall₂ Normalized texts texts :=
  List.forall₂_same.mpr fun text htext => normalized_iff.mpr (h text htext).symm

theorem forall₂_readRow_columns (edges : List Edge) (node : DictionaryNode)
    (columns : List DictionaryColumn) :
    List.Forall₂ (List.Forall₂ Normalized) (columns.map (markdownSources edges node))
      ((columns.map (columnLine (foreignKeyColumnsByNode edges) node)).filterMap readRow) := by
  induction columns with
  | nil => exact .nil
  | cons column columns ih =>
      obtain ⟨row, hrow, htexts⟩ := readRow_columnLine edges node column
      rw [List.map_cons, List.map_cons, List.filterMap_cons_some hrow]
      exact .cons htexts ih

/-- The rows of a table. -/
theorem forall₂_readRow_tableLines (edges : List Edge) (node : DictionaryNode) :
    List.Forall₂ (List.Forall₂ Normalized) (rowSources edges node)
      ((tableLines (foreignKeyColumnsByNode edges) node).filterMap readRow) := by
  rw [tableLines, List.filterMap_cons_none
    (readRow_of_unescapedPipes (unescapedPipes_tableHeading node)), rowSources]
  split_ifs with hcolumns
  · exact .nil
  · have hheader : readRow markdownHeader = some headerTexts := by decide
    have hdelimiter : readRow markdownDelimiter = some (List.replicate 7 "---".toList) := by decide
    have hempty : ([[]] : List Str).filterMap readRow = [] := rfl
    rw [List.filterMap_cons_some hheader, List.filterMap_cons_some hdelimiter,
      List.filterMap_append, hempty, List.append_nil]
    exact .cons (normalized_self (by decide)) (.cons (normalized_self (by decide))
      (forall₂_readRow_columns edges node node.columns))

theorem unescapedPipes_of_mem_tableLines {fkColumnsByNode : Dict Str ForeignKeyNodeInfo}
    {node : DictionaryNode} {line : Str} (h : line ∈ tableLines fkColumnsByNode node) :
    Markdown.unescapedPipes line = 0 ∨ Markdown.unescapedPipes line = 8 := by
  rw [tableLines, List.mem_cons] at h
  rcases h with rfl | h
  · exact .inl (unescapedPipes_tableHeading node)
  · split_ifs at h with hcolumns
    · have hall : ∀ line ∈ ["No columns.".toList, []], Markdown.unescapedPipes line = 0 := by
        decide
      exact .inl (hall line h)
    · rw [List.mem_cons, List.mem_cons, List.mem_append, List.mem_singleton] at h
      rcases h with rfl | rfl | h | rfl
      · exact .inr (by decide)
      · exact .inr (by decide)
      · obtain ⟨column, -, rfl⟩ := List.mem_map.mp h
        exact .inr (unescapedPipes_columnLine fkColumnsByNode node column)
      · exact .inl rfl

/-- Rows are told from other lines by their pipes, and are those of the tables: each cell is its
    source text with each run of control characters as one blank. -/
structure MarkdownIntact (nodes : List DictionaryNode) (edges : List Edge) (lines : List Str) :
    Prop where
  pipes : ∀ line ∈ lines, Markdown.unescapedPipes line = 0 ∨ Markdown.unescapedPipes line = 8
  rows : List.Forall₂ (List.Forall₂ Normalized) (nodes.flatMap (rowSources edges))
    (lines.filterMap readRow)

/-- **The tables can be read back**: of each column one line has the pipes of a row, and its
    cells show the texts. -/
theorem exportDictionaryMarkdown_intact (nodes : List DictionaryNode) (edges : List Edge) :
    MarkdownIntact nodes edges (Markdown.lines (exportDictionaryMarkdown nodes edges)) := by
  by_cases hne : nodes = []
  · subst hne
    have hlines : Markdown.lines (exportDictionaryMarkdown [] edges) =
        ["# Data Dictionary".toList, [], "No tables found.".toList] :=
      Markdown.lines_join (by decide) (List.cons_ne_nil _ _)
    rw [hlines]
    have hnone : ["# Data Dictionary".toList, [], "No tables found.".toList].filterMap readRow =
        [] := by decide
    refine ⟨by decide, ?_⟩
    rw [hnone]
    exact .nil
  · have hlines := lines_exportDictionaryMarkdown edges hne
    refine ⟨fun line hline => ?_, ?_⟩
    · have hmem : line ∈ documentLines nodes edges := hlines ▸ List.mem_append_left _ hline
      rcases List.mem_append.mp hmem with hmem | hmem
      · have hall : ∀ line ∈ ["# Data Dictionary".toList, []],
            Markdown.unescapedPipes line = 0 := by decide
        exact .inl (hall line hmem)
      · obtain ⟨node, -, hmem⟩ := List.mem_flatMap.mp hmem
        exact unescapedPipes_of_mem_tableLines hmem
    · have hempty : ([[]] : List Str).filterMap readRow = [] := rfl
      have hheading : (["# Data Dictionary".toList, []] : List Str).filterMap readRow = [] := by
        decide
      have hrows := congrArg (List.filterMap readRow) hlines
      rw [List.filterMap_append, hempty, List.append_nil, documentLines, List.filterMap_append,
        hheading, List.nil_append, List.filterMap_flatMap] at hrows
      rw [hrows]
      have hsame : List.Forall₂ (· = ·) nodes nodes := List.forall₂_same.mpr fun _ _ => rfl
      refine List.rel_flatMap hsame ?_
      rintro node _ rfl
      exact forall₂_readRow_tableLines edges node

end PgErdCloud.Canvas
