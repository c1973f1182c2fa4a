/-
  What the content of a snapshot does to the Markdown tables of its columns. Pipes are escaped,
  but not the backslashes before them, and a carriage return ends a line as a line feed does.

  `tablesIntact_iff` is about every snapshot and both documents; that their texts have these rows
  is `dictionaryRows_in_document` and `reversingRows_in_document`.
-/
import PgErdCloud.Spec.Reversing
import PgErdCloud.Lib.DictLoops
import PgErdCloud.Lib.Lines

namespace PgErdCloud.Spec.Report

open Lib Lib.PyStr

variable {s : Snapshot}

/-! ## Cells -/

/-- A text without a carriage return and without a pipe behind an odd number of backslashes. -/
def Plain (text : Str) : Prop := '\r' ∉ text ∧ Markdown.escapedPipes text = 0

instance (text : Str) : Decidable (Plain text) := inferInstanceAs (Decidable (_ ∧ _))

/-- A cell that leaves the row as it is. -/
def Fits (cell : Str) : Prop := Markdown.SingleLine cell ∧ Markdown.unescapedPipes cell = 0

instance (cell : Str) : Decidable (Fits cell) := inferInstanceAs (Decidable (_ ∧ _))

theorem fits_escapePipes (text : Str) : Fits (Markdown.escapePipes text) ↔ Plain text := by
  rw [Fits, Plain, Markdown.singleLine_escapePipes_iff, Markdown.unescapedPipes_escapePipes]

theorem fits_cell (value : Option Str) : Fits (cell value) ↔ Plain (strip (value.getD [])) := by
  cases value with
  | none => exact iff_of_true (by decide) (by decide)
  | some text =>
      rw [cell, Option.elim_some, Markdown.strip_escapePipes, fits_escapePipes, Option.getD_some]

theorem fits_escapeCell (value : Option Str) :
    Fits (escapeCell value) ↔ Plain (value.getD []) := by
  rw [escapeCell, fits_escapePipes, textOrDash, truthy]
  rcases value with _ | _ | ⟨ch, text⟩
  · exact iff_of_true (by decide) (by decide)
  · exact iff_of_true (by decide) (by decide)
  · rfl

theorem fits_toDigits (n : Nat) : Fits (Nat.toDigits 10 n) := by
  have hdigit : ∀ ch ∈ Nat.toDigits 10 n, ch.isDigit = true := fun ch hch =>
    Nat.isDigit_of_mem_toDigits (by decide) (by decide) hch
  refine ⟨⟨fun h => absurd (hdigit _ h) (by decide), fun h => absurd (hdigit _ h) (by decide)⟩, ?_⟩
  exact Markdown.pipes_of_not_mem (fun h => absurd (hdigit _ h) (by decide)) false false

/-! ## Rows -/

/-- The texts of a column in the data dictionary. -/
def dictionaryTexts (col : ColumnRow) : List Str :=
  [col.columnName.getD [], col.dataType.getD [],
    if col.hasDefault then col.defaultExpr.getD [] else [], col.columnComment.getD [],
    col.exampleValue.getD []]

/-- The texts of a column in the reversing specification. -/
def reversingTexts (col : ColumnRow) : List Str :=
  [col.columnName.getD [], col.dataType.getD [], col.defaultExpr.getD [],
    col.exampleValue.getD [], col.columnComment.getD []]

theorem columnLine_intact_iff (oid : Option Int) (i : Nat) (col : ColumnRow) :
    Markdown.SingleLine (columnLine s oid i col) ∧
        Markdown.unescapedPipes (columnLine s oid i col) = 9 ↔
      ∀ text ∈ dictionaryTexts col, Plain (strip text) := by
  have hrow : columnLine s oid i col = Markdown.row (columnCells s oid i col) :=
    Markdown.row_eq_join (List.cons_ne_nil _ _)
  have hnull : Fits (if col.isNotNull then "NOT NULL".toList else []) := by
    split_ifs <;> decide
  have hmarks (p q : Prop) [Decidable p] [Decidable q] : Fits (join " ".toList
      ((if p then ["PK".toList] else []) ++ if q then ["FK".toList] else [])) := by
    split_ifs <;> decide
  have hdefault : (if col.hasDefault then col.defaultExpr else some []).getD [] =
      if col.hasDefault then col.defaultExpr.getD [] else [] := by
    split_ifs <;> rfl
  rw [hrow]
  refine (Markdown.row_intact_iff (columnCells s oid i col)).trans ?_
  change (∀ cell ∈ columnCells s oid i col, Fits cell) ↔ _
  simp only [columnCells, dictionaryTexts, List.mem_cons, List.not_mem_nil, or_false,
    forall_eq_or_imp, forall_eq, fits_toDigits, hnull, hmarks, fits_cell, Option.getD_some,
    hdefault, true_and]

theorem reversingLine_intact_iff (col : ColumnRow) :
    Markdown.SingleLine (reversingLine col) ∧ Markdown.unescapedPipes (reversingLine col) =
        Markdown.unescapedPipes reversingHeader ↔
      ∀ text ∈ reversingTexts col, Plain text := by
  have hrow : reversingLine col = Markdown.row (reversingCells col) :=
    Markdown.row_eq_join (List.cons_ne_nil _ _)
  have hbool : Fits (boolText col.isNotNull) := by
    unfold boolText
    split_ifs <;> decide
  rw [hrow]
  refine (Markdown.row_intact_iff (reversingCells col)).trans ?_
  change (∀ cell ∈ reversingCells col, Fits cell) ↔ _
  simp only [reversingCells, reversingTexts, List.mem_cons, List.not_mem_nil, or_false,
    forall_eq_or_imp, forall_eq, hbool, fits_escapeCell, true_and]

theorem mem_rowsOf {α : Type} {relationOid : α → Option Int} {rows : List α} {oid : Option Int}
    {row : α} : row ∈ rowsOf relationOid rows oid ↔ row ∈ rows ∧ relationOid row = oid := by
  rw [rowsOf, Dict.getD_get?_foldl_groupAt, List.map_id, List.mem_filter, decide_eq_true_iff,
    Option.some.injEq]

/-- Whether a column belongs to a relation. -/
def Listed (s : Snapshot) (col : ColumnRow) : Prop :=
  ∃ rel ∈ s.relations, rel.relationOid = col.relationOid

/-- A property of the rows of the data dictionary that depends on the column only. -/
theorem forall_mem_dictionaryRows {P : Str → Prop} {Q : ColumnRow → Prop}
    (h : ∀ oid i col, P (columnLine s oid i col) ↔ Q col) :
    (∀ line ∈ dictionaryRows s, P line) ↔ ∀ col ∈ s.columns, Listed s col → Q col := by
  constructor
  · rintro hall col hcol ⟨rel, hrel, hoid⟩
    have hmem : col ∈ columnsOf s rel.relationOid :=
      (List.mem_insertionSort _).mpr (mem_rowsOf.mpr ⟨hcol, hoid.symm⟩)
    obtain ⟨i, hi, hget⟩ := List.getElem_of_mem hmem
    refine (h rel.relationOid (i + 1) col).mp (hall _ (List.mem_flatMap.mpr ⟨rel, ?_, ?_⟩))
    · exact (List.mem_insertionSort _).mpr hrel
    · exact List.mem_mapIdx.mpr ⟨i, hi, by rw [hget]⟩
  · intro hall line hline
    obtain ⟨rel, hrel, hline⟩ := List.mem_flatMap.mp hline
    obtain ⟨i, hi, rfl⟩ := List.mem_mapIdx.mp hline
    obtain ⟨hcol, hoid⟩ := mem_rowsOf.mp ((List.mem_insertionSort _).mp (List.getElem_mem hi))
    exact (h _ _ _).mpr (hall _ hcol ⟨rel, (List.mem_insertionSort _).mp hrel, hoid.symm⟩)

theorem forall_mem_reversingRows {P : Str → Prop} {Q : ColumnRow → Prop}
    (hheader : P reversingHeader) (hdelimiter : P reversingDelimiter)
    (h : ∀ col, P (reversingLine col) ↔ Q col) :
    (∀ line ∈ reversingRows s, P line) ↔
      ∀ col ∈ s.columns, Listed s col → col.relationOid ≠ none → Q col := by
  constructor
  · rintro hall col hcol ⟨rel, hrel, hoid⟩ hsome
    obtain ⟨oid, hcoloid⟩ := Option.ne_none_iff_exists'.mp hsome
    have hobject : (rel, oid) ∈ objects s :=
      List.mem_filterMap.mpr ⟨rel, hrel, by rw [hoid, hcoloid, Option.map_some]⟩
    refine (h col).mp (hall _ (List.mem_flatMap.mpr ⟨(rel, oid), hobject, ?_⟩))
    refine List.mem_cons_of_mem _ (List.mem_cons_of_mem _ (List.mem_map_of_mem ?_))
    exact mem_rowsOf.mpr ⟨hcol, hcoloid⟩
  · intro hall line hline
    obtain ⟨⟨rel, oid⟩, hobject, hline⟩ := List.mem_flatMap.mp hline
    rw [entityTable, List.mem_cons, List.mem_cons] at hline
    rcases hline with rfl | rfl | hline
    · exact hheader
    · exact hdelimiter
    · obtain ⟨col, hmem, rfl⟩ := List.mem_map.mp hline
      obtain ⟨hcol, hoid⟩ := mem_rowsOf.mp hmem
      obtain ⟨rel', hrel, hmap⟩ := List.mem_filterMap.mp hobject
      obtain ⟨oid', hoid', he⟩ := Option.map_eq_some_iff.mp hmap
      obtain ⟨rfl, rfl⟩ := Prod.mk.inj he
      exact (h col).mpr (hall col hcol ⟨rel', hrel, hoid'.trans hoid.symm⟩ (by rw [hoid]; simp))

/-! ## Documents -/

theorem columnLines_sublist (annByTable : Dict (Str × Str) Str) (rel : Relation) :
    (columnLines s rel.relationOid).Sublist (relationLines s annByTable rel) := by
  unfold relationLines
  exact ((((List.sublist_append_right _ _).trans (List.sublist_append_left _ [[]])).trans
    (List.sublist_append_left _ _)).trans (List.sublist_append_left _ _))

theorem getLast?_columnLine (oid : Option Int) (i : Nat) (col : ColumnRow) :
    (columnLine s oid i col).getLast? = some '|' := by
  rw [columnLine, List.getLast?_append_of_ne_nil _ (by decide)]
  rfl

/-- **The rows of the dictionary are in its text**, in their order: their lines are lines of it. -/
theorem dictionaryRows_in_document (s : Snapshot) (annotations : List Annotation) :
    ((dictionaryRows s).flatMap linesOf).Sublist
      (linesOf (snapshotToDataDictionaryMd s annotations)) := by
  by_cases hrelations : s.relations = []
  · have hnone : dictionaryRows s = [] := by
      rw [dictionaryRows, sortedRelations, hrelations]
      rfl
    rw [hnone]
    exact List.nil_sublist _
  · have hlines : (dictionaryRows s).Sublist (documentLines s annotations) := by
      rw [documentLines, if_neg hrelations]
      exact (List.Sublist.flatMap_right _ fun rel _ => columnLines_sublist _ rel).trans
        (List.sublist_append_right _ _)
    have hends : ∀ line ∈ dictionaryRows s, ∃ ch ∈ line.getLast?, isSpace ch = false := by
      intro line hline
      obtain ⟨rel, -, hline⟩ := List.mem_flatMap.mp hline
      obtain ⟨i, hi, rfl⟩ := List.mem_mapIdx.mp hline
      exact ⟨'|', getLast?_columnLine _ _ _, by decide⟩
    obtain ⟨rest, hrest, hsub⟩ := exists_parts_rstrip hlines hends
    have htext : snapshotToDataDictionaryMd s annotations =
        join "\n".toList rest ++ ("\n".toList ++ []) := by
      rw [← hrest, snapshotToDataDictionaryMd, if_neg hrelations, List.append_nil]
      rfl
    rw [htext, linesOf_append_break]
    exact (flatMap_linesOf_sublist hsub).trans (List.sublist_append_left _ _)

theorem entityTable_sublist (rel : Relation) (oid : Int) :
    (entityTable s oid).Sublist (entityLines s rel oid) := by
  unfold entityLines
  exact ((List.sublist_append_right _ _).trans (List.sublist_append_left _ _)).trans
    (List.sublist_append_left _ _)

/-- **The tables of the entities are in the text** of the specification, in their order. -/
theorem reversingRows_in_document (s : Snapshot) :
    ((reversingRows s).flatMap linesOf).Sublist (linesOf (generateReversingMarkdown s)) := by
  unfold generateReversingMarkdown
  refine flatMap_linesOf_sublist ?_
  by_cases hobjects : objects s = []
  · rw [reversingRows, hobjects]
    exact List.nil_sublist _
  · rw [if_neg hobjects]
    have hentities : (reversingRows s).Sublist
        ((objects s).flatMap fun entry => entityLines s entry.1 entry.2) :=
      List.Sublist.flatMap_right _ fun entry _ => entityTable_sublist entry.1 entry.2
    exact (((hentities.trans (List.sublist_append_right _ _)).trans
      (List.sublist_append_left _ _)).trans (List.sublist_append_left _ _)).trans
      (List.sublist_append_left _ _)

/-! ## Tables -/

/-- Every row of a table of columns is one line with the pipes of its header. -/
def TablesIntact (s : Snapshot) : Prop :=
  (∀ line ∈ dictionaryRows s,
    Markdown.SingleLine line ∧ Markdown.unescapedPipes line = 9) ∧
  ∀ line ∈ reversingRows s, Markdown.SingleLine line ∧
    Markdown.unescapedPipes line = Markdown.unescapedPipes reversingHeader

/-- **The tables are intact** exactly when no text of a listed column has a carriage return or
    a pipe behind an odd number of backslashes; in the data dictionary the white space at the
    ends of a text does not count. -/
theorem tablesIntact_iff (s : Snapshot) :
    TablesIntact s ↔ ∀ col ∈ s.columns, Listed s col →
      (∀ text ∈ dictionaryTexts col, Plain (strip text)) ∧
      (col.relationOid ≠ none → ∀ text ∈ reversingTexts col, Plain text) := by
  have hheader : Markdown.SingleLine reversingHeader := by decide
  have hdelimiter : Markdown.SingleLine reversingDelimiter ∧
      Markdown.unescapedPipes reversingDelimiter = Markdown.unescapedPipes reversingHeader := by
    decide
  rw [TablesIntact, forall_mem_dictionaryRows columnLine_intact_iff,
    forall_mem_reversingRows ⟨hheader, rfl⟩ hdelimiter reversingLine_intact_iff]
  constructor
  · rintro ⟨hdictionary, hreversing⟩ col hcol hlisted
    exact ⟨hdictionary col hcol hlisted, hreversing col hcol hlisted⟩
  · intro h
    exact ⟨fun col hcol hlisted => (h col hcol hlisted).1,
      fun col hcol hlisted => (h col hcol hlisted).2⟩

/-! ## A pipe that is escaped twice -/

/-- A table with one column, whose comment has a pipe behind a backslash. -/
def escapedComment : Snapshot where
  sourceDialect := none
  databaseDialect := none
  serverVersion := none
  capturedAt := none
  schemaFilter := none
  relations := [⟨some 1, some "public".toList, some "codes".toList, some "r".toList, none⟩]
  columns := [{
    relationOid := some 1
    columnName := some "pattern".toList
    columnPosition := some 1
    dataType := some "text".toList
    isNotNull := false
    hasDefault := false
    defaultExpr := none
    columnComment := some "a\\|b".toList
    exampleValue := none }]
  pkColumns := []
  fkEdges := []
  constraints := []
  indexes := []

/-- The row has ten unescaped pipes. -/
theorem not_tablesIntact_escapedComment : ¬ TablesIntact escapedComment := by
  intro h
  have hall : ∀ line ∈ dictionaryRows escapedComment, Markdown.unescapedPipes line = 9 :=
    fun line hline => (h.1 line hline).2
  exact absurd hall (by decide)

end PgErdCloud.Spec.Report
