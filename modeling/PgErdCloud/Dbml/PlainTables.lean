/-
  A table whose lines are all of the form `name type`: when the parser reads each of them as a
  column and goes on behind the table as if nothing had been before. The header is any that the
  grammar of DBML allows, and anything may stand before the table and behind it but another
  header of the same table.

  `isRead_iff` is about every such table: it is read exactly when its header, its lines and its
  column names are ones that the parser can read (`Legible`).
-/
import PgErdCloud.Dbml.Headers
import PgErdCloud.Dbml.Consistency

namespace PgErdCloud.Dbml

open Lib Lib.PyStr

/-! ## Positions -/

/-- The columns of each relation are numbered from 1 on. -/
def Numbered (s : ParseState) : Prop :=
  ∀ oid, (s.columns.filter fun c => c.relationOid = oid).map Column.columnPosition =
    List.range' 1 (s.columns.filter fun c => c.relationOid = oid).length

variable {chars : Chars} {s : ParseState}

theorem Numbered.addColumn (h : Numbered s) (table : TableKey) (column : Str × Str × Str) :
    Numbered (addColumn chars s table column) := by
  intro oid
  have hpositions := h oid
  simp only [Dbml.addColumn, List.filter_append, List.map_append, List.length_append]
  by_cases hoid : (s.oidByTable.get? table).getD 0 = oid
  · subst hoid
    rw [List.filter_cons_of_pos (by simp), List.filter_nil, hpositions, List.length_singleton,
      List.range'_concat, List.map_singleton, List.countP_eq_length_filter]
    simp [Nat.add_comm]
  · rw [List.filter_cons_of_neg (by simpa using hoid), List.filter_nil, hpositions]
    simp

theorem Numbered.record (h : Numbered s) (r : Mode × Option Event) :
    Numbered (s.record chars r) := by
  obtain ⟨m, _ | e⟩ := r
  · exact h
  · cases e with
    | table table =>
        rw [ParseState.record, Option.elim_some, ParseState.apply, openTable]
        split_ifs
        · exact h
        · exact h
    | column table name dataType settings => exact h.addColumn table (name, dataType, settings)
    | reference spec => exact h

theorem numbered_parseLines (text : Str) : Numbered (parseLines chars text) := by
  have hrun (lines : List Str) {s : ParseState} (h : Numbered s) :
      Numbered (lines.foldl (parseLine chars) s) := by
    induction lines generalizing s with
    | nil => exact h
    | cons line lines ih =>
        refine ih ?_
        rw [parseLine_eq]
        exact h.record _
  exact hrun _ fun _ => rfl

/-! ## The columns of a table -/

/-- Name and type of each column of a table, with its position. -/
def Snapshot.columnsOf (snap : Snapshot) (table : TableKey) : List ((Str × Str) × Nat) :=
  (snap.columns.filter fun c => snap.keyOf c.relationOid = table).map fun c =>
    ((c.columnName, c.dataType), c.columnPosition)

/-- The columns that a line of the table declares. -/
def declared (es : List Event) (table : TableKey) : List (Str × Str) :=
  es.filterMap fun
    | .column table' name dataType _ => if table' = table then some (name, dataType) else none
    | _ => none

theorem declared_append (es es' : List Event) (table : TableKey) :
    declared (es ++ es') table = declared es table ++ declared es' table :=
  List.filterMap_append

theorem declared_eq (chars : Chars) (es : List Event) (table : TableKey) :
    declared es table =
      ((es.filterMap (columnOf chars)).filter fun i => i.table = table).map fun i =>
        (i.name, i.dataType) := by
  induction es with
  | nil => rfl
  | cons e es ih =>
      rw [← List.singleton_append, declared_append, ih, List.filterMap_append, List.filter_append,
        List.map_append]
      congr 1
      cases e with
      | table => rfl
      | column table' name dataType settings =>
          by_cases htable : table' = table <;> simp [declared, columnOf, htable]
      | reference => rfl

/-- **The columns of a table**, in the order of their lines, have the positions from 1 on. -/
theorem columnsOf_parseDbml (text : Str) (table : TableKey) :
    (parseDbml chars text).columnsOf table = (declared (events chars text) table).zipIdx 1 := by
  have h : Tracks chars (parseLines chars text) (events chars text) := tracks_parseLines text
  have hnames : ((parseDbml chars text).columnsOf table).map Prod.fst =
      declared (events chars text) table := by
    have hcontent : (parseDbml chars text).content.columns =
        (events chars text).filterMap (columnOf chars) := by
      rw [content_parseDbml]
      rfl
    rw [declared_eq chars, ← hcontent, Snapshot.content, Snapshot.columnsOf, List.filter_map,
      List.map_map, List.map_map]
    rfl
  have hpositions : ((parseDbml chars text).columnsOf table).map Prod.snd =
      List.range' 1 ((parseDbml chars text).columnsOf table).length := by
    rw [Snapshot.columnsOf, List.map_map, List.length_map]
    by_cases htable : table ∈ tablesOf (events chars text)
    · have hsame : ((parseDbml chars text).columns.filter fun c =>
          (parseDbml chars text).keyOf c.relationOid = table) =
          (parseDbml chars text).columns.filter fun c =>
            c.relationOid = oidOf (parseLines chars text).oidByTable table := by
        refine List.filter_congr fun c hc => ?_
        obtain ⟨table', hoid, htable'⟩ := h.exists_declared hc
        rw [decide_eq_decide, hoid, h.keyOf_oidOf rfl htable']
        refine ⟨fun he => he ▸ rfl, fun he => h.oidOf_inj htable' htable he⟩
      rw [hsame]
      exact numbered_parseLines text _
    · have hnone : ((parseDbml chars text).columns.filter fun c =>
          (parseDbml chars text).keyOf c.relationOid = table) = [] := by
        rw [List.filter_eq_nil_iff]
        intro c hc
        obtain ⟨table', hoid, htable'⟩ := h.exists_declared hc
        rw [decide_eq_true_eq, hoid, h.keyOf_oidOf rfl htable']
        rintro rfl
        exact htable htable'
      rw [hnone]
      rfl
  have hlength := congrArg List.length hnames
  rw [List.length_map] at hlength
  calc (parseDbml chars text).columnsOf table
      = (((parseDbml chars text).columnsOf table).map Prod.fst).zip
          (((parseDbml chars text).columnsOf table).map Prod.snd) := by
        rw [← List.unzip_fst, ← List.unzip_snd, List.zip_unzip]
    _ = (declared (events chars text) table).zipIdx 1 := by
        rw [hnames, hpositions, hlength, List.zipIdx_eq_zip_range']

/-! ## Plain tables -/

/-- A line `name type`, with its margin. -/
structure PlainColumn (chars : Chars) where
  margin : Margin
  name : Str
  gap : Gap
  dataType : Str
  name_ne_nil : name ≠ []
  isWord_name : ∀ ch ∈ name, chars.isWord ch = true
  dataType_ne_nil : dataType ≠ []
  isWord_dataType : ∀ ch ∈ dataType, chars.isWord ch = true

namespace PlainColumn

variable (c : PlainColumn chars)

/-- The line without its margin. -/
def line : Str := c.name ++ (c.gap.text ++ c.dataType)

/-- The line with its margins and its comment. -/
def raw : Str := c.margin.around c.line

/-- What the line says. -/
def row : Str × Str := (c.name, c.dataType)

end PlainColumn

/-- A table of such lines in a document: the lines before it, its header and the brace that
    closes it. No line before it has a header of the same table. -/
structure PlainTable (chars : Chars) where
  before : List Str
  margin : Margin
  header : Header chars
  body : List (PlainColumn chars)
  closing : Margin
  oneLine_before : ∀ line ∈ before, OneLine line
  isNew : header.name.key ∉ tablesOf (eventsFrom chars .start before)

namespace PlainTable

variable (t : PlainTable chars)

/-- The table that the header names. -/
def table : TableKey := t.header.name.key

/-- The line that opens the table. -/
def headerLine : Str := t.margin.around t.header.text

/-- The line that closes the table. -/
def closingLine : Str := t.closing.around ['\x7d']

/-- Where the parser is when it comes to the header. -/
def modeBefore : Mode := modeAfter chars .start t.before

/-- The lines of the document, with those behind the table. -/
def lines (after : List Str) : List Str :=
  t.before ++ (t.headerLine :: (t.header.opening.lines ++ (t.body.map PlainColumn.raw ++
    (t.closingLine :: after))))

/-- What the table says. -/
def events : List Event :=
  .table t.table :: t.body.map fun c => .column t.table c.name c.dataType []

/-- The columns of the table are its lines, and what follows is read as on its own. -/
structure IsReadWith (text : Str) (after : List Str) : Prop where
  columns : (parseDbml chars text).columnsOf t.table = (t.body.map PlainColumn.row).zipIdx 1
  content : (parseDbml chars text).content =
    contentOf chars (eventsFrom chars .start t.before ++ t.events ++ eventsFrom chars .start after)

/-- The table is read in every text with its lines, whatever follows that does not declare it
    again. -/
def IsRead : Prop :=
  ∀ text after, splitlines text = t.lines after →
    t.table ∉ tablesOf (eventsFrom chars .start after) → t.IsReadWith text after

end PlainTable

/-! ## Lines of a plain table -/

/-- The parser takes a line with this first word for something else than a column. -/
def IsKeyword (name : Str) : Prop :=
  (∃ w ∈ blockWords, isWordIgnoreCase w name = true) ∨ isWordIgnoreCase "table" name = true ∨
    isWordIgnoreCase "ref" name = true

instance (name : Str) : Decidable (IsKeyword name) := inferInstanceAs (Decidable (_ ∨ _))

namespace PlainColumn

/-- The line is not too long, and its name is no keyword. -/
def IsFine (c : PlainColumn chars) : Prop := c.raw.length ≤ maxLine ∧ ¬ IsKeyword c.name

instance (c : PlainColumn chars) : Decidable c.IsFine := inferInstanceAs (Decidable (_ ∧ _))

variable (c : PlainColumn chars)

theorem endsWord_rest : EndsWord chars (c.gap.text ++ c.dataType) :=
  c.gap.blank.endsWord c.gap.ne_nil _

theorem mem_line {ch : Char} (h : ch ∈ c.line) :
    chars.isWord ch = true ∨ ch = ' ' ∨ ch = '\t' := by
  rw [line, List.mem_append, List.mem_append] at h
  rcases h with h | h | h
  · exact .inl (c.isWord_name ch h)
  · exact .inr (c.gap.blank ch h)
  · exact .inl (c.isWord_dataType ch h)

/-- Neither a brace nor a slash is on the line. -/
theorem not_mem_line {ch : Char} (h : ch ∈ punctuation) (hspace : isSpace ch = false) :
    ch ∉ c.line := by
  intro hmem
  rcases c.mem_line hmem with hword | rfl | rfl
  · exact ne_of_isWord hword h rfl
  · exact absurd hspace (by decide)
  · exact absurd hspace (by decide)

theorem oneLine_raw : OneLine c.raw := by
  refine c.margin.oneLine_around fun ch hch => ?_
  rcases c.mem_line hch with hword | rfl | rfl
  · exact isLineBreak_of_isWord hword
  · decide
  · decide

theorem lineOf_raw : lineOf c.raw = if c.raw.length > maxLine then none else some c.line := by
  refine lineOf_around c.margin (List.append_ne_nil_of_left_ne_nil c.name_ne_nil _) ?_ ?_
    (noComment_of_not_mem (c.not_mem_line (by decide) (by decide)))
  · rw [line, List.head?_append_of_ne_nil _ c.name_ne_nil]
    exact fun ch hch => isSpace_of_isWord (c.isWord_name ch (List.mem_of_mem_head? hch))
  · rw [line, ← List.append_assoc, List.getLast?_append_of_ne_nil _ c.dataType_ne_nil]
    exact fun ch hch => isSpace_of_isWord (c.isWord_dataType ch (List.mem_of_getLast? hch))

theorem parseColumn_line : parseColumn chars c.line = some (c.name, c.dataType, []) := by
  have hname : (Ident.bare c.name).Valid chars := ⟨c.name_ne_nil, c.isWord_name⟩
  have htype : TypeWord.Valid chars ⟨c.dataType, none, false⟩ :=
    ⟨c.dataType_ne_nil, c.isWord_dataType, by simp⟩
  simpa [line, TypeWord.text, Ident.text, Ident.name] using
    parseColumn_plain hname c.gap.blank c.gap.ne_nil htype

/-- A column named `table` is a header. -/
theorem isSome_parseTableHeader_line (h : isWordIgnoreCase "table" c.name = true) :
    (parseTableHeader chars c.line).isSome = true := by
  have hhead : ∀ ch ∈ c.dataType.head?, isSpace ch = false :=
    fun ch hch => isSpace_of_isWord (c.isWord_dataType ch (List.mem_of_mem_head? hch))
  have hconsume := @consumeTableName_join chars [c.dataType] [] (by simpa using c.isWord_dataType)
    (by simp) (by simpa using c.dataType_ne_nil) (by simp [EndsName])
  rw [join_singleton, List.append_nil, if_neg (by simpa using c.dataType_ne_nil.symm)] at hconsume
  rw [line, parseTableHeader_keyword h c.gap hhead, hconsume]
  rfl

/-- What the parser does with a line that is a column for it. -/
theorem step_of_isFine (hc : c.IsFine) {m : Mode} (hm : m.inIgnoredBlock = 0) :
    step chars m c.raw = (m, if m.inIndexes then none
      else m.current.map fun table => .column table c.name c.dataType []) := by
  obtain ⟨hlength, hkey⟩ := hc
  rw [IsKeyword, not_or, not_or, ← isSome_ignoredBlockRe_iff c.isWord_name c.endsWord_rest,
    ← isSome_refLineRe_iff c.isWord_name c.endsWord_rest, Bool.not_eq_true] at hkey
  have hheader : parseTableHeader chars c.line = none :=
    parseTableHeader_eq_none c.isWord_name c.endsWord_rest (by simpa using hkey.2.1)
  have hclose : '\x7d' ∉ c.line := c.not_mem_line (by decide) (by decide)
  have hhead : ¬ c.line.head? = some '\x7d' := fun he => hclose (List.mem_of_mem_head? he)
  have hindexes : ¬ (indexesRe.matchStart c.line).isSome = true := by
    rw [indexesRe_eq_none (c.not_mem_line (by decide) (by decide))]
    exact Bool.false_ne_true
  have hblock := hkey.1
  have href := hkey.2.2
  rw [← line] at hblock href
  rw [step, lineOf_raw, if_neg (Nat.not_lt.mpr hlength), Option.map_some, Option.getD_some,
    lineStep, if_neg (not_not_intro hm), hblock, if_neg Bool.false_ne_true, hheader]
  simp only
  rw [if_neg hhead, if_neg href]
  obtain ⟨_ | table, depth, inIndexes⟩ := m
  · cases inIndexes <;> rfl
  · simp only [bodyStep]
    rw [if_neg hindexes]
    cases inIndexes with
    | true => simp [hclose]
    | false => simp [parseColumn_line]

end PlainColumn

/-- The event declares a column. -/
def Event.isColumn : Event → Bool
  | .column _ _ _ _ => true
  | _ => false

theorem step_ignored {m : Mode} (h : m.inIgnoredBlock ≠ 0) (rawLine : Str) :
    (step chars m rawLine).2 = none := by
  rw [step]
  cases lineOf rawLine with
  | none => rfl
  | some line =>
      rw [Option.map_some, Option.getD_some, lineStep, if_pos h]

namespace PlainColumn

variable (c : PlainColumn chars)

/-- A line that is not fine is no column, wherever it stands. -/
theorem isFine_of_isColumn {m : Mode} (h : (step chars m c.raw).2.any Event.isColumn = true) :
    c.IsFine := by
  have hignored : ¬ m.inIgnoredBlock ≠ 0 := by
    intro hm
    rw [step_ignored hm] at h
    exact absurd h (by simp)
  rw [step, lineOf_raw] at h
  split_ifs at h with hlength
  · exact absurd h (by simp)
  refine ⟨Nat.not_lt.mp hlength, fun hkey => ?_⟩
  rw [Option.map_some, Option.getD_some, lineStep, if_neg hignored] at h
  by_cases hblock : ((ignoredBlockRe chars).matchStart c.line).isSome = true
  · rw [if_pos hblock] at h
    exact absurd h (by simp)
  rw [if_neg hblock] at h
  rw [IsKeyword, ← isSome_ignoredBlockRe_iff c.isWord_name c.endsWord_rest,
    ← isSome_refLineRe_iff c.isWord_name c.endsWord_rest] at hkey
  rcases hkey with hkey | hkey | hkey
  · exact hblock hkey
  · obtain ⟨table, htable⟩ := Option.isSome_iff_exists.mp (c.isSome_parseTableHeader_line hkey)
    rw [htable] at h
    exact absurd h (by simp [Event.isColumn])
  · rw [← line] at hkey
    cases htable : parseTableHeader chars c.line with
    | some table =>
        rw [htable] at h
        exact absurd h (by simp [Event.isColumn])
    | none =>
        rw [htable] at h
        simp only at h
        split_ifs at h
        · exact absurd h (by simp)
        · cases hspec : refSpec chars c.line with
          | none =>
              rw [hspec] at h
              exact absurd h (by simp)
          | some spec =>
              rw [hspec] at h
              exact absurd h (by simp [Event.isColumn])

end PlainColumn

/-! ## The header and the line that closes the table -/

/-- A table comes from the line of a header. -/
theorem header_of_step {m : Mode} {rawLine : Str} {table : TableKey}
    (h : (step chars m rawLine).2 = some (.table table)) :
    m.inIgnoredBlock = 0 ∧ (lineOf rawLine).bind (parseTableHeader chars) = some table := by
  rw [step] at h
  cases hline : lineOf rawLine with
  | none =>
      rw [hline] at h
      exact absurd h (by simp)
  | some line =>
      rw [hline, Option.map_some, Option.getD_some, lineStep] at h
      by_cases hm : m.inIgnoredBlock ≠ 0
      · rw [if_pos hm] at h
        exact absurd h (by simp)
      by_cases hblock : ((ignoredBlockRe chars).matchStart line).isSome = true
      · rw [if_neg hm, if_pos hblock] at h
        exact absurd h (by simp)
      rw [if_neg hm, if_neg hblock] at h
      rw [Option.bind_some]
      refine ⟨not_not.mp hm, ?_⟩
      cases htable : parseTableHeader chars line with
      | some table' =>
          rw [htable] at h
          obtain rfl := Event.table.inj (Option.some.inj h)
          rfl
      | none =>
          rw [htable] at h
          simp only at h
          split_ifs at h
          · obtain ⟨spec, -, he⟩ := Option.map_eq_some_iff.mp h
            exact absurd he (by simp)
          · cases hcurrent : m.current with
            | none =>
                rw [hcurrent] at h
                exact absurd h (by simp)
            | some current =>
                rw [hcurrent] at h
                simp only [bodyStep] at h
                split_ifs at h
                · obtain ⟨column, -, he⟩ := Option.map_eq_some_iff.mp h
                  exact absurd he (by simp)

/-- A header that the parser reads opens its table. -/
theorem Header.step_of_readable {h : Header chars} {margin : Margin} {m : Mode}
    (hm : m.inIgnoredBlock = 0) (hlength : (margin.around h.text).length ≤ maxLine)
    (hread : h.Readable) :
    step chars m (margin.around h.text) =
      ({ m with current := some h.name.key }, some (.table h.name.key)) := by
  obtain ⟨line, hline, htable⟩ :=
    Option.bind_eq_some_iff.mp ((h.read_iff margin).mpr ⟨hlength, hread⟩)
  have hsome : (parseTableHeader chars line).isSome = true := by rw [htable]; rfl
  obtain ⟨rest, hrest, hword, hends, hchars⟩ := isWordIgnoreCase_of_header hsome
  have hblock : ¬ ((ignoredBlockRe chars).matchStart line).isSome = true := by
    rw [hrest, isSome_ignoredBlockRe_iff hchars hends]
    rintro ⟨w, hw, hsame⟩
    have hw' : w.toList = "table".toList :=
      (of_decide_eq_true hsame).symm.trans (of_decide_eq_true hword)
    rw [String.toList_inj] at hw'
    subst hw'
    exact absurd hw (by decide)
  rw [step, hline, Option.map_some, Option.getD_some, lineStep, if_neg (not_not_intro hm),
    if_neg hblock, htable]

/-- A line of one character that is none of a word. -/
theorem lineStep_char {m : Mode} (hm : m.inIgnoredBlock = 0) {ch : Char} (hch : ch ∈ punctuation) :
    lineStep chars m [ch] =
      if ch = '\x7d' then ({ m with current := none, inIndexes := false }, none)
      else m.current.elim (m, none) fun table => bodyStep chars m table [ch] := by
  have hends : EndsWord chars [ch] := endsWord_cons [] hch
  have hblock : ((ignoredBlockRe chars).matchStart [ch]).isSome = false := by
    rw [← Bool.not_eq_true]
    have h := @isSome_ignoredBlockRe_iff chars [] _ (by simp) hends
    rw [List.nil_append] at h
    rw [h]
    decide
  have href : ((refLineRe chars).matchStart [ch]).isSome = false := by
    rw [← Bool.not_eq_true]
    have h := @isSome_refLineRe_iff chars [] _ (by simp) hends
    rw [List.nil_append] at h
    rw [h]
    decide
  have hheader : parseTableHeader chars [ch] = none := by
    have h := @parseTableHeader_eq_none chars [] _ (by simp) hends (by decide)
    rwa [List.nil_append] at h
  rw [lineStep, if_neg (not_not_intro hm), hblock, if_neg Bool.false_ne_true, hheader]
  simp only [List.head?_cons, Option.some.injEq]
  rw [href, if_neg Bool.false_ne_true]
  cases m.current <;> rfl

namespace PlainTable

variable (t : PlainTable chars)

/-- The brace behind a header adds nothing. -/
theorem step_opening {m : Mode} (hm : m.inIgnoredBlock = 0) {line : Str}
    (hline : line ∈ t.header.opening.lines) : step chars m line = (m, none) := by
  cases hopening : t.header.opening with
  | here gap blank =>
      rw [hopening] at hline
      exact absurd hline List.not_mem_nil
  | next margin =>
      rw [hopening] at hline
      obtain rfl := List.mem_singleton.mp hline
      have hbrace := @lineOf_around_char margin '\x7b' (by decide) (by decide)
      have hindexes : (indexesRe.matchStart ['\x7b']).isSome = false := by decide
      have hcolumn : parseColumn chars ['\x7b'] = none :=
        parseColumn_eq_none (by simpa using isWord_punctuation chars (by decide))
      rw [step, hbrace]
      split_ifs
      · rfl
      rw [Option.map_some, Option.getD_some, lineStep_char hm (by decide), if_neg (by decide)]
      cases m.current with
      | none => rfl
      | some table =>
          rw [Option.elim_some, bodyStep, hindexes, if_neg Bool.false_ne_true, hcolumn]
          split_ifs with hin
          · obtain ⟨current, depth, inIndexes⟩ := m
            obtain rfl : inIndexes = true := hin
            rfl
          · rfl

/-- The brace that closes the table, where the line is not too long. -/
theorem step_closing {m : Mode} (hm : m.inIgnoredBlock = 0) :
    step chars m t.closingLine =
      if t.closingLine.length > maxLine then (m, none) else (⟨none, 0, false⟩, none) := by
  have hbrace := @lineOf_around_char t.closing '\x7d' (by decide) (by decide)
  rw [step, closingLine, hbrace]
  split_ifs
  · rfl
  · rw [Option.map_some, Option.getD_some, lineStep_char hm (by decide), if_pos rfl, ← hm]

/-- Nothing is read of the braces. -/
theorem step_opening_event (m : Mode) {line : Str} (hline : line ∈ t.header.opening.lines) :
    (step chars m line).2 = none := by
  by_cases hm : m.inIgnoredBlock = 0
  · rw [t.step_opening hm hline]
  · exact step_ignored hm _

theorem step_closing_event (m : Mode) : (step chars m t.closingLine).2 = none := by
  by_cases hm : m.inIgnoredBlock = 0
  · rw [t.step_closing hm]
    split_ifs <;> rfl
  · exact step_ignored hm _

end PlainTable

/-! ## The lines of the body -/

/-- Of the lines, at most the fine ones are columns. -/
theorem countP_isColumn_le (body : List (PlainColumn chars)) (m : Mode) :
    (eventsFrom chars m (body.map PlainColumn.raw)).countP Event.isColumn ≤
      body.countP fun c => c.IsFine := by
  induction body generalizing m with
  | nil => exact Nat.le_refl _
  | cons c body ih =>
      rw [List.map_cons, eventsFrom, List.countP_append, List.countP_cons, Nat.add_comm]
      refine Nat.add_le_add (ih _) ?_
      cases hevent : (step chars m c.raw).2 with
      | none => exact Nat.zero_le _
      | some e =>
          by_cases hcolumn : e.isColumn = true
          · have hfine : c.IsFine := c.isFine_of_isColumn (m := m) (by rw [hevent]; exact hcolumn)
            simp [hcolumn, hfine]
          · simp [hcolumn]

/-- Lines that are all fine, in one mode. -/
theorem run_of_isFine {body : List (PlainColumn chars)} (hbody : ∀ c ∈ body, c.IsFine) {m : Mode}
    (hm : m.inIgnoredBlock = 0) :
    modeAfter chars m (body.map PlainColumn.raw) = m ∧
      eventsFrom chars m (body.map PlainColumn.raw) =
        body.flatMap fun c => (if m.inIndexes then none
          else m.current.map fun table => .column table c.name c.dataType []).toList := by
  induction body with
  | nil => exact ⟨rfl, rfl⟩
  | cons c body ih =>
      have hstep := c.step_of_isFine (hbody c List.mem_cons_self) hm
      obtain ⟨hmode, hevents⟩ := ih fun d hd => hbody d (List.mem_cons_of_mem c hd)
      rw [List.map_cons, modeAfter_cons, eventsFrom, hstep]
      exact ⟨hmode, by rw [hevents, List.flatMap_cons]⟩

/-- Fine lines are columns, if anything. -/
theorem isColumn_of_isFine {body : List (PlainColumn chars)} (hbody : ∀ c ∈ body, c.IsFine)
    {m : Mode} {e : Event} (he : e ∈ eventsFrom chars m (body.map PlainColumn.raw)) :
    e.isColumn = true := by
  induction body generalizing m with
  | nil => exact absurd he List.not_mem_nil
  | cons c body ih =>
      rw [List.map_cons, eventsFrom, List.mem_append, Option.mem_toList] at he
      rcases he with he | he
      · by_cases hm : m.inIgnoredBlock = 0
        · rw [c.step_of_isFine (hbody c List.mem_cons_self) hm] at he
          simp only at he
          split_ifs at he
          obtain ⟨table, -, rfl⟩ := Option.map_eq_some_iff.mp (Option.mem_def.mp he)
          rfl
        · rw [step_ignored hm] at he
          exact absurd he (by simp)
      · exact ih (fun d hd => hbody d (List.mem_cons_of_mem c hd)) he

theorem length_declared_le (es : List Event) (table : TableKey) :
    (declared es table).length ≤ es.countP Event.isColumn := by
  induction es with
  | nil => exact Nat.le_refl _
  | cons e es ih =>
      rw [← List.singleton_append, declared_append, List.length_append, List.countP_append]
      refine Nat.add_le_add ?_ ih
      cases e with
      | table => exact Nat.zero_le _
      | column table' name dataType settings =>
          exact List.length_filterMap_le _ _
      | reference => exact Nat.zero_le _

theorem mem_tablesOf_iff {es : List Event} {table : TableKey} :
    table ∈ tablesOf es ↔ .table table ∈ es := by
  induction es using List.reverseRecOn with
  | nil => simp [tablesOf]
  | append_singleton es e ih =>
      rw [tablesOf_concat, List.mem_append, ← ih]
      cases e with
      | table t =>
          rw [addTable]
          split_ifs with ht
          · constructor
            · exact .inl
            · rintro (h | h)
              · exact h
              · obtain rfl : table = t := by simpa using h
                exact ht
          · simp [List.mem_append]
      | column => simp [addTable]
      | reference => simp [addTable]

/-- Lines that do not declare the table have no columns of it. -/
theorem declared_eq_nil {lines : List Str} {table : TableKey}
    (h : table ∉ tablesOf (eventsFrom chars .start lines)) :
    declared (eventsFrom chars .start lines) table = [] := by
  have htracks : Tracks chars (lines.foldl (parseLine chars) .start)
    (eventsFrom chars .start lines) := Tracks.start.run lines
  rw [declared, List.filterMap_eq_nil_iff]
  intro e he
  cases e with
  | table => rfl
  | column table' name dataType settings =>
      have hne : table' ≠ table := by
        rintro rfl
        exact h (htracks.known _ _ _ _ he)
      simp [hne]
  | reference => rfl

/-! ## When a table is read -/

/-- A column that any parser reads where it expects one. -/
def strayColumn (chars : Chars) : PlainColumn chars where
  margin := .none
  name := ['x']
  gap := .single
  dataType := ['x']
  name_ne_nil := by simp
  isWord_name := by simpa using isWord_of_isAlphanum (by decide)
  dataType_ne_nil := by simp
  isWord_dataType := by simpa using isWord_of_isAlphanum (by decide)

theorem isFine_strayColumn : (strayColumn chars).IsFine := by
  have hraw : (strayColumn chars).raw = ['x', ' ', 'x'] := rfl
  have hname : (strayColumn chars).name = ['x'] := rfl
  rw [PlainColumn.IsFine, hraw, hname]
  decide

/-- A header for a table of one letter. -/
def letterHeader (chars : Chars) (letter : Char) (h : letter.isAlphanum = true) :
    Header chars where
  keyword := "table".toList
  gap := .single
  name := ⟨none, .bare [letter]⟩
  asName := none
  settings := none
  opening := .next .none
  isKeyword := by decide
  valid_name := ⟨by simp, by simp, by simpa using isWord_of_isAlphanum h⟩

theorem exists_header_ne (chars : Chars) (table : TableKey) : ∃ header : Header chars,
    header.Readable ∧ (Margin.none.around header.text).length ≤ maxLine ∧
      header.name.key ≠ table := by
  have hletter (letter : Char) (h : letter.isAlphanum = true) :
      (letterHeader chars letter h).Readable ∧
        (Margin.none.around (letterHeader chars letter h).text).length ≤ maxLine := by
    have hlength : (Margin.none.around (letterHeader chars letter h).text).length = 7 := rfl
    rw [hlength]
    exact ⟨⟨trivial, by simp [letterHeader], rfl⟩, by decide⟩
  by_cases ha : (letterHeader chars 'a' (by decide)).name.key = table
  · refine ⟨letterHeader chars 'b' (by decide), (hletter _ _).1, (hletter _ _).2, fun hb => ?_⟩
    exact absurd (ha.trans hb.symm) (by simp [letterHeader, TableName.key, Ident.name])
  · exact ⟨letterHeader chars 'a' (by decide), (hletter _ _).1, (hletter _ _).2, ha⟩

namespace PlainTable

variable (t : PlainTable chars)

/-- Where the parser is when it comes to the body. -/
def modeInside : Mode :=
  modeAfter chars (step chars t.modeBefore t.headerLine).1 t.header.opening.lines

theorem eventsFrom_opening (m : Mode) : eventsFrom chars m t.header.opening.lines = [] := by
  have hnone (m : Mode) (line : Str) (hline : line ∈ t.header.opening.lines) :=
    t.step_opening_event m hline
  cases hopening : t.header.opening with
  | here gap blank => rfl
  | next margin =>
      rw [hopening] at hnone
      rw [Opening.lines, eventsFrom, hnone m _ List.mem_cons_self]
      rfl

theorem oneLine_opening : ∀ line ∈ t.header.opening.lines, OneLine line := by
  cases t.header.opening with
  | here gap blank => exact fun line hline => absurd hline List.not_mem_nil
  | next margin =>
      intro line hline
      obtain rfl := List.mem_singleton.mp hline
      exact margin.oneLine_around (by simp [OneLine, isLineBreak])

/-- A text has these lines. -/
theorem exists_text {after : List Str} (hafter : ∀ line ∈ after, OneLine line) :
    ∃ text, splitlines text = t.lines after := by
  refine ⟨_, splitlines_flatMap fun line hline => ?_⟩
  simp only [lines, List.mem_append, List.mem_cons] at hline
  rcases hline with hline | rfl | hline | hline | rfl | hline
  · exact t.oneLine_before line hline
  · exact t.margin.oneLine_around t.header.oneLine_text
  · exact t.oneLine_opening line hline
  · obtain ⟨c, -, rfl⟩ := List.mem_map.mp hline
    exact c.oneLine_raw
  · exact t.closing.oneLine_around (by simp [OneLine, isLineBreak])
  · exact hafter line hline

theorem events_text {text : Str} {after : List Str} (htext : splitlines text = t.lines after) :
    Dbml.events chars text = eventsFrom chars .start t.before ++
      ((step chars t.modeBefore t.headerLine).2.toList ++
        (eventsFrom chars t.modeInside (t.body.map PlainColumn.raw) ++
          eventsFrom chars (modeAfter chars t.modeInside (t.body.map PlainColumn.raw))
            (t.closingLine :: after))) := by
  rw [Dbml.events, htext, lines, eventsFrom_append, eventsFrom, eventsFrom_append,
    eventsFrom_append, t.eventsFrom_opening, List.nil_append]
  rfl

theorem declared_events : declared t.events t.table = t.body.map PlainColumn.row := by
  have hcolumns (body : List (PlainColumn chars)) :
      declared (body.map fun c => .column t.table c.name c.dataType []) t.table =
        body.map PlainColumn.row := by
    induction body with
    | nil => rfl
    | cons c body ih =>
        rw [List.map_cons, ← List.singleton_append, declared_append, ih, List.map_cons]
        simp [declared, PlainColumn.row]
  exact hcolumns t.body

/-- The header is one that the parser reads, and it stands where the parser reads headers. -/
structure HeaderIsRead : Prop where
  notIgnored : t.modeBefore.inIgnoredBlock = 0
  headerLength : t.headerLine.length ≤ maxLine
  readable : t.header.Readable

/-- The lines of the body are fine, too, and stand where the parser reads columns. -/
structure Legible : Prop extends t.HeaderIsRead where
  notInIndexes : t.modeBefore.inIndexes = true → t.body = []
  body : ∀ c ∈ t.body, c.IsFine

variable {t}

theorem HeaderIsRead.step_header (h : t.HeaderIsRead) : step chars t.modeBefore t.headerLine =
    ({ t.modeBefore with current := some t.table }, some (.table t.table)) :=
  Header.step_of_readable h.notIgnored h.headerLength h.readable

theorem HeaderIsRead.modeInside_eq (h : t.HeaderIsRead) :
    t.modeInside = { t.modeBefore with current := some t.table } := by
  rw [modeInside, h.step_header]
  have hnone (line : Str) (hline : line ∈ t.header.opening.lines) :=
    @step_opening chars t { t.modeBefore with current := some t.table } h.notIgnored line hline
  cases hopening : t.header.opening with
  | here gap blank => rfl
  | next margin =>
      rw [hopening] at hnone
      rw [Opening.lines, modeAfter_cons, hnone _ List.mem_cons_self]
      rfl

theorem HeaderIsRead.notIgnored_inside (h : t.HeaderIsRead) :
    t.modeInside.inIgnoredBlock = 0 := by
  rw [h.modeInside_eq]
  exact h.notIgnored

/-- The run over a body whose lines are fine. -/
theorem HeaderIsRead.run_body (h : t.HeaderIsRead) (hbody : ∀ c ∈ t.body, c.IsFine) :
    modeAfter chars t.modeInside (t.body.map PlainColumn.raw) = t.modeInside ∧
      eventsFrom chars t.modeInside (t.body.map PlainColumn.raw) =
        if t.modeBefore.inIndexes then []
        else t.body.map fun c => .column t.table c.name c.dataType [] := by
  obtain ⟨hmode, hevents⟩ := run_of_isFine hbody h.notIgnored_inside
  refine ⟨hmode, ?_⟩
  rw [hevents, h.modeInside_eq]
  cases hindexes : t.modeBefore.inIndexes with
  | true => simp
  | false => simp [← List.map_eq_flatMap]

namespace Legible

/-- The events of the table and of what follows it, which the parser reads from its start where
    it has read the closing brace. -/
theorem events_text (h : t.Legible) {text : Str} {after : List Str}
    (htext : splitlines text = t.lines after) :
    Dbml.events chars text = eventsFrom chars .start t.before ++ t.events ++
      eventsFrom chars (if t.closingLine.length > maxLine then t.modeInside else .start)
        after := by
  obtain ⟨hmode, hbody⟩ := h.run_body h.body
  have hcolumns : eventsFrom chars t.modeInside (t.body.map PlainColumn.raw) =
      t.body.map fun c => .column t.table c.name c.dataType [] := by
    rw [hbody]
    split_ifs with hin
    · rw [h.notInIndexes hin, List.map_nil]
    · rfl
  rw [t.events_text htext, h.step_header, hmode, hcolumns, eventsFrom,
    t.step_closing h.notIgnored_inside]
  simp only [Option.toList_some, List.append_assoc]
  split_ifs <;> rfl

end Legible

variable (t)

/-- No line before the header is a column of its table. -/
theorem declared_before : declared (eventsFrom chars .start t.before) t.table = [] :=
  declared_eq_nil t.isNew

/-- The line of the header is none, either. -/
theorem declared_step_header :
    declared (step chars t.modeBefore t.headerLine).2.toList t.table = [] := by
  by_cases htable : (step chars t.modeBefore t.headerLine).2 = some (.table t.table)
  · rw [htable]
    rfl
  · have hevents : eventsFrom chars .start (t.before ++ [t.headerLine]) =
        eventsFrom chars .start t.before ++
          (step chars t.modeBefore t.headerLine).2.toList := by
      rw [eventsFrom_append, eventsFrom, eventsFrom, List.append_nil]
      rfl
    have hmiss : t.table ∉ tablesOf (eventsFrom chars .start (t.before ++ [t.headerLine])) := by
      rw [mem_tablesOf_iff, hevents, List.mem_append, not_or, ← mem_tablesOf_iff]
      exact ⟨t.isNew, fun hmem => htable (Option.mem_toList.mp hmem)⟩
    have hnil := declared_eq_nil hmiss
    rw [hevents, declared_append] at hnil
    exact (List.append_eq_nil_iff.mp hnil).2

/-- The body of a table is at most what its fine lines are. -/
theorem length_declared_text_le {text : Str} (htext : splitlines text = t.lines []) :
    (declared (Dbml.events chars text) t.table).length ≤ t.body.countP fun c => c.IsFine := by
  rw [t.events_text htext, declared_append, declared_append, declared_append,
    t.declared_before, t.declared_step_header, List.nil_append, List.nil_append,
    List.length_append, eventsFrom, eventsFrom, t.step_closing_event]
  have hbody := length_declared_le
    (eventsFrom chars t.modeInside (t.body.map PlainColumn.raw)) t.table
  have hfine := countP_isColumn_le t.body t.modeInside
  simpa [declared] using hbody.trans hfine

/-- The table is one of the document's only where the header was read for it. -/
theorem read_of_mem_tablesOf {text : Str} (htext : splitlines text = t.lines [])
    (hbody : ∀ c ∈ t.body, c.IsFine) (h : t.table ∈ tablesOf (Dbml.events chars text)) :
    t.HeaderIsRead := by
  rw [mem_tablesOf_iff, t.events_text htext, eventsFrom, eventsFrom,
    t.step_closing_event] at h
  simp only [Option.toList_none, List.append_nil, List.mem_append] at h
  rcases h with h | h | h
  · exact absurd (mem_tablesOf_iff.mpr h) t.isNew
  · obtain ⟨hm, hread⟩ := header_of_step (Option.mem_toList.mp h)
    obtain ⟨hlength, hreadable⟩ := (t.header.read_iff t.margin).mp hread
    exact ⟨hm, hlength, hreadable⟩
  · exact absurd (isColumn_of_isFine hbody h) (by simp [Event.isColumn])

/-- A table that is read is legible. -/
theorem legible_of_isRead (h : t.IsRead) : t.Legible := by
  obtain ⟨text, htext⟩ := t.exists_text (List.forall_mem_nil OneLine)
  obtain ⟨hcolumns, hcontent⟩ := h text [] htext (by simp [eventsFrom, tablesOf])
  rw [columnsOf_parseDbml] at hcolumns
  rw [content_parseDbml] at hcontent
  have hlength : (declared (Dbml.events chars text) t.table).length = t.body.length := by
    have h := congrArg List.length hcolumns
    rwa [List.length_zipIdx, List.length_zipIdx, List.length_map] at h
  have hbody : ∀ c ∈ t.body, c.IsFine := by
    have hle := t.length_declared_text_le htext
    rw [hlength] at hle
    have hall := List.countP_eq_length.mp (Nat.le_antisymm List.countP_le_length hle)
    exact fun c hc => of_decide_eq_true (hall c hc)
  have htables : tablesOf (Dbml.events chars text) = tablesOf
      (eventsFrom chars .start t.before ++ t.events ++ eventsFrom chars .start []) :=
    congrArg Content.tables hcontent
  have hread : t.HeaderIsRead := t.read_of_mem_tablesOf htext hbody (by
    rw [htables, mem_tablesOf_iff]
    exact List.mem_append_left _ (List.mem_append_right _ List.mem_cons_self))
  refine ⟨hread, fun hindexes => ?_, hbody⟩
  -- Within a list of indexes the lines of the body are skipped.
  rw [t.events_text htext, hread.step_header, (hread.run_body hbody).2, hindexes, if_pos rfl,
    eventsFrom, eventsFrom, t.step_closing_event, declared_append, t.declared_before] at hlength
  exact List.length_eq_zero_iff.mp hlength.symm

/-- A line that closes the table and is too long is skipped, and the table goes on. -/
theorem closingLength_of_isRead (h : t.IsRead) : t.closingLine.length ≤ maxLine := by
  by_contra hlong
  have hlegible := t.legible_of_isRead h
  have hlong : t.closingLine.length > maxLine := Nat.not_le.mp hlong
  have hstart : step chars .start (strayColumn chars).raw = (.start, none) :=
    (strayColumn chars).step_of_isFine isFine_strayColumn rfl
  have hinside := (strayColumn chars).step_of_isFine isFine_strayColumn
    hlegible.notIgnored_inside
  cases hindexes : t.modeBefore.inIndexes with
  | false =>
      -- A column behind the table becomes one of the table's.
      have hafter : ∀ line ∈ [(strayColumn chars).raw], OneLine line := by
        simpa using (strayColumn chars).oneLine_raw
      obtain ⟨text, htext⟩ := t.exists_text hafter
      have hcolumns := (h text [(strayColumn chars).raw] htext
        (by simp [eventsFrom, hstart, tablesOf])).columns
      rw [columnsOf_parseDbml, hlegible.events_text htext, if_pos hlong, eventsFrom, eventsFrom,
        hinside, hlegible.modeInside_eq, declared_append, declared_append, t.declared_before,
        t.declared_events] at hcolumns
      have hlength := congrArg List.length hcolumns
      simp [declared, hindexes] at hlength
  | true =>
      -- The columns of a table behind it are skipped as its list of indexes.
      obtain ⟨header, hreadable, hshort, hother⟩ := exists_header_ne chars t.table
      have hopen {m : Mode} (hm : m.inIgnoredBlock = 0) :=
        Header.step_of_readable hm hshort hreadable
      have hafter : ∀ line ∈ [Margin.none.around header.text, (strayColumn chars).raw],
          OneLine line := by
        simpa using ⟨Margin.none.oneLine_around header.oneLine_text,
          (strayColumn chars).oneLine_raw⟩
      have hcolumn := (strayColumn chars).step_of_isFine isFine_strayColumn
        (m := { t.modeInside with current := some header.name.key }) hlegible.notIgnored_inside
      have hcolumn' := (strayColumn chars).step_of_isFine isFine_strayColumn
        (m := { Mode.start with current := some header.name.key }) rfl
      have hnew : eventsFrom chars .start
          [Margin.none.around header.text, (strayColumn chars).raw] =
          [.table header.name.key, .column header.name.key ['x'] ['x'] []] := by
        rw [eventsFrom, eventsFrom, eventsFrom, hopen rfl, hcolumn']
        rfl
      have hskipped : eventsFrom chars t.modeInside
          [Margin.none.around header.text, (strayColumn chars).raw] =
          [.table header.name.key] := by
        rw [eventsFrom, eventsFrom, eventsFrom, hopen hlegible.notIgnored_inside, hcolumn,
          hlegible.modeInside_eq, hindexes]
        rfl
      obtain ⟨text, htext⟩ := t.exists_text hafter
      have hcontent :=
        (h text _ htext (by simp [hnew, tablesOf, addTable, hother.symm])).content
      rw [content_parseDbml, hlegible.events_text htext, if_pos hlong, hskipped, hnew] at hcontent
      have hlength := congrArg (fun content => content.columns.length) hcontent
      simp only [contentOf, List.filterMap_append, List.length_append] at hlength
      have hnone : (([.table header.name.key] :
          List Event).filterMap (columnOf chars)).length = 0 := rfl
      have hone : (([.table header.name.key, .column header.name.key ['x'] ['x'] []] :
          List Event).filterMap (columnOf chars)).length = 1 := rfl
      omega

/-- **A plain table is read**, and what follows it, exactly when its header is one that the parser
    can read and stands in no ignored block (nor lines of it in a list of indexes), none of its
    lines is too long and none of its columns has the name of a keyword. -/
theorem isRead_iff : t.IsRead ↔ t.Legible ∧ t.closingLine.length ≤ maxLine := by
  constructor
  · exact fun h => ⟨t.legible_of_isRead h, t.closingLength_of_isRead h⟩
  · rintro ⟨hlegible, hlength⟩ text after htext hnew
    have hevents := hlegible.events_text htext
    rw [if_neg (Nat.not_lt.mpr hlength)] at hevents
    refine ⟨?_, ?_⟩
    · rw [columnsOf_parseDbml, hevents, declared_append, declared_append, t.declared_before,
        declared_eq_nil hnew, t.declared_events, List.nil_append, List.append_nil]
    · rw [content_parseDbml, hevents]

end PlainTable

/-- A name of ASCII word characters. -/
def isAsciiWord (s : Str) : Bool := !s.isEmpty && s.all asciiChars.isWord

/-- A column of ASCII words, indented by two. -/
def asciiColumn (name dataType : Str) (hname : isAsciiWord name = true)
    (htype : isAsciiWord dataType = true) : PlainColumn asciiChars where
  margin := .indented
  name
  gap := .single
  dataType
  name_ne_nil := by simpa using (Bool.and_eq_true_iff.mp hname).1
  isWord_name := List.all_eq_true.mp (Bool.and_eq_true_iff.mp hname).2
  dataType_ne_nil := by simpa using (Bool.and_eq_true_iff.mp htype).1
  isWord_dataType := List.all_eq_true.mp (Bool.and_eq_true_iff.mp htype).2

/-- The header `Table a {`. -/
def asciiHeader : Header asciiChars where
  keyword := "Table".toList
  gap := .single
  name := ⟨none, .bare "a".toList⟩
  asName := none
  settings := none
  opening := .here " ".toList blank_space
  isKeyword := by decide
  valid_name := ⟨by simp, by simp, by simp [asciiChars, Chars.isWord]⟩

/-- A table with a column named `note`. -/
def noteTable : PlainTable asciiChars where
  before := []
  margin := .none
  header := asciiHeader
  body := [asciiColumn "note".toList "text".toList rfl rfl,
    asciiColumn "x".toList "int".toList rfl rfl]
  closing := .none
  oneLine_before := by simp
  isNew := by simp [eventsFrom, tablesOf]

/-- Neither of the columns is there. -/
theorem not_isRead_noteTable : ¬ noteTable.IsRead := by
  intro h
  have hcolumns := (h "Table a \x7b\n  note text\n  x int\n\x7d\n".toList [] (by decide)
    (by simp [eventsFrom, tablesOf])).columns
  have hnone : (parseDbml asciiChars "Table a \x7b\n  note text\n  x int\n\x7d\n".toList).columnsOf
      noteTable.table = [] := by
    decide +kernel
  rw [hnone] at hcolumns
  exact absurd hcolumns (by simp [noteTable])

end PgErdCloud.Dbml
