/-
  The SQLAlchemy models as Python source. The generated text is read by Python's lexical and
  grammatical rules and compared with the lines that the rows of the snapshot ask for: a name of
  the database comes out as an identifier or within a string literal, a comment of a table within
  a string literal, and a type without counterpart behind `#` as it is.

  Proved for every snapshot, whatever characters Python takes for printable: the text is a module
  with exactly these lines if and only if no type without counterpart has a character that ends
  the comment.
-/
import PgErdCloud.Lib.DictLoops
import PgErdCloud.Lib.Fallible
import PgErdCloud.Spec.OrmRows

namespace PgErdCloud.Spec.Orm

open Lib Lib.PyStr Lib.PyLex Lib.PyGrammar Lib.Fallible

/-! ## The lines of the records -/

/-- The type of an attribute within `Mapped`. -/
def Attribute.annotation (attr : Attribute) : List Token :=
  [Token.name "Mapped".toList] ++ [Token.mark '['] ++ (typeTokens attr.pyType ++
    if attr.nullable then [Token.mark '|', Token.name "None".toList] else []) ++ [Token.mark ']']

/-- The positional arguments of `mapped_column`. -/
def Attribute.positional (attr : Attribute) : List (List Token) :=
  (attr.columnName.map fun name => [Token.str name]).toList ++
    (attr.foreignKey.map fun target =>
      [Token.name "ForeignKey".toList, Token.mark '(', Token.str target, Token.mark ')']).toList

/-- The keyword arguments of `mapped_column`. -/
def Attribute.keywordArgs (attr : Attribute) : List (Str × List Token) :=
  if attr.primaryKey then [("primary_key".toList, [Token.name "True".toList])] else []

/-- The call of `mapped_column`. -/
def Attribute.call (attr : Attribute) : List Token :=
  [Token.name "mapped_column".toList] ++ [Token.mark '('] ++
    commas (attr.positional ++ attr.keywordArgs.map keywordArg) ++ [Token.mark ')']

/-- The line of an attribute as it should be read. -/
def Attribute.parsed (attr : Attribute) : Line where
  indent := 4
  tokens := .name attr.name :: Token.mark ':' :: (attr.annotation ++ [Token.mark '='] ++ attr.call)
  comment := attr.comment.map fun rawType => " type: ".toList ++ rawType

/-- The indented lines of a class as they should be read. -/
def ModelClass.body (model : ModelClass) : List Line :=
  (model.comment.map fun comment => [bodyLine [Token.str comment], Line.blank]).getD [] ++
    [bodyLine [Token.name "__tablename__".toList, Token.mark '=', Token.str model.tableName]] ++
    (model.schema.map fun schema => bodyLine [Token.name "__table_args__".toList, Token.mark '=',
      Token.mark '\x7b', Token.str "schema".toList, Token.mark ':', Token.str schema,
      Token.mark '\x7d']).toList ++
    if model.attributes = [] then [bodyLine [Token.name "pass".toList]]
    else model.attributes.map Attribute.parsed

/-- The lines of a class as they should be read. -/
def ModelClass.parsed (model : ModelClass) : List Line :=
  [Line.blank, Line.blank, classLine model.name "Base".toList] ++ model.body

variable (unicode : Unicode) (isPrintable : Printable)

/-- The lines that the generator's records ask for. -/
def parsedModels (s : Snapshot) : List Line :=
  parsedHeader ++ (modelClasses unicode s).flatMap ModelClass.parsed ++ [Line.blank]

/-- The generated text is Python, and read as such it says what the rows say: each string of the
    database stands wholly in its place, an identifier, a string literal or a comment. -/
structure Parses (s : Snapshot) : Prop where
  read : lexModule (generateSqlalchemyModels unicode isPrintable s) =
    some (expectedModule unicode s)
  module : IsModule isKeyword (expectedModule unicode s)

/-- A text that stays in a comment. -/
def StaysInComment (text : Str) : Prop := '\n' ∉ text ∧ '\r' ∉ text ∧ '\x00' ∉ text

/-! ## The records and the rows -/

theorem isAmong_iff {lowered : Str} {starting whole : List String} {pyType : String} :
    IsAmong lowered (starting, whole, pyType) ↔
      starts starting lowered = true ∨ lowered ∈ whole.map String.toList := by
  rw [IsAmong, starts, List.any_eq_true, List.mem_map]
  simp only [startsWith, List.isPrefixOf_iff_prefix]
  exact or_congr_right ⟨fun ⟨w, h, e⟩ => ⟨w, h, e.symm⟩, fun ⟨w, h, e⟩ => ⟨w, h, e.symm⟩⟩

/-- Two tables of which each line asks for the same give the same type. -/
theorem find?_eq_of_forall₂ {patterns : TypeTable}
    {lines : List (List String × List String × String)}
    (h : List.Forall₂ (fun pattern line => (∀ lowered,
      pattern.1 lowered = decide (IsAmong lowered line)) ∧ pattern.2 = line.2.2.toList)
        patterns lines) (lowered : Str) :
    (patterns.find? fun pattern => pattern.1 lowered).map (·.2) =
      (lines.find? fun line => IsAmong lowered line).map fun line => line.2.2.toList := by
  induction h with
  | nil => rfl
  | @cons pattern line _ _ hline _ ih =>
      rw [List.find?_cons, List.find?_cons, hline.1 lowered]
      cases decide (IsAmong lowered line) with
      | true => exact congrArg some hline.2
      | false => exact ih

/-- The table of types of the generator is the one of the counterparts. -/
theorem mapType_eq_counterpart (rawType : Str) :
    mapType unicode rawType pyTypes = counterpart unicode rawType := by
  have hlines : List.Forall₂ (fun pattern line =>
      (∀ lowered, pattern.1 lowered = decide (IsAmong lowered line)) ∧
        pattern.2 = line.2.2.toList) pyTypes counterparts := by
    have hstarts (words : List String) (pyType : String) (lowered : Str) :
        starts words lowered = decide (IsAmong lowered (words, [], pyType)) := by
      rw [Bool.eq_iff_iff, decide_eq_true_iff, isAmong_iff]
      simp
    have hdate (lowered : Str) :
        isDate lowered = decide (IsAmong lowered ([], ["date"], "dt.date")) := by
      rw [Bool.eq_iff_iff, decide_eq_true_iff, isAmong_iff]
      simp [isDate, starts]
    have htime (lowered : Str) :
        isTime lowered = decide (IsAmong lowered (["time("], ["time"], "dt.time")) := by
      rw [Bool.eq_iff_iff, decide_eq_true_iff, isAmong_iff]
      simp [isTime, starts, or_comm]
    exact .cons ⟨hstarts _ _, rfl⟩ (.cons ⟨hstarts _ _, rfl⟩ (.cons ⟨hstarts _ _, rfl⟩
      (.cons ⟨hdate, rfl⟩ (.cons ⟨htime, rfl⟩ (.cons ⟨hstarts _ _, rfl⟩
      (.cons ⟨hstarts _ _, rfl⟩ (.cons ⟨hstarts _ _, rfl⟩ (.cons ⟨hstarts _ _, rfl⟩
      (.cons ⟨hstarts _ _, rfl⟩ (.cons ⟨hstarts _ _, rfl⟩ .nil))))))))))
  exact find?_eq_of_forall₂ hlines _

theorem ident_eq_columnIdent (name : Str) : ident name = columnIdent name := by
  rw [ident, snakeName_eq name (by decide), columnIdent]
  simp only [isKeyword, decide_eq_true_eq]

theorem className_eq_classIdent (tableName : Str) : className tableName = classIdent tableName := by
  rw [className_eq, classIdent]
  simp only [isKeyword, decide_eq_true_eq]

theorem relations_eq_tables (s : Snapshot) : (index s).relations = tables s := by
  refine List.filter_congr fun rel _ => ?_
  rw [isTable, text]
  cases rel.relationKind with
  | none => rfl
  | some kind => simp

theorem cols_eq_columnsOf (s : Snapshot) (rel : RelationRow) :
    (index s).cols rel.relationOid = columnsOf s rel := by
  have hgroup := Dict.getD_get?_foldl_groupAt (fun c : ColumnRow => some c.relationOid) id
    s.columns rel.relationOid
  simp only [List.map_id, Option.some.injEq] at hgroup
  exact congrArg (List.insertionSort fun a b : ColumnRow =>
    a.columnPosition.getD 0 ≤ b.columnPosition.getD 0) hgroup

/-- The names of a primary key are those of its rows. -/
theorem mem_pks_iff {s : Snapshot} {oid : Option Int} {name : Str} :
    name ∈ (index s).pks oid ↔ PkRow.mk oid name ∈ s.pkColumns := by
  have hinsert (rows : List PkRow) (names : List Str) :
      name ∈ rows.foldl (fun names pk => names.insert pk.columnName) names ↔
        name ∈ names ∨ ∃ pk ∈ rows, pk.columnName = name := by
    induction rows generalizing names with
    | nil => simp
    | cons pk rows ih =>
        rw [List.foldl_cons, ih, List.mem_insert_iff, List.exists_mem_cons_iff, eq_comm]
        tauto
  have hrows : (∃ pk ∈ s.pkColumns.filter fun pk => some pk.relationOid = some oid,
      pk.columnName = name) ↔ PkRow.mk oid name ∈ s.pkColumns := by
    constructor
    · rintro ⟨pk, hpk, rfl⟩
      obtain ⟨hmem, hoid⟩ := List.mem_filter.mp hpk
      obtain rfl : pk.relationOid = oid := by simpa using hoid
      exact hmem
    · intro h
      exact ⟨_, List.mem_filter.mpr ⟨h, by simp⟩, rfl⟩
  have hget := Dict.get?_foldl_upsertAt (fun pk : PkRow => some pk.relationOid) []
    (fun pk names => names.insert pk.columnName) s.pkColumns Dict.empty oid
  rw [← hrows, Index.pks]
  change name ∈ ((s.pkColumns.foldl _ Dict.empty).get? oid).getD [] ↔ _
  rw [hget]
  split_ifs with hnil
  · rw [hnil]
    simp [Dict.empty, Dict.get?]
  · rw [Option.getD_some, hinsert]
    simp [Dict.empty, Dict.get?]

/-- What a column refers to is what its last row says of the last table with the oid. -/
theorem foreignKey_eq_reference (s : Snapshot) (col : ColumnRow) :
    (((index s).fkByChild.get? (col.relationOid, col.columnName)).bind fun fk =>
      ((index s).relByOid.get? fk.parentRelationOid).map fun parent => foreignKeyTarget parent fk) =
        reference s col := by
  have hedge := Dict.get?_foldl_set_getLast?
    (fun e : EdgeRow => (e.childRelationOid, e.childColumnName)) id s.fkEdges
    (col.relationOid, col.columnName)
  have hparent (oid : Option Int) := Dict.get?_foldl_set_getLast?
    (fun rel : RelationRow => rel.relationOid) id (index s).relations oid
  have htarget (parent : RelationRow) (fk : EdgeRow) : foreignKeyTarget parent fk =
      join ".".toList ((if parent.schemaName = "public".toList then [] else [parent.schemaName])
        ++ [parent.relationName, fk.parentColumnName]) := by
    rw [foreignKeyTarget]
    split_ifs
    · simp [join_cons_cons]
    · simp [join_cons_cons]
  simp only [Option.map_id, id, Prod.mk.injEq] at hedge hparent
  have hedge : (index s).fkByChild.get? (col.relationOid, col.columnName) = _ := hedge
  have hparent (oid) : (index s).relByOid.get? oid = _ := hparent oid
  rw [hedge, reference, Option.bind_eq_bind]
  refine Option.bind_congr fun fk _ => ?_
  rw [hparent, relations_eq_tables, Option.bind_eq_bind, Option.map_eq_bind]
  exact Option.bind_congr fun parent _ => congrArg some (htarget parent fk)

/-- **The record of a column** asks for the line that its row asks for. -/
theorem parsed_columnAttribute {s : Snapshot} {rel : RelationRow} {col : ColumnRow}
    (hcol : col ∈ columnsOf s rel) :
    (columnAttribute unicode (index s) rel.relationOid col).parsed = columnLine unicode s col := by
  have hoid : rel.relationOid = col.relationOid := by
    obtain ⟨-, hoid⟩ := List.mem_filter.mp ((List.mem_insertionSort _).mp hcol)
    exact (of_decide_eq_true hoid).symm
  have hargs : (columnAttribute unicode (index s) rel.relationOid col).positional ++
      (columnAttribute unicode (index s) rel.relationOid col).keywordArgs.map keywordArg =
        columnArgs s col := by
    rw [columnArgs, Attribute.positional, Attribute.keywordArgs, columnAttribute]
    dsimp only
    rw [fieldName_eq, ident_eq_columnIdent, hoid, foreignKey_eq_reference]
    simp only [mem_pks_iff, decide_eq_true_eq, ne_eq, ite_not]
    congr 1
    · congr 1
      split_ifs
      · rfl
      · rfl
    · split_ifs
      · rfl
      · rfl
  have hcomment : (columnAttribute unicode (index s) rel.relationOid col).parsed.comment =
      (columnLine unicode s col).comment := by
    rw [Attribute.parsed, columnLine, columnAttribute]
    dsimp only
    rw [mapType_eq_counterpart]
    split_ifs
    · rfl
    · rfl
  have htokens : (columnAttribute unicode (index s) rel.relationOid col).parsed.tokens =
      (columnLine unicode s col).tokens := by
    rw [Attribute.parsed, Attribute.call, hargs, Attribute.annotation, columnLine, columnAttribute]
    dsimp only
    rw [fieldName_eq, ident_eq_columnIdent, mapType_eq_counterpart]
    cases col.isNotNull with
    | true => simp
    | false => simp
  have hline : (columnAttribute unicode (index s) rel.relationOid col).parsed =
      ⟨4, (columnAttribute unicode (index s) rel.relationOid col).parsed.tokens,
        (columnAttribute unicode (index s) rel.relationOid col).parsed.comment⟩ := rfl
  rw [hline, htokens, hcomment]
  rfl

/-- **The record of a table** asks for the lines that its row asks for. -/
theorem parsed_modelClass (s : Snapshot) (rel : RelationRow) :
    (modelClass unicode (index s) rel).parsed = tableLines unicode s rel := by
  have hattributes : (modelClass unicode (index s) rel).attributes.map Attribute.parsed =
      (columnsOf s rel).map (columnLine unicode s) := by
    rw [modelClass, List.map_map, cols_eq_columnsOf]
    exact List.map_congr_left fun col hcol => parsed_columnAttribute unicode hcol
  have hnil : (modelClass unicode (index s) rel).attributes = [] ↔ columnsOf s rel = [] := by
    rw [modelClass, List.map_eq_nil_iff, cols_eq_columnsOf]
  have hcomment : ((modelClass unicode (index s) rel).comment.map fun comment =>
      [bodyLine [Token.str comment], Line.blank]).getD [] =
        if text rel.relationComment = [] then []
        else [bodyLine [Token.str (text rel.relationComment)], Line.blank] := by
    rw [modelClass, text]
    cases rel.relationComment with
    | none => rfl
    | some comment =>
        dsimp only [Option.getD_some]
        split_ifs
        · rfl
        · rfl
  have hschema : (modelClass unicode (index s) rel).schema =
      if rel.schemaName ∈ [[], "public".toList] then none else some rel.schemaName := by
    have hmem : rel.schemaName ∈ [[], "public".toList] ↔
        rel.schemaName = [] ∨ rel.schemaName = "public".toList := by simp
    have hnone : (modelClass unicode (index s) rel).schema =
        if rel.schemaName ≠ [] ∧ rel.schemaName ≠ "public".toList then some rel.schemaName
        else none := rfl
    rw [hnone]
    by_cases h : rel.schemaName ∈ [[], "public".toList]
    · rw [if_pos h, if_neg fun hne => (hmem.mp h).elim hne.1 hne.2]
    · rw [if_neg h, if_pos (not_or.mp (mt hmem.mpr h))]
  rw [ModelClass.parsed, ModelClass.body, hcomment, hschema, hattributes, tableLines]
  simp only [hnil]
  rw [← className_eq_classIdent]
  simp only [List.append_assoc]
  split_ifs
  all_goals rfl

/-- **The records** ask for the lines that the rows ask for. -/
theorem parsedModels_eq (s : Snapshot) : parsedModels unicode s = expectedModule unicode s := by
  have hclasses : (modelClasses unicode s).flatMap ModelClass.parsed =
      (tables s).flatMap (tableLines unicode s) := by
    rw [modelClasses, relations_eq_tables, List.flatMap_map]
    exact List.flatMap_congr fun rel _ => parsed_modelClass unicode s rel
  rw [parsedModels, hclasses, expectedModule]

/-! ## Identifiers -/

theorem isNameStart_of_isLower {ch : Char} (h : ch.isLower = true) : isNameStart ch = true := by
  simp [isNameStart, Char.isAlpha, h]

theorem isNameStart_of_isUpper {ch : Char} (h : ch.isUpper = true) : isNameStart ch = true := by
  simp [isNameStart, Char.isAlpha, h]

theorem isNameChar_of_isAlphanum {ch : Char} (h : ch.isAlphanum = true) : isNameChar ch = true :=
  (Bool.or_eq_true _ _).mpr (.inl h)

theorem isNameChar_of_isLower_or_isDigit {ch : Char} (h : ch.isLower = true ∨ ch.isDigit = true) :
    isNameChar ch = true := by
  refine isNameChar_of_isAlphanum ?_
  rcases h with h | h
  · simp [Char.isAlphanum, Char.isAlpha, h]
  · simp [Char.isAlphanum, h]

/-- The first word of an identifier begins with a letter. -/
theorem exists_head_fullWords (name : Str) : ∃ ch word words,
    fullWords name "column".toList = (ch :: word) :: words ∧ ch.isLower = true := by
  obtain ⟨word, words, hfull⟩ := List.exists_cons_of_ne_nil (fullWords_ne_nil name "column".toList)
  have hmem : word ∈ fullWords name "column".toList := by
    rw [hfull]
    exact List.mem_cons_self
  obtain ⟨hne, hchars⟩ := of_mem_fullWords hmem
  obtain ⟨ch, rest, rfl⟩ := List.exists_cons_of_ne_nil hne
  refine ⟨ch, rest, words, hfull, (hchars ch List.mem_cons_self).resolve_right fun hdigit => ?_⟩
  rw [fullWords] at hfull
  split_ifs at hfull with hnil hstart
  · obtain ⟨he, -⟩ := List.cons.inj (List.cons.inj hfull).1
    rw [← he] at hdigit
    exact absurd hdigit (by decide)
  · obtain ⟨he, -⟩ := List.cons.inj (List.cons.inj hfull).1
    rw [← he] at hdigit
    exact absurd hdigit (by decide)
  · rw [hfull] at hstart
    exact hstart hdigit

theorem not_isKeyword_underscore {word : Str} (h : isKeyword word = true) :
    isKeyword (word ++ "_".toList) = false := by
  have hall : (pythonKeywords.all fun word => !isKeyword (word ++ "_".toList)) = true := by decide
  have hword := List.all_eq_true.mp hall word (of_decide_eq_true h)
  exact Bool.not_eq_true' _ ▸ hword

/-- A column's name comes to an identifier that is no keyword. -/
theorem isName_ident (name : Str) : IsName (ident name) ∧ isKeyword (ident name) = false := by
  obtain ⟨ch, word, words, hfull, hlower⟩ := exists_head_fullWords name
  have hstart : ∃ rest, join "_".toList (fullWords name "column".toList) = ch :: rest := by
    rw [hfull]
    exact List.head?_eq_some_iff.mp (head?_join (List.cons_ne_nil ch word))
  obtain ⟨rest, hrest⟩ := hstart
  have hall : ∀ c ∈ ch :: rest, isNameChar c = true := by
    intro c hc
    rw [← hrest] at hc
    rcases mem_join hc with hsep | ⟨part, hpart, hc⟩
    · rw [List.mem_singleton.mp hsep]
      rfl
    · exact isNameChar_of_isLower_or_isDigit ((of_mem_fullWords hpart).2 c hc)
  rw [ident, snakeName_eq name (by decide), hrest]
  dsimp only
  split_ifs with hkeyword
  · refine ⟨⟨⟨ch, rest ++ "_".toList, rfl, isNameStart_of_isLower hlower⟩, ?_⟩, ?_⟩
    · rw [List.forall_mem_append]
      exact ⟨hall, by simp [isNameChar]⟩
    · exact not_isKeyword_underscore hkeyword
  · exact ⟨⟨⟨ch, rest, rfl, isNameStart_of_isLower hlower⟩, hall⟩, by simpa using hkeyword⟩

theorem isNameChar_toUpper {ch : Char} (h : isAsciiAlnum ch = true) :
    isNameChar ch.toUpper = true := by
  by_cases hdigit : ch.toUpper.isDigit = true
  · exact isNameChar_of_isLower_or_isDigit (.inr hdigit)
  · refine isNameChar_of_isAlphanum ?_
    simp [Char.isAlphanum, Char.isAlpha, isUpper_toUpper h hdigit]

theorem isNameChar_of_mem_camelName {tableName : Str} {ch : Char} (h : ch ∈ camelName tableName) :
    isNameChar ch = true := by
  obtain ⟨part, hpart, hch⟩ := List.mem_flatMap.mp h
  obtain ⟨-, hkeep⟩ := of_mem_runs hpart
  cases part with
  | nil => exact absurd hch List.not_mem_nil
  | cons c part =>
      rw [List.forall_mem_cons] at hkeep
      rcases List.mem_cons.mp hch with rfl | hch
      · exact isNameChar_toUpper hkeep.1
      · exact isNameChar_of_isAlphanum (hkeep.2 ch hch)

/-- A table's name comes to a class whose name is no keyword. -/
theorem isName_className (tableName : Str) :
    IsName (className tableName) ∧ isKeyword (className tableName) = false := by
  have hword : ∀ ch ∈ tableWord tableName, isNameChar ch = true := by
    intro ch hch
    rw [tableWord] at hch
    split_ifs at hch
    · rcases List.mem_append.mp hch with hch | hch
      · have hall : ("Table".toList.all isNameChar) = true := by decide
        exact List.all_eq_true.mp hall ch hch
      · exact isNameChar_of_mem_camelName hch
    · exact isNameChar_of_mem_camelName hch
  obtain ⟨ch, rest, hname, hupper⟩ := exists_head_className tableName
  refine ⟨⟨⟨ch, rest, hname, isNameStart_of_isUpper hupper⟩, ?_⟩, ?_⟩
  · rw [className_eq]
    split_ifs
    · rw [List.forall_mem_append]
      have hall : ("Model".toList.all isNameChar) = true := by decide
      exact ⟨hword, List.all_eq_true.mp hall⟩
    · exact hword
  · rw [className_eq]
    split_ifs with hkeyword
    · exact not_isKeyword_model hkeyword
    · simpa using hkeyword

/-! ## Literals -/

theorem hex_eq (width n : Nat) : hex width n = Hex.paddedHex width n := rfl

/-- The escapes with a number have enough digits for the character. -/
theorem scan_numericEscape {letter : Char} {width : Nat}
    (hletter : (letter, width) ∈ numericEscapes) (quote : Char) (read : Str) (hquote : quote ≠ '\\')
    {ch : Char} (hch : ch.toNat < 16 ^ width) :
    scan (.literal quote read) ('\\' :: letter :: hex width ch.toNat) =
      some (.literal quote (ch :: read), []) := by
  have hbackslash : step (.literal quote read) '\\' = some (.escape quote read, []) := by
    rw [step, if_neg (by decide), if_neg (Ne.symm hquote), if_pos rfl]
  have hnumber : step (.escape quote read) letter = some (.number quote read width 0, []) ∧
      0 < width := by
    simp only [numericEscapes, List.mem_cons, List.not_mem_nil, or_false, Prod.mk.injEq] at hletter
    rcases hletter with ⟨rfl, rfl⟩ | ⟨rfl, rfl⟩ | ⟨rfl, rfl⟩
    · exact ⟨rfl, by decide⟩
    · exact ⟨rfl, by decide⟩
    · exact ⟨rfl, by decide⟩
  rw [hex_eq]
  exact scan_cons_of hbackslash (scan_cons_of hnumber.1 (scan_paddedHex read hnumber.2 hch))

theorem scan_escape {letter value : Char} (hvalue : escapes.lookup letter = some value)
    {quote : Char} (hquote : quote ≠ '\\') (read : Str) :
    scan (.literal quote read) ['\\', letter] = some (.literal quote (value :: read), []) := by
  have hbackslash : step (.literal quote read) '\\' = some (.escape quote read, []) := by
    rw [step, if_neg (by decide), if_neg (Ne.symm hquote), if_pos rfl]
  have hletter : step (.escape quote read) letter =
      some (.literal quote (value :: read), []) := by
    rw [step, hvalue]
  exact scan_cons_of hbackslash (scan_cons_of hletter rfl)

theorem scan_plain {quote ch : Char} (read : Str) (hends : endsLine ch = false)
    (hquote : ch ≠ quote) (hbackslash : ch ≠ '\\') :
    scan (.literal quote read) [ch] = some (.literal quote (ch :: read), []) := by
  have hstep : step (.literal quote read) ch = some (.literal quote (ch :: read), []) := by
    rw [step, if_neg (by simp [hends]), if_neg hquote, if_neg hbackslash]
  exact scan_cons_of hstep rfl

theorem endsLine_of_toNat {ch : Char} (h : 32 ≤ ch.toNat) : endsLine ch = false := by
  rw [Bool.eq_false_iff, Ne, endsLine_iff]
  rintro (rfl | rfl | rfl)
  · exact absurd h (by decide)
  · exact absurd h (by decide)
  · exact absurd h (by decide)

/-- **A character of a literal is read back.** -/
theorem scan_reprChar {quote : Char} (hquote : isQuote quote = true) (ch : Char) (read : Str) :
    scan (.literal quote read) (reprChar isPrintable quote ch) =
      some (.literal quote (ch :: read), []) := by
  have hkinds : quote = '\'' ∨ quote = '"' := by simpa [isQuote] using hquote
  have hne : quote ≠ '\\' := by
    rcases hkinds with rfl | rfl
    · decide
    · decide
  have hlimit : ch.toNat < 16 ^ 8 := by
    have hvalid : ch.toNat.isValidChar := ch.valid
    rw [Nat.isValidChar] at hvalid
    omega
  unfold reprChar
  split_ifs with hsyntax htab hlf hcr hcontrol hplain hbyte hshort
  · have hvalue : escapes.lookup ch = some ch := by
      rcases hsyntax with rfl | rfl
      · rcases hkinds with rfl | rfl
        · rfl
        · rfl
      · rfl
    exact scan_escape hvalue hne read
  · subst htab
    exact scan_escape rfl hne read
  · subst hlf
    exact scan_escape rfl hne read
  · subst hcr
    exact scan_escape rfl hne read
  · exact scan_numericEscape (show ('x', 2) ∈ numericEscapes by decide) quote read hne (by omega)
  · rw [not_or] at hsyntax hcontrol
    exact scan_plain read (endsLine_of_toNat (by omega)) hsyntax.1 hsyntax.2
  · exact scan_numericEscape (show ('x', 2) ∈ numericEscapes by decide) quote read hne hbyte
  · exact scan_numericEscape (show ('u', 4) ∈ numericEscapes by decide) quote read hne hshort
  · exact scan_numericEscape (show ('U', 8) ∈ numericEscapes by decide) quote read hne hlimit

theorem scan_flatMap_reprChar {quote : Char} (hquote : isQuote quote = true) (s read : Str) :
    scan (.literal quote read) (s.flatMap (reprChar isPrintable quote)) =
      some (.literal quote (s.reverse ++ read), []) := by
  induction s generalizing read with
  | nil => rfl
  | cons ch s ih =>
      rw [List.flatMap_cons, List.reverse_cons, List.append_assoc]
      exact scan_append_of (scan_reprChar isPrintable hquote ch read) (ih (ch :: read))

theorem isQuote_reprQuote (s : Str) : isQuote (reprQuote s) = true := by
  rw [reprQuote]
  split_ifs
  · rfl
  · rfl

theorem step_quote {state : State} (hstate : state = .between ∨ state = .mark) {quote : Char}
    (hquote : isQuote quote = true) : step state quote = some (.literal quote [], []) := by
  have hkinds : quote = '\'' ∨ quote = '"' := by simpa [isQuote] using hquote
  rcases hstate with rfl | rfl
  · rcases hkinds with rfl | rfl
    · rfl
    · rfl
  · rcases hkinds with rfl | rfl
    · rfl
    · rfl

/-- **A literal is read back**, whatever the text. -/
theorem scan_reprStr {state : State} (hstate : state = .between ∨ state = .mark) (s : Str) :
    scan state (reprStr isPrintable s) = some (.closed, [Token.str s]) := by
  have hquote := isQuote_reprQuote s
  have hbody := scan_flatMap_reprChar isPrintable hquote s []
  have hkinds : reprQuote s = '\'' ∨ reprQuote s = '"' := by simpa [isQuote] using hquote
  have hclose : scan (.literal (reprQuote s) (s.reverse ++ [])) [reprQuote s] =
      some (.closed, [Token.str s]) := by
    have hends : ¬ endsLine (reprQuote s) = true := by
      rcases hkinds with h | h
      · rw [h]
        decide
      · rw [h]
        decide
    rw [scan, step, if_neg hends, if_pos rfl]
    simp [scan]
  exact scan_append_of (scan_cons_of (step_quote hstate hquote) hbody) hclose

/-! ## Arguments -/

/-- An argument of a call, up to what stands behind it. -/
def Reads (text : Str) (tokens : List Token) : Prop :=
  ∀ state, state = .between ∨ state = .mark → ∀ ch, ch = ',' ∨ ch = ')' →
    scan state (text ++ [ch]) = some (.mark, tokens ++ [.mark ch])

theorem step_argEnd {state : State} (hstate : state = .mark ∨ state = .closed) {ch : Char}
    (hch : ch = ',' ∨ ch = ')') : scan state [ch] = some (.mark, [.mark ch]) := by
  rcases hstate with rfl | rfl
  · rcases hch with rfl | rfl
    · rfl
    · rfl
  · rcases hch with rfl | rfl
    · rfl
    · rfl

theorem reads_reprStr (s : Str) : Reads (reprStr isPrintable s) [.str s] := fun _ hstate _ hch =>
  scan_append_of (scan_reprStr isPrintable hstate s) (step_argEnd (.inr rfl) hch)

theorem reads_foreignKey (target : Str) :
    Reads ("ForeignKey(".toList ++ reprStr isPrintable target ++ ")".toList)
      [Token.name "ForeignKey".toList, Token.mark '(', Token.str target, Token.mark ')'] := by
  intro state hstate ch hch
  have hopen : scan state "ForeignKey(".toList =
      some (.mark, [Token.name "ForeignKey".toList, Token.mark '(']) := by
    rcases hstate with rfl | rfl
    · rfl
    · rfl
  have htarget := scan_reprStr isPrintable (.inr rfl) target
  have hclose := step_argEnd (.inr rfl) (.inr rfl)
  exact scan_append_of (scan_append_of (scan_append_of hopen htarget) hclose)
    (step_argEnd (.inl rfl) hch)

theorem reads_primaryKey : Reads "primary_key=True".toList
    (keywordArg ("primary_key".toList, [Token.name "True".toList])) := by
  intro state hstate ch hch
  rcases hstate with rfl | rfl
  · rcases hch with rfl | rfl
    · rfl
    · rfl
  · rcases hch with rfl | rfl
    · rfl
    · rfl

/-- The arguments of a call. -/
theorem scan_args {args : List Str} {parts : List (List Token)} (h : List.Forall₂ Reads args parts)
    {state : State} (hstate : state = .between ∨ state = .mark) :
    scan state (join ", ".toList args ++ ")".toList) =
      some (.mark, commas parts ++ [Token.mark ')']) := by
  induction h generalizing state with
  | nil =>
      rcases hstate with rfl | rfl
      · rfl
      · rfl
  | @cons arg part args parts harg hargs ih =>
      cases hargs with
      | nil =>
          rw [join_singleton, commas, List.intercalate_singleton]
          exact harg state hstate ')' (.inr rfl)
      | @cons arg' part' args parts harg' hargs =>
          have hnext := ih (.inl rfl)
          have hspace : scan .mark " ".toList = some (.between, []) := rfl
          have hcomma := harg state hstate ',' (.inl rfl)
          have hrun := scan_append_of (scan_append_of hcomma hspace) hnext
          have htext : join ", ".toList (arg :: arg' :: args) ++ ")".toList =
              arg ++ [','] ++ " ".toList ++ (join ", ".toList (arg' :: args) ++ ")".toList) := by
            rw [join_cons_cons]
            simp
          have htokens : commas (part :: part' :: parts) ++ [Token.mark ')'] =
              part ++ [Token.mark ','] ++ [] ++ (commas (part' :: parts) ++ [Token.mark ')']) := by
            simp [commas, List.intercalate]
          rw [htext, htokens]
          exact hrun

theorem forall₂_args (attr : Attribute) : List.Forall₂ Reads (attr.args isPrintable)
    (attr.positional ++ attr.keywordArgs.map keywordArg) := by
  rw [Attribute.args, Attribute.positional, Attribute.keywordArgs]
  refine List.rel_append (List.rel_append ?_ ?_) ?_
  · cases attr.columnName with
    | none => exact .nil
    | some name => exact .cons (reads_reprStr isPrintable name) .nil
  · cases attr.foreignKey with
    | none => exact .nil
    | some target => exact .cons (reads_foreignKey isPrintable target) .nil
  · split_ifs
    · exact .cons reads_primaryKey .nil
    · exact .nil

/-! ## Lines of the body -/

theorem lexLine_of_scan {text : Str} {last : State} {tokens rest : List Token}
    {comment : Option Str} (indent : Nat) (hhead : text.head? ≠ some ' ')
    (hrun : scan .between text = some (last, tokens))
    (hfinish : finish last = some (rest, comment)) :
    lexLine (List.replicate indent ' ' ++ text) = some ⟨indent, tokens ++ rest, comment⟩ := by
  have hindent : ∀ n, scan .between (List.replicate n ' ') = some (.between, []) := by
    intro n
    induction n with
    | zero => rfl
    | succ n ih =>
        have hspace : step .between ' ' = some (.between, []) := rfl
        exact scan_cons_of hspace ih
  have htake : (List.replicate indent ' ' ++ text).takeWhile (· = ' ') =
      List.replicate indent ' ' := by
    refine takeWhile_append_stop ?_ ?_
    · intro ch hch
      rw [List.eq_of_mem_replicate hch]
      rfl
    · intro ch hch
      refine decide_eq_false ?_
      rintro rfl
      exact hhead hch
  have hline := scan_append_of (hindent indent) hrun
  rw [lexLine, hline, Option.bind_some, hfinish, htake, List.length_replicate]
  rfl

theorem head_ne_space {name : Str} (h : IsName name) {rest : Str} :
    (name ++ rest).head? ≠ some ' ' := by
  obtain ⟨ch, s, rfl, hstart⟩ := h.head
  intro he
  rw [List.cons_append, List.head?_cons, Option.some.injEq] at he
  rw [he] at hstart
  exact absurd hstart (by decide)

/-- The types that `_map_type` can answer with. -/
theorem pyType_mem {rawType pyType : Str} (h : (mapType unicode rawType pyTypes).getD
    "str".toList = pyType) : pyType ∈ pyTypes.map (·.2) := by
  rw [← h, mapType]
  cases hfind : pyTypes.find? fun line => line.1 (unicode.lower (strip rawType)) with
  | none =>
      rw [Option.map_none, Option.getD_none]
      decide
  | some line =>
      rw [Option.map_some, Option.getD_some]
      exact List.mem_map_of_mem (List.mem_of_find?_eq_some hfind)

theorem scan_annotated {pyType : Str} (h : pyType ∈ pyTypes.map (·.2)) (nullable : Bool) :
    scan .mark (pyType ++ (if nullable then " | None".toList else []) ++
      "] = mapped_column(".toList) =
        some (.mark, typeTokens pyType ++
          (if nullable then [Token.mark '|', Token.name "None".toList] else []) ++
            [Token.mark ']', Token.mark '=', Token.name "mapped_column".toList,
              Token.mark '(']) := by
  have hall : ∀ pyType ∈ pyTypes.map (·.2), ∀ nullable : Bool,
      scan .mark (pyType ++ (if nullable then " | None".toList else []) ++
        "] = mapped_column(".toList) =
          some (.mark, typeTokens pyType ++
            (if nullable then [Token.mark '|', Token.name "None".toList] else []) ++
              [Token.mark ']', Token.mark '=', Token.name "mapped_column".toList,
                Token.mark '(']) := by
    decide +kernel
  exact hall pyType h nullable

theorem scan_typeComment (comment : Option Str) : ∃ last,
    scan .mark ((comment.map fun rawType => "  # type: ".toList ++ rawType).getD []) =
        some (last, []) ∧
      finish last = some ([], comment.map fun rawType => " type: ".toList ++ rawType) := by
  cases comment with
  | none => exact ⟨.mark, rfl, rfl⟩
  | some rawType =>
      have hstart : scan .mark "  #".toList = some (.comment [], []) := rfl
      refine ⟨_, scan_append_of hstart (scan_comment [] (" type: ".toList ++ rawType)), ?_⟩
      rw [List.append_nil, finish, List.reverse_reverse]
      rfl

theorem Attribute.line_eq (attr : Attribute) : attr.line isPrintable =
    List.replicate 4 ' ' ++ (attr.name ++ ": Mapped[".toList ++
      (attr.pyType ++ (if attr.nullable then " | None".toList else []) ++
        "] = mapped_column(".toList) ++
      (join ", ".toList (attr.args isPrintable) ++ ")".toList) ++
      (attr.comment.map fun rawType => "  # type: ".toList ++ rawType).getD []) := by
  have hindent : List.replicate 4 ' ' = "    ".toList := by decide
  unfold Attribute.line
  rw [hindent]
  simp only [List.append_assoc]

/-- **The line of a column** has its strings in an identifier, in literals and in the comment. -/
theorem lexLine_attribute {attr : Attribute} (hname : IsName attr.name)
    (htype : attr.pyType ∈ pyTypes.map (·.2)) :
    lexLine (attr.line isPrintable) = some attr.parsed := by
  obtain ⟨last, hcomment, hfinish⟩ := scan_typeComment attr.comment
  have hmapped : scan (.name attr.name.reverse) ": Mapped[".toList =
      some (.mark, [Token.name attr.name.reverse.reverse, Token.mark ':',
        Token.name "Mapped".toList, Token.mark '[']) := rfl
  have hcall := scan_args (forall₂_args isPrintable attr) (.inr rfl)
  have hrun := scan_append_of (scan_append_of (scan_append_of (scan_append_of (scan_isName hname)
    hmapped) (scan_annotated htype attr.nullable)) hcall) hcomment
  have hline := lexLine_of_scan 4 ?_ hrun hfinish
  · rw [Attribute.line_eq, hline, Attribute.parsed, Attribute.annotation, Attribute.call,
      List.reverse_reverse]
    simp
  · rw [List.append_assoc, List.append_assoc, List.append_assoc]
    exact head_ne_space hname

/-- A line of the body that is some text, a literal and an end. -/
theorem lexLine_literal {before after : Str} {state last : State} {tokens rest : List Token}
    (hhead : before.head? ≠ some ' ') (hbefore : scan .between before = some (state, tokens))
    (hstate : state = .between ∨ state = .mark) (hafter : scan .closed after = some (last, rest))
    (hfinish : finish last = some ([], none)) (s : Str) :
    lexLine ("    ".toList ++ (before ++ reprStr isPrintable s ++ after)) =
      some (bodyLine (tokens ++ [Token.str s] ++ rest)) := by
  have hrun := scan_append_of (scan_append_of hbefore (scan_reprStr isPrintable hstate s)) hafter
  have hline := lexLine_of_scan 4 ?_ hrun hfinish
  · rw [List.append_nil] at hline
    exact hline
  · cases before with
    | nil =>
        intro he
        have hquote := isQuote_reprQuote s
        have hhead : (reprStr isPrintable s ++ after).head? = some (reprQuote s) := rfl
        rw [List.nil_append, hhead, Option.some.injEq] at he
        rw [he] at hquote
        exact absurd hquote (by decide)
    | cons c before => exact hhead

theorem lexLine_class {name : Str} (hname : IsName name) :
    lexLine ("class ".toList ++ name ++ "(Base):".toList) =
      some (classLine name "Base".toList) := by
  have hclass : scan .between "class ".toList = some (.between, [Token.name "class".toList]) := rfl
  have hbase : scan (.name name.reverse) "(Base):".toList =
      some (.mark, [Token.name name.reverse.reverse, Token.mark '(', Token.name "Base".toList,
        Token.mark ')', Token.mark ':']) := rfl
  have hrun := scan_append_of (scan_append_of hclass (scan_isName hname)) hbase
  have hline := lexLine_of_scan 0 ?_ hrun rfl
  · rw [List.replicate_zero, List.nil_append] at hline
    rw [hline, List.reverse_reverse]
    rfl
  · have hhead : ("class ".toList ++ name ++ "(Base):".toList).head? = some 'c' := rfl
    rw [hhead]
    decide

/-! ## The lines of a class -/

/-- What the models are made of. -/
structure ModelClass.WellFormed (model : ModelClass) : Prop where
  name : IsName model.name
  class_ : isKeyword model.name = false
  attributes : ∀ attr ∈ model.attributes, IsName attr.name ∧ isKeyword attr.name = false ∧
    attr.pyType ∈ pyTypes.map (·.2)

theorem wellFormed_of_mem {s : Snapshot} {model : ModelClass} (h : model ∈ modelClasses unicode s) :
    model.WellFormed := by
  obtain ⟨rel, -, rfl⟩ := List.mem_map.mp h
  refine ⟨(isName_className rel.relationName).1, (isName_className rel.relationName).2, ?_⟩
  intro attr hattr
  obtain ⟨col, -, rfl⟩ := List.mem_map.mp hattr
  have hname : (columnAttribute unicode (index s) rel.relationOid col).name =
      ident col.columnName := fieldName_eq _ _
  rw [hname]
  exact ⟨(isName_ident col.columnName).1, (isName_ident col.columnName).2, pyType_mem unicode rfl⟩

theorem lexLine_nil : lexLine [] = some Line.blank := rfl

theorem lexLine_pass : lexLine "    pass".toList = some (bodyLine [Token.name "pass".toList]) := rfl

theorem scan_nil (state : State) : scan state [] = some (state, []) := rfl

theorem lexLine_tableName (tableName : Str) :
    lexLine ("    __tablename__ = ".toList ++ reprStr isPrintable tableName) =
      some (bodyLine [Token.name "__tablename__".toList, Token.mark '=', Token.str tableName]) := by
  have hbefore : scan .between "__tablename__ = ".toList =
      some (.between, [Token.name "__tablename__".toList, Token.mark '=']) := rfl
  have hline := lexLine_literal isPrintable (by decide) hbefore (.inl rfl) (scan_nil .closed) rfl
    tableName
  rw [List.append_nil] at hline
  exact hline

theorem forall₂_lexLine_comment (comment : Option Str) :
    List.Forall₂ (fun text line => lexLine text = some line)
      ((comment.map fun comment => ["    ".toList ++ reprStr isPrintable comment, []]).getD [])
      ((comment.map fun comment => [bodyLine [Token.str comment], Line.blank]).getD []) := by
  cases comment with
  | none => exact .nil
  | some comment =>
      have hline := lexLine_literal isPrintable (by decide) (scan_nil .between) (.inl rfl)
        (scan_nil .closed) rfl comment
      rw [List.nil_append, List.append_nil] at hline
      exact .cons hline (.cons lexLine_nil .nil)

theorem forall₂_lexLine_schema (schema : Option Str) :
    List.Forall₂ (fun text line => lexLine text = some line)
      (schema.map fun schema => "    __table_args__ = \x7b'schema': ".toList ++
        reprStr isPrintable schema ++ "\x7d".toList).toList
      (schema.map fun schema => bodyLine [Token.name "__table_args__".toList, Token.mark '=',
        Token.mark '\x7b', Token.str "schema".toList, Token.mark ':', Token.str schema,
        Token.mark '\x7d']).toList := by
  cases schema with
  | none => exact .nil
  | some schema =>
      have hbefore : scan .between "__table_args__ = \x7b'schema': ".toList =
          some (.between, [Token.name "__table_args__".toList, Token.mark '=', Token.mark '\x7b',
            .str "schema".toList, Token.mark ':']) := rfl
      have hafter : scan .closed "\x7d".toList = some (.mark, [Token.mark '\x7d']) := rfl
      have hline := lexLine_literal isPrintable (by decide) hbefore (.inl rfl) hafter rfl schema
      exact .cons hline .nil

theorem forall₂_lexLine_attributes {model : ModelClass} (h : model.WellFormed) :
    List.Forall₂ (fun text line => lexLine text = some line)
      (if model.attributes = [] then ["    pass".toList]
        else model.attributes.map (Attribute.line isPrintable))
      (if model.attributes = [] then [bodyLine [Token.name "pass".toList]]
        else model.attributes.map Attribute.parsed) := by
  split_ifs
  · exact .cons lexLine_pass .nil
  · rw [List.forall₂_map_left_iff, List.forall₂_map_right_iff, List.forall₂_same]
    intro attr hattr
    obtain ⟨hname, -, htype⟩ := h.attributes attr hattr
    exact lexLine_attribute isPrintable hname htype

/-- **The lines of a class** have the strings of its table in their places. -/
theorem forall₂_lexLine_lines {model : ModelClass} (h : model.WellFormed) :
    List.Forall₂ (fun text line => lexLine text = some line) (model.lines isPrintable)
      model.parsed := by
  have hcomment := forall₂_lexLine_comment isPrintable model.comment
  have htable := lexLine_tableName isPrintable model.tableName
  have hschema := forall₂_lexLine_schema isPrintable model.schema
  have hattributes := forall₂_lexLine_attributes isPrintable h
  rw [ModelClass.lines, ModelClass.parsed, ModelClass.body]
  simp only [List.append_assoc, List.cons_append, List.nil_append]
  refine .cons lexLine_nil (.cons lexLine_nil (.cons (lexLine_class h.name) ?_))
  exact List.rel_append hcomment (.cons htable (List.rel_append hschema hattributes))

/-! ## The text -/

theorem forall₂_lexLine_header : List.Forall₂ (fun text line => lexLine text = some line)
    sqlalchemyHeader parsedHeader :=
  mapM_eq_some.mp (by decide +kernel)

theorem forall₂_lexLine_text (s : Snapshot) :
    List.Forall₂ (fun text line => lexLine text = some line)
      (sqlalchemyHeader ++ (modelClasses unicode s).flatMap (ModelClass.lines isPrintable) ++ [[]])
      (parsedModels unicode s) := by
  have hclasses : ∀ models : List ModelClass, (∀ model ∈ models, model.WellFormed) →
      List.Forall₂ (fun text line => lexLine text = some line)
        (models.flatMap (ModelClass.lines isPrintable)) (models.flatMap ModelClass.parsed) := by
    intro models hmodels
    induction models with
    | nil => exact .nil
    | cons model models ih =>
        rw [List.forall_mem_cons] at hmodels
        exact List.rel_append (forall₂_lexLine_lines isPrintable hmodels.1) (ih hmodels.2)
  exact List.rel_append (List.rel_append forall₂_lexLine_header
    (hclasses _ fun _ hmodel => wellFormed_of_mem unicode hmodel)) (.cons lexLine_nil .nil)

theorem generateSqlalchemyModels_eq (s : Snapshot) :
    generateSqlalchemyModels unicode isPrintable s = join "\n".toList
      (sqlalchemyHeader ++ (modelClasses unicode s).flatMap (ModelClass.lines isPrintable) ++
        [[]]) := by
  rw [join_append (List.append_ne_nil_of_left_ne_nil (by decide) _) (by decide), join_singleton,
    List.append_nil]
  rfl

/-! ## The grammar -/

theorem expr_typeTokens {pyType : Str} (h : pyType ∈ pyTypes.map (·.2)) :
    Expr isKeyword (typeTokens pyType) := by
  have hall : ∀ pyType ∈ pyTypes.map (·.2), split '.' pyType ≠ [] ∧
      ∀ name ∈ split '.' pyType, isKeyword name = false := by
    decide
  exact Expr.of_isDotted (hall pyType h)

theorem expr_annotated {attr : Attribute} (h : attr.pyType ∈ pyTypes.map (·.2)) :
    Expr isKeyword attr.annotation := by
  have htype := expr_typeTokens h
  have hinner : Expr isKeyword (typeTokens attr.pyType ++
      if attr.nullable then [Token.mark '|', Token.name "None".toList] else []) := by
    split_ifs
    · have hunion := Expr.union htype (.constant (show "None".toList ∈ _ by decide))
      rwa [List.append_assoc] at hunion
    · rwa [List.append_nil]
  exact .subscript (.name (by decide)) hinner

theorem expr_call (attr : Attribute) : Expr isKeyword attr.call := by
  refine .call (.name (by decide)) ?_ ?_ ?_
  · intro arg harg
    rw [Attribute.positional, List.mem_append, Option.mem_toList, Option.mem_toList] at harg
    rcases harg with harg | harg
    · obtain ⟨name, -, rfl⟩ := Option.map_eq_some_iff.mp harg
      exact .str name
    · obtain ⟨target, -, rfl⟩ := Option.map_eq_some_iff.mp harg
      have htarget : ∀ arg ∈ [[Token.str target]], Expr isKeyword arg := by
        intro arg harg
        rw [List.mem_singleton.mp harg]
        exact .str target
      have hcall : Expr isKeyword ([Token.name "ForeignKey".toList] ++ [Token.mark '('] ++
          commas ([[Token.str target]] ++ ([] : List (Str × List Token)).map keywordArg) ++
            [Token.mark ')']) :=
        .call (.name (by decide)) htarget (by simp) (by simp)
      exact hcall
  · intro arg harg
    rw [Attribute.keywordArgs] at harg
    split_ifs at harg
    · rw [List.mem_singleton.mp harg]
      decide
    · exact absurd harg List.not_mem_nil
  · intro arg harg
    rw [Attribute.keywordArgs] at harg
    split_ifs at harg
    · rw [List.mem_singleton.mp harg]
      exact .constant (by decide)
    · exact absurd harg List.not_mem_nil

theorem simple_attribute {attr : Attribute} (hname : isKeyword attr.name = false)
    (htype : attr.pyType ∈ pyTypes.map (·.2)) : Simple isKeyword attr.parsed.tokens :=
  .annotated hname (expr_annotated htype) (expr_call attr)

/-- The statements of a class. -/
theorem simple_body {model : ModelClass} (h : model.WellFormed) {line : Line}
    (hline : line ∈ model.body.filter fun line => line.tokens ≠ []) :
    line.indent = 4 ∧ Simple isKeyword line.tokens := by
  obtain ⟨hmem, htokens⟩ := List.mem_filter.mp hline
  rw [ModelClass.body, List.mem_append, List.mem_append, List.mem_append] at hmem
  rcases hmem with ((hmem | hmem) | hmem) | hmem
  · cases hcomment : model.comment with
    | none =>
        rw [hcomment] at hmem
        exact absurd hmem List.not_mem_nil
    | some comment =>
        rw [hcomment, Option.map_some, Option.getD_some] at hmem
        rcases List.mem_cons.mp hmem with rfl | hmem
        · exact ⟨rfl, .expr (.str comment)⟩
        · rw [List.mem_singleton.mp hmem] at htokens
          exact absurd htokens (by decide)
  · rw [List.mem_singleton.mp hmem]
    exact ⟨rfl, .assign (by decide) (.str model.tableName)⟩
  · obtain ⟨schema, -, rfl⟩ := Option.map_eq_some_iff.mp (Option.mem_toList.mp hmem)
    exact ⟨rfl, .assign (by decide) (.dict (.str "schema".toList) (.str schema))⟩
  · split_ifs at hmem
    · rw [List.mem_singleton.mp hmem]
      exact ⟨rfl, .pass⟩
    · obtain ⟨attr, hattr, rfl⟩ := List.mem_map.mp hmem
      obtain ⟨-, hname, htype⟩ := h.attributes attr hattr
      exact ⟨rfl, simple_attribute hname htype⟩

/-- Classes with a base, one behind the other. -/
theorem block_class {name base : Str} (hname : isKeyword name = false)
    (hbase : isKeyword base = false) {body : List Line} (hne : body ≠ [])
    (hbody : ∀ line ∈ body, line.indent = 4 ∧ Simple isKeyword line.tokens) :
    Block isKeyword 0 (classLine name base :: body) := by
  have hblock : Block isKeyword 0 (classLine name base :: (body ++ [])) :=
    .classDef rfl hname (.name hbase) rfl (by decide : 0 < 4) hne (Block.of_simple hbody) (.nil 0)
  rwa [List.append_nil] at hblock

theorem block_parsed {model : ModelClass} (h : model.WellFormed) :
    Block isKeyword 0 (model.parsed.filter fun line => line.tokens ≠ []) := by
  have hfilter : (model.parsed.filter fun line => line.tokens ≠ []) =
      classLine model.name "Base".toList ::
        model.body.filter fun line => line.tokens ≠ [] := by
    rw [ModelClass.parsed, List.filter_append]
    rfl
  have htable : bodyLine [Token.name "__tablename__".toList, Token.mark '=',
      Token.str model.tableName] ∈ model.body.filter fun line => line.tokens ≠ [] := by
    refine List.mem_filter.mpr ⟨?_, rfl⟩
    simp [ModelClass.body]
  rw [hfilter]
  exact block_class h.class_ (by decide) (List.ne_nil_of_mem htable) fun _ => simple_body h

theorem block_header : Block isKeyword 0 (parsedHeader.filter fun line => line.tokens ≠ []) := by
  have hfilter : (parsedHeader.filter fun line => line.tokens ≠ []) =
      [headerLine ["from", "__future__", "import", "annotations"],
        headerLine ["import", "datetime", "as", "dt"],
        headerLine ["import", "uuid"],
        headerLine ["from", "decimal", "import", "Decimal"],
        headerLine ["from", "sqlalchemy", "import", "ForeignKey"],
        ⟨0, Token.name "from".toList :: (dotted ["sqlalchemy".toList, "orm".toList] ++
          [Token.name "import".toList] ++ commas [[Token.name "DeclarativeBase".toList],
            [Token.name "Mapped".toList], [Token.name "mapped_column".toList]]), none⟩] ++
        [classLine "Base".toList "DeclarativeBase".toList,
          bodyLine [Token.name "pass".toList]] := by
    decide
  rw [hfilter]
  refine Block.append (Block.of_simple ?_) (block_class (by decide) (by decide) (by decide) ?_)
  · simp only [List.forall_mem_cons]
    refine ⟨⟨rfl, ?_⟩, ⟨rfl, ?_⟩, ⟨rfl, ?_⟩, ⟨rfl, ?_⟩, ⟨rfl, ?_⟩, ⟨trivial, ?_⟩, by simp⟩
    · exact .importFrom ["__future__".toList] ["annotations".toList]
        ⟨by decide, by decide⟩ ⟨by decide, by decide⟩
    · exact .importAs ["datetime".toList] "dt".toList ⟨by decide, by decide⟩ (by decide)
    · exact .importModule ["uuid".toList] ⟨by decide, by decide⟩
    · exact .importFrom ["decimal".toList] ["Decimal".toList]
        ⟨by decide, by decide⟩ ⟨by decide, by decide⟩
    · exact .importFrom ["sqlalchemy".toList] ["ForeignKey".toList]
        ⟨by decide, by decide⟩ ⟨by decide, by decide⟩
    · exact .importFrom ["sqlalchemy".toList, "orm".toList]
        ["DeclarativeBase".toList, "Mapped".toList, "mapped_column".toList]
        ⟨by decide, by decide⟩ ⟨by decide, by decide⟩
  · intro line hline
    rw [List.mem_singleton.mp hline]
    exact ⟨rfl, .pass⟩

theorem module_parsedModels (s : Snapshot) : IsModule isKeyword (parsedModels unicode s) := by
  have hclasses : ∀ models : List ModelClass, (∀ model ∈ models, model.WellFormed) →
      Block isKeyword 0
        ((models.flatMap ModelClass.parsed).filter fun line => line.tokens ≠ []) := by
    intro models hmodels
    induction models with
    | nil => exact .nil 0
    | cons model models ih =>
        rw [List.forall_mem_cons] at hmodels
        rw [List.flatMap_cons, List.filter_append]
        exact (block_parsed hmodels.1).append (ih hmodels.2)
  rw [IsModule, parsedModels, List.filter_append, List.filter_append]
  exact (block_header.append (hclasses _ fun _ hmodel => wellFormed_of_mem unicode hmodel)).append
    (.nil 0)

/-! ## The main theorem -/

theorem mem_unmappedTypes {s : Snapshot} {rawType : Str} :
    rawType ∈ unmappedTypes unicode s ↔
      ∃ model ∈ modelClasses unicode s, ∃ attr ∈ model.attributes, attr.comment = some rawType := by
  have hcomment (oid : Option Int) (col : ColumnRow) :
      (columnAttribute unicode (index s) oid col).comment = some rawType ↔
        text col.dataType = rawType ∧ counterpart unicode rawType = none := by
    rw [columnAttribute]
    dsimp only
    rw [mapType_eq_counterpart]
    constructor
    · intro h
      split_ifs at h with hnone
      obtain rfl := Option.some.inj h
      exact ⟨rfl, hnone⟩
    · rintro ⟨rfl, hnone⟩
      rw [if_pos hnone]
  simp only [unmappedTypes, List.mem_filter, List.mem_map, List.mem_flatMap, decide_eq_true_eq,
    modelClasses, relations_eq_tables]
  constructor
  · rintro ⟨⟨col, ⟨rel, hrel, hcol⟩, hraw⟩, hnone⟩
    rw [← cols_eq_columnsOf] at hcol
    exact ⟨_, ⟨rel, hrel, rfl⟩, _, List.mem_map_of_mem hcol, (hcomment _ col).mpr ⟨hraw, hnone⟩⟩
  · rintro ⟨model, ⟨rel, hrel, rfl⟩, attr, hattr, hraw⟩
    obtain ⟨col, hcol, rfl⟩ := List.mem_map.mp hattr
    obtain ⟨htext, hnone⟩ := (hcomment _ col).mp hraw
    rw [cols_eq_columnsOf] at hcol
    exact ⟨⟨col, ⟨rel, hrel, hcol⟩, htext⟩, hnone⟩

theorem staysInComment_iff {text : Str} :
    StaysInComment text ↔ ∀ ch ∈ text, endsLine ch = false := by
  constructor
  · rintro ⟨hlf, hcr, hnul⟩ ch hch
    rw [Bool.eq_false_iff, Ne, endsLine_iff]
    rintro (rfl | rfl | rfl)
    · exact hlf hch
    · exact hcr hch
    · exact hnul hch
  · intro h
    exact ⟨fun hch => absurd (h _ hch) (by decide), fun hch => absurd (h _ hch) (by decide),
      fun hch => absurd (h _ hch) (by decide)⟩

/-- Only columns have comments. -/
theorem of_mem_parsed_comment {model : ModelClass} {line : Line} (hline : line ∈ model.parsed)
    {comment : Str} (hcomment : line.comment = some comment) :
    ∃ attr ∈ model.attributes, line = attr.parsed := by
  have hnone : line.comment ≠ none := by
    rw [hcomment]
    exact Option.some_ne_none comment
  rw [ModelClass.parsed, ModelClass.body, List.mem_append, List.mem_append, List.mem_append,
    List.mem_append] at hline
  rcases hline with hline | ((hline | hline) | hline) | hline
  · simp only [List.mem_cons, List.not_mem_nil, or_false] at hline
    rcases hline with rfl | rfl | rfl
    · exact absurd rfl hnone
    · exact absurd rfl hnone
    · exact absurd rfl hnone
  · cases hmodel : model.comment with
    | none =>
        rw [hmodel] at hline
        exact absurd hline List.not_mem_nil
    | some text =>
        rw [hmodel, Option.map_some, Option.getD_some] at hline
        rcases List.mem_cons.mp hline with rfl | hline
        · exact absurd rfl hnone
        · rw [List.mem_singleton.mp hline] at hnone
          exact absurd rfl hnone
  · rw [List.mem_singleton.mp hline] at hnone
    exact absurd rfl hnone
  · obtain ⟨schema, -, rfl⟩ := Option.map_eq_some_iff.mp (Option.mem_toList.mp hline)
    exact absurd rfl hnone
  · split_ifs at hline
    · rw [List.mem_singleton.mp hline] at hnone
      exact absurd rfl hnone
    · obtain ⟨attr, hattr, rfl⟩ := List.mem_map.mp hline
      exact ⟨attr, hattr, rfl⟩

/-- The comments are those of the header, which are clean, and the types without counterpart. -/
theorem cleanComments_parsedModels {s : Snapshot}
    (h : ∀ rawType ∈ unmappedTypes unicode s, StaysInComment rawType) :
    CleanComments (parsedModels unicode s) := by
  have hheader : (parsedHeader.all fun line =>
      (line.comment.getD []).all fun ch => !endsLine ch) = true := rfl
  have hlabel : (" type: ".toList.all fun ch => !endsLine ch) = true := rfl
  intro line hline comment hcomment
  rw [parsedModels, List.mem_append, List.mem_append] at hline
  rcases hline with (hline | hline) | hline
  · have hclean := List.all_eq_true.mp hheader line hline
    rw [hcomment, Option.getD_some, List.all_eq_true] at hclean
    exact fun ch hch => Bool.not_eq_true' _ ▸ hclean ch hch
  · obtain ⟨model, hmodel, hline⟩ := List.mem_flatMap.mp hline
    obtain ⟨attr, hattr, rfl⟩ := of_mem_parsed_comment hline hcomment
    obtain ⟨rawType, hraw, rfl⟩ := Option.map_eq_some_iff.mp hcomment
    have hmem := (mem_unmappedTypes unicode).mpr ⟨model, hmodel, attr, hattr, hraw⟩
    rw [List.forall_mem_append]
    refine ⟨fun ch hch => ?_, staysInComment_iff.mp (h rawType hmem)⟩
    exact Bool.not_eq_true' _ ▸ List.all_eq_true.mp hlabel ch hch
  · rw [List.mem_singleton.mp hline] at hcomment
    exact absurd hcomment (by simp [Line.blank])

/-- **The generated text is Python with the strings of the database in their places exactly when
    no type without counterpart has a line break or a `NUL`.** -/
theorem parses_iff (s : Snapshot) :
    Parses unicode isPrintable s ↔
      ∀ rawType ∈ unmappedTypes unicode s, StaysInComment rawType := by
  constructor
  · intro h rawType hraw
    obtain ⟨model, hmodel, attr, hattr, hcomment⟩ := (mem_unmappedTypes unicode).mp hraw
    have hline : attr.parsed ∈ parsedModels unicode s := by
      have hne : model.attributes ≠ [] := List.ne_nil_of_mem hattr
      refine List.mem_append_left _ (List.mem_append_right _ (List.mem_flatMap.mpr
        ⟨model, hmodel, List.mem_append_right _ (List.mem_append_right _ ?_)⟩))
      rw [if_neg hne]
      exact List.mem_map_of_mem hattr
    have hclean := cleanComments_of_lexModule (parsedModels_eq unicode s ▸ h.read) attr.parsed hline
      (" type: ".toList ++ rawType) (by rw [Attribute.parsed, hcomment]; rfl)
    rw [List.forall_mem_append] at hclean
    exact staysInComment_iff.mpr hclean.2
  · intro h
    refine ⟨?_, parsedModels_eq unicode s ▸ module_parsedModels unicode s⟩
    rw [generateSqlalchemyModels_eq, ← parsedModels_eq]
    exact lexModule_join (List.append_ne_nil_of_right_ne_nil _ (by decide))
      (forall₂_lexLine_text unicode isPrintable s) (cleanComments_parsedModels unicode h)

end PgErdCloud.Spec.Orm
