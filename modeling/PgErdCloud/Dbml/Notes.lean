/-
  Documents that differ in the notes of columns only: the parser looks for the other settings,
  and for braces, in the notes too. Where no note moves the parser, the documents say the same
  exactly when each line with a note does.

  `sameContent_iff` is about every document with notes and any texts for each of them; that no
  note moves the parser (`IsSteady`) is its hypothesis.
-/
import PgErdCloud.Dbml.PlainTables

namespace PgErdCloud.Dbml

open Lib Lib.PyStr Lib.Regex

variable {chars : Chars}

/-! ## Columns with a note -/

/-- The text of a note. -/
def IsNote (note : Str) : Prop := OneLine note ∧ '\'' ∉ note ∧ '[' ∉ note ∧ ']' ∉ note

/-- A line `name type [before '…' after]`, where what stands before the quotes of the note ends in
    `note:`. The type is a word or in quotes, with anything behind it in which no comment begins,
    such as arguments. -/
structure NotedColumn (chars : Chars) where
  indent : Str
  name : Ident
  gap : Gap
  type : Ident
  moreType : Str
  before : Str
  after : Str
  trail : Str
  blank_indent : Blank indent
  valid_name : name.Valid chars
  valid_type : type.Valid chars
  noComment : ¬ "//".toList <:+: moreType
  oneLine : OneLine (moreType ++ before ++ after ++ trail)

namespace NotedColumn

variable (c : NotedColumn chars)

/-- What stands behind the bracket of the settings, up to the note. -/
def upToNote : Str := c.before ++ "'".toList

/-- What stands behind the note. -/
def behindNote : Str := "'".toList ++ c.after ++ "]".toList ++ c.trail

/-- The line with a text for its note. -/
def raw (note : Str) : Str :=
  c.indent ++ (c.name.text ++ (c.gap.text ++ (c.type.text ++ (c.moreType ++ ('[' ::
    (c.upToNote ++ (note ++ c.behindNote)))))))

theorem oneLine_raw {note : Str} (h : OneLine note) : OneLine (c.raw note) := by
  have hparts := c.oneLine
  rw [oneLine_append, oneLine_append, oneLine_append] at hparts
  obtain ⟨⟨⟨hmore, hbefore⟩, hafter⟩, htrail⟩ := hparts
  simp only [raw, upToNote, behindNote, oneLine_append, oneLine_cons]
  refine ⟨c.blank_indent.oneLine, c.valid_name.oneLine_text, c.gap.blank.oneLine,
    c.valid_type.oneLine_text, hmore, by decide, ⟨hbefore, ?_⟩, h, ⟨⟨?_, hafter⟩, ?_⟩,
    htrail⟩ <;>
    simp [OneLine, isLineBreak]

end NotedColumn

/-! ## What a line is taken for -/

/-- The word that a line with this name begins with; none where the name is in quotes. -/
def Ident.firstWord : Ident → Str
  | bare word => word
  | quoted _ => []

/-- What the parser takes a line of a column for. -/
inductive Taken
  /-- a line within an ignored block -/
  | ignored
  /-- the first line of an ignored block -/
  | block
  | reference
  /-- a line outside of a table -/
  | outside
  /-- a line of a list of indexes -/
  | index
  | column (table : TableKey)
  deriving DecidableEq

/-- By the place of the line alone, outside of an ignored block. -/
def Mode.place (m : Mode) : Taken :=
  match m.current with
  | none => .outside
  | some table => if m.inIndexes then .index else .column table

/-- By the place of the line and by its first word. -/
def Mode.takes (m : Mode) (name : Ident) : Taken :=
  if m.inIgnoredBlock ≠ 0 then .ignored
  else if ∃ w ∈ blockWords, isWordIgnoreCase w name.firstWord = true then .block
  else if isWordIgnoreCase "ref" name.firstWord = true then .reference
  else m.place

/-- How many blocks a line leaves open that begins an ignored one. -/
def blockDepth (line : Str) : Int := if braces line ≤ 0 ∧ '\x7b' ∉ line then 1 else braces line

/-- What the parser reads of a line as a column. -/
def columnOfLine (chars : Chars) (rawLine : Str) : Option (Str × Str × Str) :=
  (lineOf rawLine).bind (parseColumn chars)

/-- What the parser does with a line, by what it takes it for. -/
def Taken.reads (chars : Chars) (taken : Taken) (m : Mode) (rawLine : Str) :
    Mode × Option Event :=
  match taken with
  | ignored =>
      ({ m with inIgnoredBlock := m.inIgnoredBlock + (lineOf rawLine).elim 0 braces }, none)
  | block => ({ m with inIgnoredBlock := (lineOf rawLine).elim 0 blockDepth }, none)
  | reference => (m, ((lineOf rawLine).bind (refSpec chars)).map .reference)
  | outside => (m, none)
  | index => ({ m with inIndexes := !(lineOf rawLine).any ('\x7d' ∈ ·) }, none)
  | column table =>
      (m, (columnOfLine chars rawLine).map fun r => .column table r.1 r.2.1 r.2.2)

/-! ## Lines of columns -/

/-- Two words are not the beginning of a list of indexes. -/
theorem indexesRe_words {name gap rest : Str} {ch : Char}
    (hname : ∀ c ∈ name, isSpace c = false ∧ c ≠ '\x7b') (hgap : ∀ c ∈ gap, isSpace c = true)
    (hne : gap ≠ []) (hch : isSpace ch = false) (hbrace : ch ≠ '\x7b') :
    indexesRe.matchStart (name ++ (gap ++ ch :: rest)) = none := by
  rw [← Option.not_isSome_iff_eq_none, isSome_matchStart_iff]
  rintro ⟨m, hm⟩
  obtain ⟨start, hstart, n, hn, rfl⟩ := mem_ways_seq.mp hm
  obtain ⟨-, rfl⟩ := mem_ways_here.mp hstart
  obtain ⟨word, hword, n', hn', rfl⟩ := mem_ways_seq.mp hn
  obtain ⟨blank, hblank, last, hlast, rfl⟩ := mem_ways_seq.mp hn'
  obtain ⟨brace, hbrace', -⟩ := mem_ways_seq.mp hlast
  obtain ⟨⟨tail, htail⟩, hletters⟩ := mem_ways_litIgnoreCase hword
  have htail : word.text ++ tail = name ++ (gap ++ ch :: rest) := htail
  rw [skip_nothing, ← htail, skip_append] at hblank hbrace'
  obtain ⟨behind, rfl⟩ : blank.text <+: tail := ways_reads _ hblank
  rw [skip_append] at hbrace'
  obtain ⟨c, after, rfl, hc, -⟩ := mem_ways_one.mp hbrace'
  obtain rfl := of_decide_eq_true hc
  have hspaces : ∀ c ∈ blank.text, isSpace c = true :=
    ReadsOnly.star (readsOnly_one fun _ h => h) _ _ hblank
  have hword : ∀ c ∈ word.text, (!isSpace c) = true := by
    intro c hc
    obtain ⟨l, hl, hletter⟩ := exists_of_forall₂ hletters hc
    have hlower : ∀ l ∈ "indexes".toList, l.isLower = true := by simp
    rw [isSpace_of_isLetter (hlower l hl) hletter]
    rfl
  have hname' : ∀ c ∈ name, (!isSpace c) = true := by
    intro c hc
    rw [(hname c hc).1]
    rfl
  have hgap' : ∀ c ∈ (gap ++ ch :: rest).head?, (!isSpace c) = false := by
    intro c hc
    obtain ⟨first, gap, rfl⟩ := List.exists_cons_of_ne_nil hne
    obtain rfl : first = c := by simpa using hc
    rw [hgap first List.mem_cons_self]
    rfl
  by_cases hempty : blank.text = []
  · have htake := congrArg (List.takeWhile fun c => !isSpace c) htail
    rw [takeWhile_append_stop hname' hgap', List.takeWhile_append_of_pos hword, hempty,
      List.nil_append, List.takeWhile_cons_of_pos (by decide)] at htake
    have hmem : '\x7b' ∈ name := by
      rw [← htake]
      exact List.mem_append_right _ List.mem_cons_self
    exact (hname _ hmem).2 rfl
  · have hblank' : ∀ c ∈ (blank.text ++ '\x7b' :: after).head?, (!isSpace c) = false := by
      intro c hc
      obtain ⟨first, more, hfirst⟩ := List.exists_cons_of_ne_nil hempty
      rw [hfirst] at hc
      obtain rfl : first = c := by simpa using hc
      rw [hspaces first (by rw [hfirst]; exact List.mem_cons_self)]
      rfl
    obtain ⟨-, hrest⟩ := run_unique hname' hword hgap' hblank' htail.symm
    have hstop : ∀ c ∈ (ch :: rest).head?, isSpace c = false := by
      intro c hc
      obtain rfl : ch = c := by simpa using hc
      exact hch
    obtain ⟨-, hcons⟩ := run_unique hgap hspaces hstop (by simp; decide) hrest
    exact hbrace (List.cons.inj hcons).1

theorem indexesRe_quoted (rest : Str) : indexesRe.matchStart ('"' :: rest) = none := by
  rw [← Option.not_isSome_iff_eq_none, isSome_matchStart_iff]
  rintro ⟨m, hm⟩
  obtain ⟨start, hstart, n, hn, rfl⟩ := mem_ways_seq.mp hm
  obtain ⟨-, rfl⟩ := mem_ways_here.mp hstart
  obtain ⟨word, hword, -⟩ := mem_ways_seq.mp hn
  obtain ⟨⟨tail, htail⟩, hletters⟩ := mem_ways_litIgnoreCase hword
  have htail : word.text ++ tail = '"' :: rest := htail
  obtain ⟨text, groups⟩ := word
  have hletters : List.Forall₂ (fun l c => isLetter l c = true) ('i' :: "ndexes".toList) text :=
    hletters
  obtain ⟨c, text, hc, -, rfl⟩ := List.forall₂_cons_left_iff.mp hletters
  obtain rfl : c = '"' := (List.cons.inj htail).1
  exact absurd hc (by decide)

/-- A line by its first word, where it is no header. -/
theorem lineStep_word {name rest : Str} (hname : ∀ ch ∈ name, chars.isWord ch = true)
    (hrest : EndsWord chars rest) (hheader : parseTableHeader chars (name ++ rest) = none)
    (hclose : (name ++ rest).head? ≠ some '\x7d') {m : Mode} (hm : m.inIgnoredBlock = 0) :
    lineStep chars m (name ++ rest) =
      if ∃ w ∈ blockWords, isWordIgnoreCase w name = true then
        ({ m with inIgnoredBlock := blockDepth (name ++ rest) }, none)
      else if isWordIgnoreCase "ref" name = true then
        (m, (refSpec chars (name ++ rest)).map .reference)
      else m.current.elim (m, none) fun table => bodyStep chars m table (name ++ rest) := by
  have hblock := isSome_ignoredBlockRe_iff hname hrest
  have href := isSome_refLineRe_iff hname hrest
  rw [lineStep, if_neg (not_not_intro hm)]
  by_cases hword : ∃ w ∈ blockWords, isWordIgnoreCase w name = true
  · rw [if_pos (hblock.mpr hword), if_pos hword]
    rfl
  · rw [if_neg (hblock.not.mpr hword), if_neg hword, hheader]
    simp only
    rw [if_neg hclose]
    by_cases hreference : isWordIgnoreCase "ref" name = true
    · rw [if_pos (href.mpr hreference), if_pos hreference]
    · rw [if_neg (href.not.mpr hreference), if_neg hreference]
      cases m.current <;> rfl

/-- The line of a column in a list of indexes or in a table. -/
theorem bodyStep_of_indexesRe {m : Mode} {table : TableKey} {line : Str}
    (h : indexesRe.matchStart line = none) :
    bodyStep chars m table line =
      if m.inIndexes then ({ m with inIndexes := '\x7d' ∉ line }, none)
      else (m, (parseColumn chars line).map fun c => .column table c.1 c.2.1 c.2.2) := by
  rw [bodyStep, h, Option.isSome_none, if_neg Bool.false_ne_true]

/-- What follows a bare name of a table is left over. -/
theorem append_of_consumeTableName {s raw rest : Str} (hquote : ∀ ch ∈ s.head?, ch ≠ '"')
    (h : consumeTableName chars s = some (raw, rest)) :
    s = raw ++ rest ∧ ∀ ch ∈ raw, chars.isAlnum ch = true ∨ ch ∈ "_.".toList := by
  cases s with
  | nil => exact absurd h (by simp [consumeTableName])
  | cons ch s =>
      simp only [consumeTableName] at h
      rw [if_neg (hquote ch rfl)] at h
      split_ifs at h
      obtain ⟨rfl, rfl⟩ := Prod.mk.inj (Option.some.inj h)
      refine ⟨List.takeWhile_append_dropWhile.symm, fun c hc => ?_⟩
      have hc := List.mem_takeWhile_imp hc
      rwa [Bool.or_eq_true, decide_eq_true_eq] at hc

/-- Where a bracket stands behind the name, the line is no header. -/
theorem tableHeaderTailOk_bracket {tail : Str} (h : '[' ∈ tail) :
    tableHeaderTailOk chars tail = false := by
  rw [← Bool.not_eq_true]
  intro hok
  rcases mem_tail hok _ h with hspace | hword | hbrace
  · exact absurd hspace (by decide)
  · exact ne_of_isWord hword (by decide) rfl
  · exact absurd hbrace (by decide)

/-- A line `table x … [` is no header. -/
theorem parseTableHeader_bracket {keyword : Str}
    (hkeyword : isWordIgnoreCase "table" keyword = true) (gap : Gap) {type : Ident}
    (htype : type.Valid chars) {rest : Str} (hrest : '[' ∈ rest) :
    parseTableHeader chars (keyword ++ (gap.text ++ (type.text ++ rest))) = none := by
  obtain ⟨hne, hhead, -⟩ := htype.isSpace_ends
  rw [parseTableHeader_keyword hkeyword gap (by rwa [List.head?_append_of_ne_nil _ hne]),
    Option.bind_eq_none_iff]
  rintro ⟨raw, tail⟩ hread
  have htail : '[' ∈ tail := by
    cases type with
    | bare word =>
        have hquote : ∀ ch ∈ (word ++ rest).head?, ch ≠ '"' := by
          rw [List.head?_append_of_ne_nil _ htype.1]
          exact fun ch hch => ne_of_isWord (htype.2 ch (List.mem_of_mem_head? hch)) (by decide)
        obtain ⟨hsplit, hraw⟩ := append_of_consumeTableName hquote hread
        have hmem : '[' ∈ raw ++ tail := hsplit ▸ List.mem_append_right _ hrest
        refine (List.mem_append.mp hmem).resolve_left fun hin => ?_
        rcases hraw _ hin with halnum | hother
        · have hword : chars.isWord '[' = true := by rw [Chars.isWord, halnum, Bool.true_or]
          exact ne_of_isWord hword (by decide) rfl
        · exact absurd hother (by decide)
    | quoted name =>
        have hquoted := @consumeTableName_quoted chars name rest htype.1 htype.2.1
        have htext : (Ident.quoted name).text ++ rest = '"' :: (name ++ '"' :: rest) := by
          simp [Ident.text, doubleQuoted]
        rw [htext, hquoted] at hread
        obtain ⟨-, rfl⟩ := Prod.mk.inj (Option.some.inj hread)
        exact hrest
  rw [tableHeaderTailOk_bracket htail]
  rfl

namespace NotedColumn

variable (c : NotedColumn chars)

/-- A line of a column called `table` is no header: the settings are no part of one, and where a
    comment begins within the quotes of the type these are never closed. -/
theorem parseTableHeader_tableLine {note word : Str} (hname : c.name = .bare word)
    (htable : isWordIgnoreCase "table" word = true) {line : Str}
    (hline : lineOf (c.raw note) = some line) : parseTableHeader chars line = none := by
  have hvalid := c.valid_name
  rw [hname] at hvalid
  obtain ⟨hne, hword⟩ := hvalid
  have hhead (s : Str) : ∀ ch ∈ (word ++ s).head?, isSpace ch = false := by
    rw [List.head?_append_of_ne_nil _ hne]
    exact fun ch hch => isSpace_of_isWord (hword ch (List.mem_of_mem_head? hch))
  by_cases hslashes : "//".toList <:+: c.type.name
  · obtain ⟨name, htype⟩ : ∃ name, c.type = .quoted name := by
      cases htype : c.type with
      | quoted name => exact ⟨name, rfl⟩
      | bare w =>
          have hvalid := c.valid_type
          rw [htype] at hslashes hvalid
          have hslash := hvalid.2 '/' (hslashes.mem (by decide))
          exact absurd rfl (ne_of_isWord hslash (by decide))
    have hquote := c.valid_type
    rw [htype] at hslashes hquote
    have htext : c.raw note = c.indent ++ ((word ++ (c.gap.text ++ ['"'])) ++ (name ++
        ('"' :: (c.moreType ++ ('[' :: (c.upToNote ++ (note ++ c.behindNote))))))) := by
      rw [raw, hname, htype]
      simp [Ident.text, doubleQuoted]
    rw [htext] at hline
    obtain ⟨rest, rfl, hrest⟩ := lineOf_slashes _ c.blank_indent (by simp) (hhead _)
      (by simp; decide) ((noComment_of_isWord hword).append
        (c.gap.blank.noComment.append (noComment_of_not_mem (by decide)))) hslashes hline
    have hmissing : '"' ∉ rest := fun hmem => hquote.2.1 (hrest _ hmem)
    rw [List.append_assoc, List.append_assoc, List.singleton_append,
      parseTableHeader_keyword htable c.gap (by simp; decide), consumeTableName_unclosed hmissing]
    rfl
  · have htext : c.raw note = c.indent ++
        ((word ++ (c.gap.text ++ (c.type.text ++ (c.moreType ++ ['['])))) ++
          (c.upToNote ++ (note ++ c.behindNote))) := by
      rw [raw, hname]
      simp [Ident.text]
    have hlast : ∀ ch ∈ (word ++ (c.gap.text ++ (c.type.text ++ (c.moreType ++ ['['])))).getLast?,
        isSpace ch = false := by
      rw [← List.append_assoc, ← List.append_assoc, ← List.append_assoc, List.getLast?_concat]
      simp
      decide
    rw [htext] at hline
    obtain ⟨more, rfl⟩ := lineOf_beginning _ c.blank_indent (by simp) (hhead _) hlast
      ((noComment_of_isWord hword).append (c.gap.blank.noComment.append
        ((c.valid_type.noComment hslashes).append (noComment_concat c.noComment (by decide)))))
      hline
    have hmore : word ++ (c.gap.text ++ (c.type.text ++ (c.moreType ++ ['[']))) ++ more =
        word ++ (c.gap.text ++ (c.type.text ++ (c.moreType ++ '[' :: more))) := by
      simp
    rw [hmore]
    exact parseTableHeader_bracket htable c.gap c.valid_type (by simp)

/-- The line of a column is its first word and no header, closes no table and begins no list of
    indexes. -/
theorem line_facts {note line : Str} (hline : lineOf (c.raw note) = some line) :
    (∃ rest, line = c.name.firstWord ++ rest ∧ EndsWord chars rest) ∧
      (∀ ch ∈ c.name.firstWord, chars.isWord ch = true) ∧
      parseTableHeader chars line = none ∧ line.head? ≠ some '\x7d' ∧
      indexesRe.matchStart line = none := by
  have hvalid := c.valid_name
  cases hname : c.name with
  | bare word =>
      rw [hname] at hvalid
      obtain ⟨hne, hword⟩ := hvalid
      obtain ⟨first, type, htype, hfirst⟩ := c.valid_type.exists_first
      have hvisible : isSpace first = false ∧ first ≠ '\x7b' ∧ first ≠ '/' := by
        rcases hfirst with hfirst | rfl
        · exact ⟨isSpace_of_isWord hfirst, ne_of_isWord hfirst (by decide),
            ne_of_isWord hfirst (by decide)⟩
        · decide
      have htext : c.raw note = c.indent ++ ((word ++ (c.gap.text ++ [first])) ++
          (type ++ (c.moreType ++ ('[' :: (c.upToNote ++ (note ++ c.behindNote)))))) := by
        rw [raw, hname, htype]
        simp [Ident.text]
      have hnoComment : NoComment (word ++ (c.gap.text ++ [first])) :=
        (noComment_of_isWord hword).append (c.gap.blank.noComment.append
          (noComment_of_not_mem (by simpa using hvisible.2.2.symm)))
      have hbegins := hline
      rw [htext] at hbegins
      obtain ⟨more, hsplit⟩ := lineOf_beginning _ c.blank_indent (by simp)
        (by
          rw [List.head?_append_of_ne_nil _ hne]
          exact fun ch hch => isSpace_of_isWord (hword ch (List.mem_of_mem_head? hch)))
        (by simpa using hvisible.1) hnoComment hbegins
      have hsplit : line = word ++ (c.gap.text ++ first :: more) := by
        rw [hsplit]
        simp
      have hends : EndsWord chars (c.gap.text ++ first :: more) :=
        c.gap.blank.endsWord c.gap.ne_nil _
      refine ⟨⟨_, hsplit, hends⟩, hword, ?_, ?_, ?_⟩
      · by_cases htable : isWordIgnoreCase "table" word = true
        · exact c.parseTableHeader_tableLine hname htable hline
        · rw [hsplit]
          exact parseTableHeader_eq_none hword hends (by simpa using htable)
      · obtain ⟨ch, word, rfl⟩ := List.exists_cons_of_ne_nil hne
        rw [hsplit]
        intro he
        exact ne_of_isWord (hword ch List.mem_cons_self) (by decide) (Option.some.inj he)
      · rw [hsplit]
        exact indexesRe_words
          (fun d hd => ⟨isSpace_of_isWord (hword d hd), ne_of_isWord (hword d hd) (by decide)⟩)
          c.gap.blank.isSpace c.gap.ne_nil hvisible.1 hvisible.2.1
  | quoted name =>
      have htext : c.raw note = c.indent ++ (['"'] ++ (name ++ ['"'] ++ (c.gap.text ++
          (c.type.text ++ (c.moreType ++ ('[' :: (c.upToNote ++ (note ++ c.behindNote)))))))) := by
        rw [raw, hname]
        simp [Ident.text, doubleQuoted]
      rw [htext] at hline
      obtain ⟨more, rfl⟩ := lineOf_beginning _ c.blank_indent (by simp) (by simp; decide)
        (by simp; decide) (noComment_of_not_mem (by decide)) hline
      have hends : EndsWord chars (['"'] ++ more) := endsWord_cons more (by decide)
      refine ⟨⟨_, rfl, hends⟩, by simp [Ident.firstWord], ?_, by simp, indexesRe_quoted more⟩
      have hnone := @parseTableHeader_eq_none chars [] _ (by simp) hends (by decide)
      rwa [List.nil_append] at hnone

/-- **What the parser does with a line of a column** goes by what it takes it for. -/
theorem step_raw (note : Str) (m : Mode) :
    step chars m (c.raw note) = (m.takes c.name).reads chars m (c.raw note) := by
  obtain ⟨current, depth, inIndexes⟩ := m
  rw [step, Mode.takes]
  cases hline : lineOf (c.raw note) with
  | none =>
      rw [Option.map_none, Option.getD_none]
      split_ifs with hm hblock href
      · simp [Taken.reads, hline]
      · obtain rfl : depth = 0 := not_not.mp hm
        simp [Taken.reads, hline]
      · simp [Taken.reads, hline]
      · cases current with
        | none => rfl
        | some table => cases inIndexes <;> simp [Mode.place, Taken.reads, columnOfLine, hline]
  | some line =>
      rw [Option.map_some, Option.getD_some]
      obtain ⟨⟨rest, rfl, hends⟩, hword, hheader, hclose, hindexes⟩ := c.line_facts hline
      by_cases hm : depth ≠ 0
      · rw [lineStep, if_pos hm, if_pos hm]
        simp [Taken.reads, hline]
      rw [lineStep_word hword hends hheader hclose (not_not.mp hm), if_neg hm]
      split_ifs with hblock href
      · simp [Taken.reads, hline]
      · simp [Taken.reads, hline]
      · cases current with
        | none => rfl
        | some table =>
            rw [Option.elim_some, bodyStep_of_indexesRe hindexes]
            cases inIndexes <;> simp [Mode.place, Taken.reads, columnOfLine, hline]

end NotedColumn

/-! ## What a line adds -/

/-- Of the content, all but the tables. A reference counts where both tables are among these. -/
def partsOf (chars : Chars) (tables : List TableKey) (es : List Event) :
    List ColumnInfo × List (TableKey × Str) × List ForeignKey :=
  (es.filterMap (columnOf chars), es.filterMap (pkColumnOf chars),
    ((es.filterMap (specOf chars)).filter fun spec =>
      spec.child ∈ tables ∧ spec.parent ∈ tables).map FkSpec.foreignKey)

/-- A column, whether it belongs to the key, and what it references. -/
def columnRow (chars : Chars) (tables : List TableKey) (table : TableKey)
    (column : Str × Str × Str) : ColumnInfo × Bool × Option ForeignKey :=
  let (name, dataType, settings) := column
  let isPk := isPkSettings chars settings
  (⟨table, name, dataType, isPk || contains "not null".toList (chars.lower settings),
      contains "default:".toList (chars.lower settings)⟩, isPk,
    ((inlineRefSpec chars table name settings).filter fun spec =>
      spec.child ∈ tables ∧ spec.parent ∈ tables).map FkSpec.foreignKey)

/-- The column that a line of a table is. -/
def lineRow (chars : Chars) (tables : List TableKey) (table : TableKey) (rawLine : Str) :
    Option (ColumnInfo × Bool × Option ForeignKey) :=
  (columnOfLine chars rawLine).map (columnRow chars tables table)

variable {tables : List TableKey}

theorem partsOf_append (es es' : List Event) :
    partsOf chars tables (es ++ es') =
      ((partsOf chars tables es).1 ++ (partsOf chars tables es').1,
        (partsOf chars tables es).2.1 ++ (partsOf chars tables es').2.1,
        (partsOf chars tables es).2.2 ++ (partsOf chars tables es').2.2) := by
  simp only [partsOf, List.filterMap_append, List.filter_append, List.map_append]

theorem partsOf_append_left_inj {es es' ks : List Event} :
    partsOf chars tables (es ++ ks) = partsOf chars tables (es' ++ ks) ↔
      partsOf chars tables es = partsOf chars tables es' := by
  rw [partsOf_append, partsOf_append, Prod.ext_iff, Prod.ext_iff, Prod.ext_iff, Prod.ext_iff]
  simp only [List.append_cancel_right_eq]

theorem partsOf_append_right_inj {es ks ks' : List Event} :
    partsOf chars tables (es ++ ks) = partsOf chars tables (es ++ ks') ↔
      partsOf chars tables ks = partsOf chars tables ks' := by
  rw [partsOf_append, partsOf_append, Prod.ext_iff, Prod.ext_iff, Prod.ext_iff, Prod.ext_iff]
  simp only [List.append_cancel_left_eq]

theorem partsOf_column (table : TableKey) (r : Str × Str × Str) :
    partsOf chars tables [.column table r.1 r.2.1 r.2.2] =
      ([(columnRow chars tables table r).1],
        if (columnRow chars tables table r).2.1 then [(table, r.1)] else [],
        (columnRow chars tables table r).2.2.toList) := by
  obtain ⟨name, dataType, settings⟩ := r
  simp only [partsOf, columnRow, List.filterMap_cons, List.filterMap_nil, columnOf, pkColumnOf,
    specOf]
  congr 2
  · by_cases hpk : isPkSettings chars settings = true <;> simp [hpk]
  · cases inlineRefSpec chars table name settings with
    | none => rfl
    | some spec =>
        by_cases hspec : spec.child ∈ tables ∧ spec.parent ∈ tables
        · simp [Option.filter, hspec]
        · simp [Option.filter, hspec]

/-- Two lines add the same when they are the same column. -/
theorem partsOf_column_inj {table : TableKey} {o o' : Option (Str × Str × Str)} :
    partsOf chars tables (o.map fun r => Event.column table r.1 r.2.1 r.2.2).toList =
        partsOf chars tables (o'.map fun r => Event.column table r.1 r.2.1 r.2.2).toList ↔
      o.map (columnRow chars tables table) = o'.map (columnRow chars tables table) := by
  have hnil : partsOf chars tables [] = ([], [], []) := rfl
  cases o with
  | none =>
      cases o' with
      | none => simp
      | some r' => simp [hnil, partsOf_column]
  | some r =>
      cases o' with
      | none => simp [hnil, partsOf_column]
      | some r' =>
          simp only [Option.map_some, Option.toList_some, partsOf_column, Option.some.injEq]
          constructor
          · intro h
            obtain ⟨hinfo, h⟩ := Prod.mk.inj h
            obtain ⟨hpk, hfk⟩ := Prod.mk.inj h
            refine Prod.ext (List.singleton_inj.mp hinfo) (Prod.ext ?_ ?_)
            · cases hr : (columnRow chars tables table r).2.1 <;>
                cases hr' : (columnRow chars tables table r').2.1 <;> simp_all
            · cases hr : (columnRow chars tables table r).2.2 <;>
                cases hr' : (columnRow chars tables table r').2.2 <;> simp_all
          · intro h
            have hname : r.1 = r'.1 := congrArg (fun row => row.1.name) h
            rw [h, hname]

/-- The reference that a line is, where the document has both tables. -/
def lineReference (chars : Chars) (tables : List TableKey) (rawLine : Str) : Option ForeignKey :=
  (((lineOf rawLine).bind (refSpec chars)).filter fun spec =>
    spec.child ∈ tables ∧ spec.parent ∈ tables).map FkSpec.foreignKey

theorem partsOf_reference (o : Option FkSpec) :
    partsOf chars tables (o.map Event.reference).toList = ([], [],
      ((o.filter fun spec => spec.child ∈ tables ∧ spec.parent ∈ tables).map
        FkSpec.foreignKey).toList) := by
  cases o with
  | none => rfl
  | some spec =>
      by_cases hspec : spec.child ∈ tables ∧ spec.parent ∈ tables
      · simp [partsOf, columnOf, pkColumnOf, specOf, Option.filter, hspec]
      · simp [partsOf, columnOf, pkColumnOf, specOf, Option.filter, hspec]

/-! ## Two texts of a line -/

namespace Taken

variable {taken : Taken} {m : Mode} {rawLine rawLine' : Str}

/-- Both leave the parser in the same place: the same number of blocks open, and the list of
    indexes open or closed. -/
def SameMove (taken : Taken) (rawLine rawLine' : Str) : Prop :=
  match taken with
  | ignored => (lineOf rawLine).elim 0 braces = (lineOf rawLine').elim 0 braces
  | block => (lineOf rawLine).elim 0 blockDepth = (lineOf rawLine').elim 0 blockDepth
  | index => (lineOf rawLine).any ('\x7d' ∈ ·) = (lineOf rawLine').any ('\x7d' ∈ ·)
  | _ => True

/-- Both are the same column, or the same reference between tables of the document. -/
def SameRow (chars : Chars) (tables : List TableKey) (taken : Taken) (rawLine rawLine' : Str) :
    Prop :=
  match taken with
  | reference => lineReference chars tables rawLine = lineReference chars tables rawLine'
  | column table => lineRow chars tables table rawLine = lineRow chars tables table rawLine'
  | _ => True

theorem sameMove_iff : taken.SameMove rawLine rawLine' ↔
    (taken.reads chars m rawLine).1 = (taken.reads chars m rawLine').1 := by
  cases taken <;> simp [SameMove, reads]

theorem sameRow_iff : taken.SameRow chars tables rawLine rawLine' ↔
    partsOf chars tables (taken.reads chars m rawLine).2.toList =
      partsOf chars tables (taken.reads chars m rawLine').2.toList := by
  cases taken with
  | reference =>
      simp only [reads, partsOf_reference, Prod.mk.injEq, true_and]
      have hinj (a b : Option ForeignKey) : a = b ↔ a.toList = b.toList := by
        cases a <;> cases b <;> simp
      exact hinj _ _
  | column table => exact partsOf_column_inj.symm
  | _ => simp [SameRow, reads]

/-- Only a header would be a table. -/
theorem reads_ne_table (table : TableKey) :
    (taken.reads chars m rawLine).2 ≠ some (.table table) := by
  intro h
  cases taken with
  | reference =>
      obtain ⟨spec, -, he⟩ := Option.map_eq_some_iff.mp h
      exact absurd he (by simp)
  | column =>
      obtain ⟨row, -, he⟩ := Option.map_eq_some_iff.mp h
      exact absurd he (by simp)
  | _ => exact absurd h (by simp [reads])

end Taken

/-! ## Documents with open notes -/

/-- A line of a document: a fixed one, or a column with its note and the other texts that the
    note may have. -/
inductive Entry (chars : Chars)
  | fixed (line : Str)
  | noted (column : NotedColumn chars) (note : Str) (others : Set Str)

namespace Entry

/-- The line as it stands in the document. -/
def line : Entry chars → Str
  | fixed line => line
  | noted c note _ => c.raw note

/-- The lines that it may be. -/
def lines : Entry chars → Set Str
  | fixed line => {line}
  | noted c note others => Set.image c.raw (insert note others)

/-- The texts of the note move the parser alike. -/
def IsSteady (m : Mode) : Entry chars → Prop
  | fixed _ => True
  | noted c note others =>
      ∀ other ∈ others, (m.takes c.name).SameMove (c.raw other) (c.raw note)

/-- The texts of the note give the same column or reference. -/
def HasSameRow (tables : List TableKey) (m : Mode) : Entry chars → Prop
  | fixed _ => True
  | noted c note others =>
      ∀ other ∈ others, (m.takes c.name).SameRow chars tables (c.raw other) (c.raw note)

end Entry

/-- No note moves the parser. -/
def Steady : Mode → List (Entry chars) → Prop
  | _, [] => True
  | m, e :: es => e.IsSteady m ∧ Steady (step chars m e.line).1 es

/-- Each line with a note is the same column or reference with any of its texts. -/
def SameRows (tables : List TableKey) : Mode → List (Entry chars) → Prop
  | _, [] => True
  | m, e :: es => e.HasSameRow tables m ∧ SameRows tables (step chars m e.line).1 es

/-- The lines are the entries', with some text for each note. -/
def Fills (es : List (Entry chars)) (lines : List Str) : Prop :=
  List.Forall₂ (fun e line => line ∈ e.lines) es lines

theorem Entry.line_mem_lines (e : Entry chars) : e.line ∈ e.lines := by
  cases e with
  | fixed line => exact rfl
  | noted c note others => exact Set.mem_image_of_mem _ (Set.mem_insert _ _)

theorem fills_lines (es : List (Entry chars)) : Fills es (es.map Entry.line) := by
  induction es with
  | nil => exact .nil
  | cons e es ih => exact .cons e.line_mem_lines ih

theorem eventsFrom_cons (m : Mode) (line : Str) (lines : List Str) :
    eventsFrom chars m (line :: lines) =
      (step chars m line).2.toList ++ eventsFrom chars (step chars m line).1 lines := rfl

/-- A steady line leaves the parser where the document's does. -/
theorem Entry.IsSteady.step_eq {e : Entry chars} {m : Mode} (h : e.IsSteady m) {line : Str}
    (hline : line ∈ e.lines) : (step chars m line).1 = (step chars m e.line).1 := by
  cases e with
  | fixed fixedLine =>
      obtain rfl : line = fixedLine := hline
      rfl
  | noted c note others =>
      obtain ⟨other, hother, rfl⟩ := hline
      rcases Set.mem_insert_iff.mp hother with rfl | hother
      · rfl
      · rw [Entry.line, c.step_raw, c.step_raw]
        exact Taken.sameMove_iff.mp (h other hother)

/-- What the line of a note adds is the same with each of its texts. -/
theorem Entry.hasSameRow_iff {tables : List TableKey} {m : Mode} (e : Entry chars) :
    e.HasSameRow tables m ↔ ∀ line ∈ e.lines,
      partsOf chars tables (step chars m line).2.toList =
        partsOf chars tables (step chars m e.line).2.toList := by
  cases e with
  | fixed fixedLine => simp [HasSameRow, Entry.lines, Entry.line]
  | noted c note others =>
      simp only [HasSameRow, Entry.lines, Entry.line, Set.forall_mem_image, c.step_raw,
        @Taken.sameRow_iff chars tables _ m, Set.forall_mem_insert, true_and]

/-- **Line by line**: where no note moves the parser, the lines add the same whatever the notes
    exactly when each line does. -/
theorem forall_partsOf_eq_iff {tables : List TableKey} {es : List (Entry chars)} {m : Mode}
    (hsteady : Steady m es) :
    (∀ lines, Fills es lines → partsOf chars tables (eventsFrom chars m lines) =
      partsOf chars tables (eventsFrom chars m (es.map Entry.line))) ↔ SameRows tables m es := by
  induction es generalizing m with
  | nil =>
      refine iff_of_true (fun lines h => ?_) trivial
      cases h
      rfl
  | cons e es ih =>
      obtain ⟨hmove, hrest⟩ := hsteady
      rw [SameRows, e.hasSameRow_iff, ← ih hrest]
      constructor
      · intro h
        refine ⟨fun line hline => ?_, fun lines hlines => ?_⟩
        · have hparts := h _ (.cons hline (fills_lines es))
          rw [List.map_cons, eventsFrom_cons, eventsFrom_cons, hmove.step_eq hline] at hparts
          exact partsOf_append_left_inj.mp hparts
        · have hparts := h _ (.cons e.line_mem_lines hlines)
          rw [List.map_cons, eventsFrom_cons, eventsFrom_cons] at hparts
          exact partsOf_append_right_inj.mp hparts
      · rintro ⟨hrow, hrows⟩ _ (_ | ⟨hline, hlines⟩)
        rw [List.map_cons, eventsFrom_cons, eventsFrom_cons, partsOf_append,
          partsOf_append _ (eventsFrom _ _ (es.map _)), hrow _ hline, hmove.step_eq hline,
          hrows _ hlines]

/-- An event that is no table adds none. -/
theorem tablesOf_append_optional {before : List Event} {o : Option Event}
    (h : ∀ table, o ≠ some (.table table)) : tablesOf (before ++ o.toList) = tablesOf before := by
  cases o with
  | none => simp
  | some e =>
      rw [Option.toList_some, tablesOf_concat]
      cases e with
      | table table => exact absurd rfl (h table)
      | column => rfl
      | reference => rfl

/-- The tables behind some events are those of the events, and of what comes behind. -/
theorem tablesOf_append_congr {before before' : List Event} (es : List Event)
    (h : tablesOf before = tablesOf before') :
    tablesOf (before ++ es) = tablesOf (before' ++ es) := by
  rw [tablesOf, tablesOf, List.foldl_append, List.foldl_append]
  exact congrArg (fun tables => es.foldl addTable tables) h

/-- **No note declares a table.** -/
theorem tablesOf_eq_of_fills {es : List (Entry chars)} {lines : List Str} (h : Fills es lines)
    {m : Mode} (hsteady : Steady m es) (before : List Event) :
    tablesOf (before ++ eventsFrom chars m lines) =
      tablesOf (before ++ eventsFrom chars m (es.map Entry.line)) := by
  induction h generalizing m before with
  | nil => rfl
  | @cons e line es lines hline _ ih =>
      obtain ⟨hmove, hrest⟩ := hsteady
      have hsame : tablesOf (before ++ (step chars m line).2.toList) =
          tablesOf (before ++ (step chars m e.line).2.toList) := by
        cases e with
        | fixed fixedLine =>
            obtain rfl : line = fixedLine := hline
            rfl
        | noted c note others =>
            obtain ⟨other, -, rfl⟩ := hline
            rw [Entry.line, c.step_raw, c.step_raw,
              tablesOf_append_optional fun table => Taken.reads_ne_table table,
              tablesOf_append_optional fun table => Taken.reads_ne_table table]
      rw [List.map_cons, eventsFrom_cons, eventsFrom_cons, ← List.append_assoc,
        ← List.append_assoc, tablesOf_append_congr _ hsame, hmove.step_eq hline]
      exact ih hrest _

/-- A document, with the texts that its notes may have. -/
structure NotedDocument (chars : Chars) where
  entries : List (Entry chars)
  oneLine : ∀ line, .fixed line ∈ entries → OneLine line
  isNote : ∀ c note others, .noted c note others ∈ entries →
    ∀ text ∈ insert note others, IsNote text

namespace NotedDocument

variable (d : NotedDocument chars)

/-- The lines of the document as it stands. -/
def lines : List Str := d.entries.map Entry.line

/-- The documents that differ from it in the text of notes only. -/
def texts : Set Str := {text | Fills d.entries (splitlines text)}

/-- The tables of the document. -/
def knownTables : List TableKey := tablesOf (eventsFrom chars .start d.lines)

/-- No text of a note moves the parser to another place: in an ignored block and in the line that
    begins one, all texts have the same braces; in a list of indexes, all have a closing brace or
    none has. -/
def IsSteady : Prop := Steady .start d.entries

/-- Each line with a note is the same column or reference with any text of its note. -/
def HasSameRows : Prop := SameRows d.knownTables .start d.entries

/-- The notes may be filled in with any of their texts. -/
theorem exists_text {lines : List Str} (h : Fills d.entries lines) :
    ∃ text, splitlines text = lines := by
  refine ⟨_, splitlines_flatMap fun line hline => ?_⟩
  obtain ⟨e, he, hmem⟩ := exists_of_forall₂ h hline
  cases e with
  | fixed fixedLine =>
      obtain rfl : line = fixedLine := hmem
      exact d.oneLine line he
  | noted c note others =>
      obtain ⟨text, htext, rfl⟩ := hmem
      exact c.oneLine_raw (d.isNote c note others he text htext).1

theorem content_text (hsteady : d.IsSteady) {text : Str} (h : text ∈ d.texts) :
    (parseDbml chars text).content =
      let parts := partsOf chars d.knownTables (eventsFrom chars .start (splitlines text))
      ⟨d.knownTables, parts.1, parts.2.1, parts.2.2⟩ := by
  have htables : tablesOf (eventsFrom chars .start (splitlines text)) = d.knownTables :=
    tablesOf_eq_of_fills h hsteady []
  rw [content_parseDbml, events, ← htables]
  rfl

/-- **Documents that differ in notes only say the same** exactly when each line with a note, with
    what the parser reads of it, is the same whatever its note, where no note moves the parser. -/
theorem sameContent_iff (hsteady : d.IsSteady) :
    (∀ text ∈ d.texts, ∀ text' ∈ d.texts,
      (parseDbml chars text).content = (parseDbml chars text').content) ↔ d.HasSameRows := by
  rw [HasSameRows, ← forall_partsOf_eq_iff hsteady]
  constructor
  · intro h lines hlines
    obtain ⟨text, rfl⟩ := d.exists_text hlines
    obtain ⟨text', htext'⟩ := d.exists_text (fills_lines d.entries)
    have hmem' : text' ∈ d.texts := by
      show Fills d.entries (splitlines text')
      rw [htext']
      exact fills_lines d.entries
    have hcontent := h text hlines text' hmem'
    rw [d.content_text hsteady hlines, d.content_text hsteady hmem', htext'] at hcontent
    obtain ⟨-, hcolumns, hpks, hfks⟩ := Content.mk.inj hcontent
    exact Prod.ext hcolumns (Prod.ext hpks hfks)
  · intro h text htext text' htext'
    rw [d.content_text hsteady htext, d.content_text hsteady htext', h _ htext, h _ htext']

end NotedDocument

/-- A column of ASCII whose only setting is its note. -/
def asciiNoted : NotedColumn asciiChars where
  indent := "  ".toList
  name := .bare "x".toList
  gap := .single
  type := .bare "int".toList
  moreType := " ".toList
  before := "note: ".toList
  after := []
  trail := []
  blank_indent := blank_twoSpaces
  valid_name := ⟨by simp, by simp [asciiChars, Chars.isWord]⟩
  valid_type := ⟨by simp, by simp [asciiChars, Chars.isWord]⟩
  noComment := by decide
  oneLine := by simp [OneLine, isLineBreak]

/-- The column in a table, with one of two notes. -/
def twoNotes (note other : Str) (hnote : IsNote note) (hother : IsNote other) :
    NotedDocument asciiChars where
  entries := [.fixed "Table a \x7b".toList, .noted asciiNoted note {other},
    .fixed "\x7d".toList]
  oneLine := by
    rintro line hline
    rcases List.mem_cons.mp hline with hline | hline
    · obtain rfl := Entry.fixed.inj hline
      simp [OneLine, isLineBreak]
    · obtain rfl : line = "\x7d".toList := by simpa using hline
      simp [OneLine, isLineBreak]
  isNote := by
    rintro c text others hmem
    obtain ⟨-, rfl, rfl⟩ : c = asciiNoted ∧ text = note ∧ others = {other} := by simpa using hmem
    rintro text (rfl | rfl)
    · exact hnote
    · exact hother

theorem isNote_pk : IsNote "the pk".toList := by simp [IsNote, OneLine, isLineBreak]

theorem isNote_id : IsNote "the id".toList := by simp [IsNote, OneLine, isLineBreak]

theorem isNote_brace : IsNote "an id \x7d".toList := by simp [IsNote, OneLine, isLineBreak]

/-- Each of the two notes makes one of the documents. -/
theorem fills_twoNotes {note other : Str} {hnote : IsNote note} {hother : IsNote other}
    {note' text : Str} (h : note' ∈ ({note, other} : Set Str))
    (htext : splitlines text = ["Table a \x7b".toList, asciiNoted.raw note', "\x7d".toList]) :
    text ∈ (twoNotes note other hnote hother).texts := by
  show Fills _ (splitlines text)
  rw [htext]
  exact .cons rfl (.cons (Set.mem_image_of_mem _ h) (.cons rfl .nil))

/-- The column is the same with these two notes. -/
theorem sameContent_idNotes :
    (parseDbml asciiChars
      "Table a \x7b\n  x int [note: 'the id']\n\x7d\n".toList).content =
    (parseDbml asciiChars
      "Table a \x7b\n  x int [note: 'an id \x7d']\n\x7d\n".toList).content := by
  have htakes : (step asciiChars .start "Table a \x7b".toList).1.takes asciiNoted.name =
      .column ("public".toList, "a".toList) := by decide +kernel
  refine ((twoNotes _ _ isNote_id isNote_brace).sameContent_iff
    ⟨trivial, fun other _ => ?_, trivial, trivial⟩).mpr
    ⟨trivial, fun other hother => ?_, trivial, trivial⟩ _
    (fills_twoNotes (.inl rfl) (by decide)) _ (fills_twoNotes (.inr rfl) (by decide))
  · rw [Entry.line, htakes]
    trivial
  · obtain rfl := Set.mem_singleton_iff.mp hother
    rw [Entry.line, htakes, Taken.SameRow]
    decide +kernel

/-- With one of the notes, the column becomes the key. -/
theorem not_sameContent_pkNote :
    ¬ ∀ text ∈ (twoNotes _ _ isNote_pk isNote_id).texts,
      ∀ text' ∈ (twoNotes _ _ isNote_pk isNote_id).texts,
        (parseDbml asciiChars text).content = (parseDbml asciiChars text').content := by
  intro h
  have hsame := congrArg Content.pkColumns
    (h "Table a \x7b\n  x int [note: 'the pk']\n\x7d\n".toList
      (fills_twoNotes (.inl rfl) (by decide))
      "Table a \x7b\n  x int [note: 'the id']\n\x7d\n".toList
      (fills_twoNotes (.inr rfl) (by decide)))
  exact absurd hsame (by decide +kernel)

end PgErdCloud.Dbml
