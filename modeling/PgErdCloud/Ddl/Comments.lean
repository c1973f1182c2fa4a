/-
  What a migration leaves of the comments on tables. The database is the list of its tables
  with their comments; of the statements, three act on it. What they do to the tables with one
  key is decided by the statements with that key, of which there is at most one: so the
  comments after a migration are known, and can be compared with the target by the diff.

  `comments_converge_iff` is about all pairs of snapshots: the migration brings the comments of
  the target exactly when no table that comes has one, and no comment that changes becomes empty
  or is on a table of another name under one key.
-/
import PgErdCloud.Ddl.MigrationFacts
import PgErdCloud.Diff.Completeness

namespace PgErdCloud.Ddl

open Lib Lib.PyStr Diff

/-! ## The literal of a comment -/

/-- What a `COMMENT ON TABLE` has between `IS` and the semicolon. -/
def commentLiteral : Option Str → Str
  | some text => "'".toList ++ replaceChar '\'' "''".toList text ++ "'".toList
  | none => "NULL".toList

theorem text_commentOn (dialect : Dialect) (table : TableName) (comment : Option Str) :
    Stmt.text dialect (.commentOn table comment) = "COMMENT ON TABLE ".toList ++
      tableText table ++ " IS ".toList ++ commentLiteral comment ++ ";".toList := by
  have hquoted : " IS '".toList = " IS ".toList ++ "'".toList := rfl
  have hclosed : "';".toList = "'".toList ++ ";".toList := rfl
  have hnull : " IS NULL;".toList = " IS ".toList ++ "NULL".toList ++ ";".toList := rfl
  cases comment with
  | none =>
      show "COMMENT ON TABLE ".toList ++ tableText table ++ " IS NULL;".toList = _
      simp only [commentLiteral, hnull, List.append_assoc]
  | some text =>
      show "COMMENT ON TABLE ".toList ++ tableText table ++
        (" IS '".toList ++ replaceChar '\'' "''".toList text ++ "';".toList) = _
      simp only [commentLiteral, hquoted, hclosed, List.append_assoc]

/-- The text of a string literal, from behind its opening quote; a doubled quote is one. -/
def readLiteral : Str → Option Str
  | [] => none
  | c :: rest =>
      if c = '\'' then
        match rest with
        | [] => some []
        | d :: rest => if d = '\'' then (readLiteral rest).map ('\'' :: ·) else none
      else (readLiteral rest).map (c :: ·)

/-- The comment that a literal gives a table: an empty one is none. -/
def readComment : Str → Option Str
  | [] => none
  | c :: rest => if c = '\'' then (readLiteral rest).filter (· ≠ []) else none

/-- An escaped text is read back, whatever quotes it has. -/
theorem readLiteral_replaceChar (text : Str) :
    readLiteral (replaceChar '\'' "''".toList text ++ "'".toList) = some text := by
  induction text with
  | nil => rfl
  | cons c text ih =>
      have hcons : replaceChar '\'' "''".toList (c :: text) =
          (if c = '\'' then "''".toList else [c]) ++ replaceChar '\'' "''".toList text := rfl
      rw [hcons]
      by_cases h : c = '\''
      · subst h
        show (readLiteral (replaceChar '\'' "''".toList text ++ "'".toList)).map _ = _
        rw [ih]
        rfl
      · rw [if_neg h]
        show readLiteral (c :: (replaceChar '\'' "''".toList text ++ "'".toList)) = _
        rw [readLiteral.eq_def]
        simp only [if_neg h, ih, Option.map_some]

theorem readComment_commentLiteral (comment : Option Str) :
    readComment (commentLiteral comment) = comment.filter (· ≠ []) := by
  cases comment with
  | none => rfl
  | some text =>
      show (readLiteral (replaceChar '\'' "''".toList text ++ "'".toList)).filter _ = _
      rw [readLiteral_replaceChar]

/-! ## The comments of a database -/

/-- The tables with their comments. -/
abbrev CommentRows := List (TableName × Option Str)

/-- The tables of a snapshot with their comments. -/
def commentRows {Oid : Type} (s : Snapshot Oid) : CommentRows :=
  s.relations.map fun rel => (rel.tableName, rel.relationComment)

/-- A new table has no comment. -/
def Stmt.onComments : Stmt → CommentRows → CommentRows
  | .createTable table _ _, rows => rows ++ [(table, none)]
  | .dropTable table, rows => rows.filter fun row => row.1 ≠ table
  | .commentOn table comment, rows =>
      rows.map fun row =>
        if row.1 = table then (row.1, readComment (commentLiteral comment)) else row
  | _, rows => rows

/-- The comments behind some statements. -/
def afterStmts (stmts : List Stmt) (rows : CommentRows) : CommentRows :=
  stmts.foldl (fun rows stmt => stmt.onComments rows) rows

/-- The key of the table whose comment a statement touches. -/
def Stmt.commentKey : Stmt → Option Str
  | .createTable table _ _ | .dropTable table | .commentOn table _ => some table.key
  | _ => none

/-- The comments on tables with one key. -/
def rowsAt (key : Str) (rows : CommentRows) : CommentRows := rows.filter fun row => row.1.key = key

theorem rowsAt_onComments (stmt : Stmt) (key : Str) (rows : CommentRows) :
    rowsAt key (stmt.onComments rows) =
      if stmt.commentKey = some key then stmt.onComments (rowsAt key rows)
      else rowsAt key rows := by
  cases stmt with
  | createTable table columns pk =>
      by_cases h : table.key = key
      · simp [rowsAt, Stmt.onComments, Stmt.commentKey, h]
      · simp [rowsAt, Stmt.onComments, Stmt.commentKey, h]
  | dropTable table =>
      have hcomm : rowsAt key (Stmt.onComments (.dropTable table) rows) =
          Stmt.onComments (.dropTable table) (rowsAt key rows) := by
        simp only [rowsAt, Stmt.onComments, List.filter_filter, Bool.and_comm]
      rw [hcomm]
      by_cases h : table.key = key
      · simp [Stmt.commentKey, h]
      · simp only [Stmt.commentKey, Option.some.injEq, h, if_false]
        -- the dropped table has another key
        refine List.filter_eq_self.mpr fun row hrow => ?_
        have hkey : row.1.key = key := by simpa using (List.mem_filter.mp hrow).2
        refine decide_eq_true fun he => h ?_
        rw [← he, hkey]
  | commentOn table comment =>
      have hcomm : rowsAt key (Stmt.onComments (.commentOn table comment) rows) =
          Stmt.onComments (.commentOn table comment) (rowsAt key rows) := by
        simp only [rowsAt, Stmt.onComments, List.filter_map]
        congr 1
        apply List.filter_congr
        intro row _
        simp only [Function.comp_apply]
        split_ifs <;> rfl
      rw [hcomm]
      by_cases h : table.key = key
      · simp [Stmt.commentKey, h]
      · simp only [Stmt.commentKey, Option.some.injEq, h, if_false]
        refine (List.map_congr_left fun row hrow => ?_).trans (List.map_id _)
        have hkey : row.1.key = key := by simpa using (List.mem_filter.mp hrow).2
        have hne : row.1 ≠ table := by
          intro he
          rw [← he] at h
          exact h hkey
        exact if_neg hne
  | _ => simp [Stmt.onComments, Stmt.commentKey]

/-- A run acts on the tables of a key by the statements with the key. -/
theorem rowsAt_afterStmts (stmts : List Stmt) (key : Str) (rows : CommentRows) :
    rowsAt key (afterStmts stmts rows) =
      afterStmts (stmts.filter fun stmt => stmt.commentKey = some key) (rowsAt key rows) := by
  unfold afterStmts
  induction stmts generalizing rows with
  | nil => rfl
  | cons stmt stmts ih =>
      rw [List.foldl_cons, ih, rowsAt_onComments]
      by_cases h : stmt.commentKey = some key
      · simp [h]
      · simp [h]

/-! ## The statements with a key -/

section
variable (unicode : Unicode) (source target : Dialect) {b t : Index}

theorem filter_commentKey_eq_nil {stmts : List Stmt} (h : ∀ stmt ∈ stmts, stmt.commentKey = none)
    (key : Str) : stmts.filter (fun stmt => stmt.commentKey = some key) = [] := by
  rw [List.filter_eq_nil_iff]
  intro stmt hm
  simp [h stmt hm]

theorem filter_alterTableSql (bt tt : Table) :
    (alterTableSql unicode source target bt tt).filter
        (fun stmt => stmt.commentKey = some (tableName tt).key) =
      if bt.comment ≠ tt.comment ∧ target = .postgresql then
        [commentSql (tableName tt) tt.comment] else [] := by
  unfold alterTableSql
  -- all but the last part are about columns and the primary key
  rw [List.filter_append, filter_commentKey_eq_nil]
  · rw [List.nil_append]
    split_ifs
    · simp [commentSql, Stmt.commentKey]
    · rfl
  · intro stmt hm
    simp only [List.mem_append] at hm
    rcases hm with ((h | h) | h) | h
    · obtain ⟨e, -, rfl⟩ := List.mem_map.mp h
      rfl
    · obtain ⟨name, -, rfl⟩ := List.mem_map.mp h
      rfl
    · obtain ⟨e, -, he⟩ := List.mem_flatMap.mp h
      cases hold : bt.columns.get? e.1 with
      | none => simp [hold] at he
      | some old =>
          simp only [hold, mem_alterColumnSql] at he
          rcases he with ⟨-, rfl⟩ | ⟨-, -, rfl⟩ | ⟨-, -, rfl⟩
          · rfl
          · rfl
          · rfl
    · split_ifs at h
      · rw [List.mem_singleton.mp h]
        rfl
      · exact absurd h List.not_mem_nil

/-- Of the statements of a migration, those that touch the comment of a target's table. -/
theorem filter_migrationStmts (hb : b.Keyed) (ht : t.Keyed) {key : Str} {tt : Table}
    (htt : t.tables.get? key = some tt) :
    (migrationStmts unicode source target b t).filter
        (fun stmt => stmt.commentKey = some key) =
      match b.tables.get? key with
      | none => [createTableSql unicode source target tt]
      | some bt => if bt.comment ≠ tt.comment ∧ target = .postgresql then
          [commentSql (tableName tt) tt.comment] else [] := by
  have hmem : key ∈ t.tables.keys := Dict.mem_keys_iff.mpr ⟨tt, htt⟩
  have hfks : (dropFkStmts b t).filter (fun stmt => stmt.commentKey = some key) = [] := by
    refine filter_commentKey_eq_nil (fun stmt hm => ?_) key
    obtain ⟨e, -, he⟩ := List.mem_filterMap.mp hm
    obtain ⟨ends, -, rfl⟩ := Option.map_eq_some_iff.mp he
    cases e.2.name <;> rfl
  have hdrop : (dropTableStmts b t).filter (fun stmt => stmt.commentKey = some key) = [] := by
    rw [List.filter_eq_nil_iff]
    intro stmt hm
    obtain ⟨e, he, rfl⟩ := List.mem_map.mp hm
    obtain ⟨hitem, hgone⟩ := List.mem_filter.mp he
    have hkey : (tableName e.2).key = e.1 := hb e.1 e.2 (Dict.mem_items_iff.mp hitem)
    simp only [Stmt.commentKey, hkey, Option.some.injEq, decide_eq_true_eq]
    rintro rfl
    exact of_decide_eq_true hgone hmem
  have hschema : (createMissingSchemaSql b.tables t.tables).filter
      (fun stmt => stmt.commentKey = some key) = [] := by
    refine filter_commentKey_eq_nil (fun stmt hm => ?_) key
    obtain ⟨schema, -, rfl⟩ := List.mem_map.mp hm
    rfl
  have hadd : (addFkStmts b t).filter (fun stmt => stmt.commentKey = some key) = [] := by
    refine filter_commentKey_eq_nil (fun stmt hm => ?_) key
    obtain ⟨e, -, he⟩ := List.mem_filterMap.mp hm
    obtain ⟨ends, -, rfl⟩ := Option.map_eq_some_iff.mp he
    rfl
  have hcreate : (createTableStmts unicode source target b t).filter
      (fun stmt => stmt.commentKey = some key) =
        if key ∉ b.tables.keys then [createTableSql unicode source target tt] else [] := by
    unfold createTableStmts
    rw [List.filter_map, List.filter_filter]
    have hcongr : t.tables.items.filter (fun e =>
        ((fun stmt => decide (stmt.commentKey = some key)) ∘
          fun e => createTableSql unicode source target e.2) e && decide (e.1 ∉ b.tables.keys)) =
        (t.tables.items.filter fun e => e.1 = key).filter fun e => e.1 ∉ b.tables.keys := by
      rw [List.filter_filter]
      apply List.filter_congr
      intro e he
      have hkey : (tableName e.2).key = e.1 := ht e.1 e.2 (Dict.mem_items_iff.mp he)
      simp only [Function.comp_apply, createTableSql, Stmt.commentKey, hkey, Option.some.injEq,
        Bool.and_comm]
    rw [hcongr, Dict.filter_items_key, htt]
    by_cases h : key ∈ b.tables.keys
    · simp [h]
    · simp [h]
  have halter : (alterTableStmts unicode source target b t).filter
      (fun stmt => stmt.commentKey = some key) =
        match b.tables.get? key with
        | none => []
        | some bt => if bt.comment ≠ tt.comment ∧ target = .postgresql then
            [commentSql (tableName tt) tt.comment] else [] := by
    unfold alterTableStmts
    rw [List.filter_flatMap, Dict.flatMap_items _ key, htt]
    · simp only [Option.map_some, Option.getD_some]
      cases b.tables.get? key with
      | none => rfl
      | some bt =>
          have hkey : (tableName tt).key = key := ht key tt htt
          have hfilter := filter_alterTableSql unicode source target bt tt
          rw [hkey] at hfilter
          exact hfilter
    · intro e he hne
      rw [List.filter_eq_nil_iff]
      intro stmt hm
      cases hbt : b.tables.get? e.1 with
      | none => simp [hbt] at hm
      | some bt =>
          have hkey : (tableName e.2).key = e.1 := ht e.1 e.2 (Dict.mem_items_iff.mp he)
          simp only [hbt, mem_alterTableSql, mem_alterColumnSql] at hm
          rcases hm with ⟨_, _, _, _, rfl⟩ | ⟨_, _, _, rfl⟩ |
            ⟨_, _, _, _, _, ⟨_, rfl⟩ | ⟨_, _, rfl⟩ | ⟨_, _, rfl⟩⟩ | ⟨_, rfl⟩ | ⟨_, _, rfl⟩
          all_goals simp [Stmt.commentKey, commentSql, hkey, hne]
  unfold migrationStmts
  simp only [List.filter_append, hfks, hdrop, hschema, hcreate, halter, hadd, List.nil_append,
    List.append_nil]
  cases hbt : b.tables.get? key with
  | none => simp [Dict.get?_eq_none_iff.mp hbt]
  | some bt =>
      have hkey : key ∈ b.tables.keys := Dict.mem_keys_iff.mpr ⟨bt, hbt⟩
      simp [hkey]

end

/-! ## The comments of the index -/

variable {Oid Oid' : Type} [DecidableEq Oid] [DecidableEq Oid']

omit [DecidableEq Oid] in
theorem rowsAt_commentRows (s : Snapshot Oid) (key : Str) :
    rowsAt key (commentRows s) =
      (s.relations.filter fun rel => rel.key = key).map fun rel =>
        (rel.tableName, rel.relationComment) := by
  unfold rowsAt commentRows
  rw [List.filter_map]
  simp only [Relation.key_eq, Function.comp_def]

/-- The index has the last table with a key. -/
theorem get?_tables_comment (s : Snapshot Oid) (key : Str) :
    ((indexSnapshot s).tables.get? key).map (fun tbl => (tableName tbl, tbl.comment)) =
      (rowsAt key (commentRows s)).getLast? := by
  unfold indexSnapshot
  rw [get?_tables, Option.map_map, relationTables, Dict.get?_foldl_set_getLast?, Option.map_map,
    rowsAt_commentRows, List.getLast?_map]
  rfl

theorem forall_comment_iff (s : Snapshot Oid) (key : Str) (comment : Option Str) :
    (∀ tbl, (indexSnapshot s).tables.get? key = some tbl → tbl.comment = comment) ↔
      ∀ row, (rowsAt key (commentRows s)).getLast? = some row → row.2 = comment := by
  rw [← get?_tables_comment]
  cases (indexSnapshot s).tables.get? key with
  | none => simp
  | some tbl => simp

theorem comment_of_tableChange {b t : Dict Str Table} {key : Str} {bt tt : Table}
    {change : TableChange} (hb : b.get? key = some bt) (ht : t.get? key = some tt)
    (h : tableChange b t key = some change) :
    change.comment = if bt.comment ≠ tt.comment then some (bt.comment, tt.comment) else none := by
  unfold tableChange at h
  simp only [hb, ht] at h
  by_cases hc : (diffColumns bt.columns tt.columns).added ≠ [] ∨
      (diffColumns bt.columns tt.columns).removed ≠ [] ∨
      (diffColumns bt.columns tt.columns).changed ≠ [] ∨ bt.pk ≠ tt.pk ∨ bt.comment ≠ tt.comment
  · rw [if_pos hc, Option.some.injEq] at h
    rw [← h]
  · rw [if_neg hc] at h
    exact absurd h (Option.some_ne_none change).symm

/-- The diff reports no comment exactly when the tables of each common key agree. -/
theorem no_comment_change_iff (b t : Index) :
    (∀ change ∈ (diffIndexes b t).tablesChanged, change.comment = none) ↔
      ∀ key bt tt, b.tables.get? key = some bt → t.tables.get? key = some tt →
        bt.comment = tt.comment := by
  constructor
  · intro h key bt tt hb ht
    by_contra hne
    have hkey : key ∈ commonKeys b.tables t.tables := mem_commonKeys.mpr
      ⟨Dict.mem_keys_iff.mpr ⟨bt, hb⟩, Dict.mem_keys_iff.mpr ⟨tt, ht⟩⟩
    have hsome : tableChange b.tables t.tables key ≠ none := by
      rw [Ne, tableChange_eq_none_iff hb ht]
      exact fun hsame => hne hsame.2.2
    obtain ⟨change, hchange⟩ := Option.ne_none_iff_exists'.mp hsome
    have hnone := h change (List.mem_filterMap.mpr ⟨key, hkey, hchange⟩)
    rw [comment_of_tableChange hb ht hchange, if_pos hne] at hnone
    exact Option.some_ne_none _ hnone
  · intro h change hm
    obtain ⟨key, hkey, hchange⟩ := List.mem_filterMap.mp hm
    rw [mem_commonKeys] at hkey
    obtain ⟨bt, hb⟩ := Dict.mem_keys_iff.mp hkey.1
    obtain ⟨tt, ht⟩ := Dict.mem_keys_iff.mp hkey.2
    rw [comment_of_tableChange hb ht hchange, if_neg]
    exact not_not_intro (h key bt tt hb ht)

/-! ## After a migration -/

/-- The tables of a database as a snapshot, without columns. -/
def commentSnapshot (rows : CommentRows) : Snapshot Nat where
  relations := rows.map fun row =>
    ⟨none, some row.1.schema, some row.1.name, row.2, some "r".toList⟩
  columns := []
  pkColumns := []
  fkEdges := []
  sourceDialect := none
  databaseDialect := none
  dialect := none

theorem commentRows_commentSnapshot (rows : CommentRows) :
    commentRows (commentSnapshot rows) = rows := by
  unfold commentRows commentSnapshot
  rw [List.map_map]
  exact List.map_id rows

/-- The tables that the migration leaves, with their comments. -/
def afterMigration (unicode : Unicode) (base : Snapshot Oid) (target : Snapshot Oid') :
    CommentRows :=
  afterStmts (snapshotDiffStmts unicode base target .postgresql) (commentRows base)

/-- The tables of a key of the target: a new one without a comment, or the base's ones, of
    which the one named as in the target gets its comment if the two entries differ. -/
theorem rowsAt_afterMigration (unicode : Unicode) (base : Snapshot Oid) (target : Snapshot Oid')
    {key : Str} {tt : Table} (ht : (indexSnapshot target).tables.get? key = some tt) :
    rowsAt key (afterMigration unicode base target) =
      match (indexSnapshot base).tables.get? key with
      | none => [(tableName tt, none)]
      | some bt => if bt.comment ≠ tt.comment then
          (rowsAt key (commentRows base)).map fun row =>
            if row.1 = tableName tt then (row.1, tt.comment.filter (· ≠ [])) else row
          else rowsAt key (commentRows base) := by
  unfold afterMigration snapshotDiffStmts
  rw [rowsAt_afterStmts, filter_migrationStmts unicode _ _ (keyed_indexSnapshot base)
    (keyed_indexSnapshot target) ht]
  have hlast := get?_tables_comment base key
  cases hb : (indexSnapshot base).tables.get? key with
  | none =>
      have hnil : rowsAt key (commentRows base) = [] := by
        rw [hb] at hlast
        exact List.getLast?_eq_none_iff.mp hlast.symm
      simp only [hnil]
      rfl
  | some bt =>
      simp only [and_true]
      split_ifs with h
      · show (rowsAt key (commentRows base)).map _ = _
        simp only [readComment_commentLiteral, Option.filter_filter, Bool.and_self]
      · rfl

/-- The comments converge: the diff of what the migration leaves with the target reports no
    comment, and every comment of the target is reached. -/
structure CommentsConverge (unicode : Unicode) (base : Snapshot Oid) (target : Snapshot Oid') :
    Prop where
  unchanged : ∀ change ∈ (diffSnapshots
    (commentSnapshot (afterMigration unicode base target)) target).tablesChanged,
      change.comment = none
  reached : ∀ rel ∈ target.relations, ∀ comment, rel.relationComment = some comment →
    comment ≠ [] → (rel.tableName, some comment) ∈ afterMigration unicode base target

section
variable (unicode : Unicode) {base : Snapshot Oid} {target : Snapshot Oid'} {key : Str}
  {tt : Table} (ht : (indexSnapshot target).tables.get? key = some tt)
include ht

/-- What the last table of a new key is left with. -/
theorem unchanged_new_iff (hb : (indexSnapshot base).tables.get? key = none) :
    (∀ row, (rowsAt key (afterMigration unicode base target)).getLast? = some row →
      row.2 = tt.comment) ↔ tt.comment = none := by
  rw [rowsAt_afterMigration unicode base target ht, hb]
  simp [eq_comm]

/-- What the last table of a common key is left with. -/
theorem unchanged_common_iff {bt : Table}
    (hb : (indexSnapshot base).tables.get? key = some bt) :
    (∀ row, (rowsAt key (afterMigration unicode base target)).getLast? = some row →
      row.2 = tt.comment) ↔
      bt.comment = tt.comment ∨ tableName bt = tableName tt ∧ tt.comment ≠ some [] := by
  have hlast := get?_tables_comment base key
  rw [hb, Option.map_some] at hlast
  rw [rowsAt_afterMigration unicode base target ht, hb]
  by_cases hc : bt.comment = tt.comment
  · simp [hc, ← hlast]
  · have hfilter : tt.comment.filter (· ≠ []) = tt.comment ↔ tt.comment ≠ some [] := by
      cases tt.comment with
      | none => simp
      | some text => by_cases h : text = [] <;> simp [Option.filter_some, h]
    simp only [Ne, hc, not_false_eq_true, if_true, List.getLast?_map, ← hlast, Option.map_some,
      Option.some.injEq, forall_eq', false_or]
    by_cases hname : tableName bt = tableName tt
    · simp only [hname, if_true, true_and]
      exact hfilter
    · simp only [hname, if_false, false_and, iff_false]
      exact hc

/-- Which comments a table of a common key is left with. -/
theorem mem_afterMigration_iff {bt : Table} (hb : (indexSnapshot base).tables.get? key = some bt)
    (hc : bt.comment = tt.comment ∨ tableName bt = tableName tt ∧ tt.comment ≠ some [])
    {table : TableName} (hkey : table.key = key) {comment : Str} (hne : comment ≠ []) :
    (table, some comment) ∈ afterMigration unicode base target ↔
      if bt.comment ≠ tt.comment ∧ table = tableName tt then tt.comment = some comment
      else (table, some comment) ∈ commentRows base := by
  have hmem : ∀ rows : CommentRows,
      (table, some comment) ∈ rows ↔ (table, some comment) ∈ rowsAt key rows := by
    intro rows
    simp [rowsAt, hkey]
  rw [hmem, rowsAt_afterMigration unicode base target ht, hb]
  by_cases hsame : bt.comment = tt.comment
  · simp only [hsame, ne_eq, not_true_eq_false, if_false, false_and]
    exact (hmem _).symm
  · obtain ⟨hname, htext⟩ := hc.resolve_left hsame
    simp only [ne_eq, hsame, not_false_eq_true, if_true, true_and, List.mem_map]
    have hfilter : tt.comment.filter (· ≠ []) = some comment ↔ tt.comment = some comment := by
      cases tt.comment with
      | none => simp
      | some text =>
          by_cases h : text = []
          · subst h
            simp [Option.filter_some, Ne.symm hne]
          · simp [Option.filter_some, h]
    by_cases htable : table = tableName tt
    · rw [if_pos htable, ← hfilter]
      constructor
      · rintro ⟨row, -, hrow⟩
        split_ifs at hrow with hr
        · exact congrArg Prod.snd hrow
        · rw [hrow] at hr
          exact absurd htable hr
      · intro h
        -- the base has a table of the name: its entry
        have hlast := get?_tables_comment base key
        rw [hb, Option.map_some] at hlast
        refine ⟨(tableName bt, bt.comment), List.mem_of_getLast? hlast.symm, ?_⟩
        rw [if_pos hname, h, hname, htable]
    · rw [if_neg htable, hmem]
      constructor
      · rintro ⟨row, hrow, heq⟩
        split_ifs at heq with hr
        · exact absurd ((congrArg Prod.fst heq).symm.trans hr) htable
        · rwa [← heq]
      · intro h
        exact ⟨_, h, if_neg htable⟩

end

/-- **Comments converge** exactly where: a table that is new has no comment in the target; a
    comment that differs is given to the table of the same name, and is not the empty text;
    and each comment of the target is that of the entry whose comment differs, or one that the
    base has for the table already. -/
theorem comments_converge_iff (unicode : Unicode) (base : Snapshot Oid) (target : Snapshot Oid') :
    CommentsConverge unicode base target ↔
      (∀ key tt, (indexSnapshot target).tables.get? key = some tt →
        match (indexSnapshot base).tables.get? key with
        | none => tt.comment = none
        | some bt => bt.comment = tt.comment ∨
            tableName bt = tableName tt ∧ tt.comment ≠ some []) ∧
      ∀ rel ∈ target.relations, ∀ comment, rel.relationComment = some comment → comment ≠ [] →
        ∃ bt tt, (indexSnapshot base).tables.get? rel.key = some bt ∧
          (indexSnapshot target).tables.get? rel.key = some tt ∧
          if bt.comment ≠ tt.comment ∧ rel.tableName = tableName tt then
            tt.comment = some comment
          else (rel.tableName, some comment) ∈ commentRows base := by
  have hunchanged : (∀ change ∈ (diffSnapshots
      (commentSnapshot (afterMigration unicode base target)) target).tablesChanged,
        change.comment = none) ↔
      ∀ key tt, (indexSnapshot target).tables.get? key = some tt →
        match (indexSnapshot base).tables.get? key with
        | none => tt.comment = none
        | some bt => bt.comment = tt.comment ∨
            tableName bt = tableName tt ∧ tt.comment ≠ some [] := by
    unfold diffSnapshots
    rw [no_comment_change_iff]
    refine forall_congr' fun key => ?_
    have hrows : ∀ tt, (indexSnapshot target).tables.get? key = some tt →
        ((∀ rt, (indexSnapshot (commentSnapshot (afterMigration unicode base target))).tables.get?
            key = some rt → rt.comment = tt.comment) ↔
          match (indexSnapshot base).tables.get? key with
          | none => tt.comment = none
          | some bt => bt.comment = tt.comment ∨
              tableName bt = tableName tt ∧ tt.comment ≠ some []) := by
      intro tt ht
      rw [forall_comment_iff, commentRows_commentSnapshot]
      cases hb : (indexSnapshot base).tables.get? key with
      | none => exact unchanged_new_iff unicode ht hb
      | some bt => exact unchanged_common_iff unicode ht hb
    constructor
    · intro h tt ht
      exact (hrows tt ht).mp fun rt hr => h rt tt hr ht
    · intro h rt tt hr ht
      exact (hrows tt ht).mpr (h tt ht) rt hr
  have hreached : ∀ rel ∈ target.relations, ∃ tt,
      (indexSnapshot target).tables.get? rel.key = some tt := by
    intro rel hrel
    rw [← Dict.mem_keys_iff, Snapshot.mem_keys_tables_iff]
    exact ⟨rel.tableName, List.mem_map_of_mem hrel, (Relation.key_eq rel).symm⟩
  constructor
  · rintro ⟨hchange, hcomments⟩
    have hentries := hunchanged.mp hchange
    refine ⟨hentries, fun rel hrel comment hcomment hne => ?_⟩
    obtain ⟨tt, ht⟩ := hreached rel hrel
    have hentry := hentries rel.key tt ht
    have hm := hcomments rel hrel comment hcomment hne
    cases hb : (indexSnapshot base).tables.get? rel.key with
    | none =>
        have hrow : (rel.tableName, some comment) ∈
            rowsAt rel.key (afterMigration unicode base target) :=
          List.mem_filter.mpr ⟨hm, decide_eq_true (Relation.key_eq rel).symm⟩
        rw [rowsAt_afterMigration unicode base target ht, hb] at hrow
        simp at hrow
    | some bt =>
        rw [hb] at hentry
        exact ⟨bt, tt, rfl, ht, (mem_afterMigration_iff unicode ht hb hentry
          (Relation.key_eq rel).symm hne).mp hm⟩
  · rintro ⟨hentries, hcomments⟩
    refine ⟨hunchanged.mpr hentries, fun rel hrel comment hcomment hne => ?_⟩
    obtain ⟨bt, tt, hb, ht, hm⟩ := hcomments rel hrel comment hcomment hne
    have hentry := hentries rel.key tt ht
    rw [hb] at hentry
    exact (mem_afterMigration_iff unicode ht hb hentry (Relation.key_eq rel).symm hne).mpr hm

/-- **The comment of a new table is lost.** -/
theorem new_comment_lost :
    ¬ CommentsConverge asciiUnicode (commentSnapshot [])
      (commentSnapshot [(⟨"public".toList, "member".toList⟩, some "People".toList)]) := by
  intro h
  have hafter : afterMigration asciiUnicode (commentSnapshot [])
      (commentSnapshot [(⟨"public".toList, "member".toList⟩, some "People".toList)]) =
        [(⟨"public".toList, "member".toList⟩, none)] := by decide
  have hm := h.reached _ (List.mem_singleton_self _) "People".toList rfl (by decide)
  rw [hafter] at hm
  simp at hm

-- a comment that is removed and one with a quote do converge
example : afterMigration asciiUnicode
    (commentSnapshot [(⟨"s".toList, "t".toList⟩, some "old".toList),
      (⟨"s".toList, "u".toList⟩, some "old".toList)])
    (commentSnapshot [(⟨"s".toList, "t".toList⟩, none),
      (⟨"s".toList, "u".toList⟩, some "it's".toList)]) =
    [(⟨"s".toList, "t".toList⟩, none), (⟨"s".toList, "u".toList⟩, some "it's".toList)] := by
  decide

end PgErdCloud.Ddl
