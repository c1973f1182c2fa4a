/-
  The names in the definitions of a MySQL snapshot, as PostgreSQL reads them. A name between
  quotes is not escaped, a name in an index definition is not even quoted; nothing else in the
  definitions ends or begins a token. So a definition keeps its names exactly when each is one
  that needs no escape, or no quotes at all.

  `names_kept_iff` is about all rows of the information schema and any list of reserved words; the
  definitions that are stored are those in parts, and keep their names exactly when none needs an
  escape or a quote.
-/
import PgErdCloud.Mysql.ForeignKeys
import PgErdCloud.Lib.SqlIdent

namespace PgErdCloud.Mysql

open Lib Lib.PyStr Lib.LexState Lib.Fallible

/-! ## Names that are kept -/

/-- The name that a part is made of. -/
def Piece.name? : Piece → Option Str
  | .sql _ => none
  | .quoted name | .bare name => some name

/-- The text of a definition as it is stored. -/
def storedText (pieces : List Piece) : Str := stripNul (piecesText pieces)

/-- Every name of a definition is one identifier token, with the name as its value. -/
def NamesKept (reserved : Str → Bool) (pieces : List Piece) : Prop :=
  ∀ before piece after name, pieces = before ++ piece :: after → piece.name? = some name →
    IsIdentifier reserved (lex .base (storedText before)) (stripNul piece.text) (storedText after)
      name

/-- The same for pieces behind `st`. -/
def KeptFrom (reserved : Str → Bool) : LexState → List Piece → Prop
  | _, [] => True
  | st, piece :: pieces =>
      (∀ name, piece.name? = some name →
        IsIdentifier reserved st (stripNul piece.text) (storedText pieces) name) ∧
      KeptFrom reserved (lex st (stripNul piece.text)) pieces

/-- A name that comes out of its piece as it is. -/
def Piece.Keeps (reserved : Str → Bool) : Piece → Prop
  | .sql _ => True
  | .quoted name => QuotableName name ∧ '\x00' ∉ name
  | .bare name => BareName reserved name

theorem storedText_cons (piece : Piece) (pieces : List Piece) :
    storedText (piece :: pieces) = stripNul piece.text ++ storedText pieces :=
  List.filter_append _ _

theorem namesKept_of_keptFrom {reserved : Str → Bool} {pieces : List Piece} {st : LexState}
    (h : KeptFrom reserved st pieces) {before after : List Piece} {piece : Piece} {name : Str}
    (hsplit : pieces = before ++ piece :: after) (hname : piece.name? = some name) :
    IsIdentifier reserved (lex st (storedText before)) (stripNul piece.text) (storedText after)
      name := by
  induction before generalizing pieces st with
  | nil =>
      subst hsplit
      exact h.1 name hname
  | cons first before ih =>
      subst hsplit
      rw [storedText_cons, lex_append]
      exact ih h.2 rfl

/-! ## Well-spaced definitions -/

/-- SQL between names: plain, and it ends with a separator; behind a name it begins with one. -/
def spaced : Bool → List Piece → Bool
  | _, [] => true
  | ready, .sql text :: pieces =>
      (ready || text.head?.any isSeparator) && text.getLast?.any isSeparator &&
        text.all isPlain && spaced true pieces
  | ready, .quoted _ :: pieces | ready, .bare _ :: pieces => ready && spaced false pieces

theorem spaced_mono {pieces : List Piece} (h : spaced false pieces = true) :
    spaced true pieces = true := by
  cases pieces with
  | nil => rfl
  | cons piece pieces =>
      cases piece with
      | sql text =>
          simp only [spaced, Bool.and_eq_true, Bool.true_or, true_and] at h ⊢
          exact ⟨⟨h.1.1.2, h.1.2⟩, h.2⟩
      | quoted name => exact absurd h (by simp [spaced])
      | bare name => exact absurd h (by simp [spaced])

/-- A list of names before SQL. -/
theorem spaced_listPieces {piece : Str → Piece}
    (hpiece : ∀ name rest, spaced true (piece name :: rest) = spaced false rest) (names : List Str)
    {rest : List Piece} (h : spaced false rest = true) :
    spaced true (listPieces piece names ++ rest) = true := by
  induction names with
  | nil => exact spaced_mono h
  | cons name names ih =>
      cases names with
      | nil =>
          show spaced true (piece name :: rest) = true
          rw [hpiece, h]
      | cons next names =>
          have hcons : listPieces piece (name :: next :: names) =
              piece name :: .sql ", ".toList :: listPieces piece (next :: names) := by
            simp [listPieces, List.intercalate]
          rw [hcons, List.cons_append, List.cons_append, hpiece]
          exact ih

theorem spaced_primaryKeyPieces (columns : List Str) :
    spaced true (primaryKeyPieces columns) = true := by
  have hlist : spaced true (listPieces .quoted columns ++ [.sql ")".toList]) = true :=
    spaced_listPieces (fun _ _ => rfl) columns rfl
  exact hlist

theorem spaced_foreignKeyPieces (columns : List Str) (parentSchema parentName : Str)
    (parentColumns : List Str) :
    spaced true (foreignKeyPieces columns parentSchema parentName parentColumns) = true := by
  have hparent : spaced true (listPieces .quoted parentColumns ++ [.sql ")".toList]) = true :=
    spaced_listPieces (fun _ _ => rfl) parentColumns rfl
  unfold foreignKeyPieces
  rw [List.append_assoc, List.append_assoc]
  exact spaced_listPieces (fun _ _ => rfl) columns hparent

theorem spaced_indexPieces (unique : Bool) (name schema table : Str) (columns : List Str) :
    spaced true (indexPieces unique name schema table columns) = true := by
  have hlist : spaced true (listPieces .bare columns ++ [.sql ")".toList]) = true :=
    spaced_listPieces (fun _ _ => rfl) columns rfl
  unfold indexPieces
  rw [List.append_assoc]
  cases unique with
  | true => exact hlist
  | false => exact hlist

theorem stripNul_of_plain {text : Str} (h : text.all isPlain = true) : stripNul text = text := by
  rw [stripNul_eq_iff]
  intro hm
  exact absurd (List.all_eq_true.mp h _ hm) (by decide)

theorem stripNul_eq_of_keeps {reserved : Str → Bool} {piece : Piece} (h : piece.Keeps reserved)
    {name : Str} (hname : piece.name? = some name) : stripNul piece.text = piece.text := by
  rw [stripNul_eq_iff]
  cases piece with
  | sql text => exact absurd hname (by simp [Piece.name?])
  | quoted name' => simpa [Piece.text] using h.2
  | bare name' =>
      intro hm
      exact absurd (h.chars _ hm) (by decide)

theorem head_storedText {pieces : List Piece} (h : spaced false pieces = true) :
    ∀ c ∈ (storedText pieces).head?, isSeparator c = true := by
  cases pieces with
  | nil => simp [storedText, piecesText, stripNul]
  | cons piece pieces =>
      cases piece with
      | sql text =>
          simp only [spaced, Bool.and_eq_true, Bool.false_or] at h
          obtain ⟨⟨⟨hhead, -⟩, hplain⟩, -⟩ := h
          obtain ⟨c, hc, hsep⟩ := (Option.any_eq_true _ _).mp hhead
          rw [storedText_cons, Piece.text, stripNul_of_plain hplain]
          cases text with
          | nil => exact absurd hc (by simp)
          | cons d text =>
              intro c' hc'
              obtain rfl : d = c' := by simpa using hc'
              obtain rfl : d = c := by simpa using hc
              exact hsep
      | quoted name => exact absurd h (by simp [spaced])
      | bare name => exact absurd h (by simp [spaced])

/-- **In a well-spaced definition** names that come out of their pieces are kept. -/
theorem keptFrom_of_spaced {reserved : Str → Bool} {pieces : List Piece} {ready : Bool}
    (h : spaced ready pieces = true) (hkeeps : ∀ piece ∈ pieces, piece.Keeps reserved)
    {st : LexState} (hidle : Idle st) (hbase : ready = true → st = .base) :
    KeptFrom reserved st pieces := by
  induction pieces generalizing ready st with
  | nil => trivial
  | cons piece pieces ih =>
      have hkeep := hkeeps piece List.mem_cons_self
      have hrest := fun p hp => hkeeps p (List.mem_cons_of_mem piece hp)
      cases piece with
      | sql text =>
          simp only [spaced, Bool.and_eq_true] at h
          obtain ⟨⟨⟨-, hlast⟩, hplain⟩, hspaced⟩ := h
          refine ⟨fun name hname => absurd hname (by simp [Piece.name?]), ?_⟩
          have hrun : lex st (stripNul text) = .base := by
            rw [stripNul_of_plain hplain]
            obtain ⟨c, hc, hsep⟩ := (Option.any_eq_true _ _).mp hlast
            obtain ⟨init, rfl⟩ := List.getLast?_eq_some_iff.mp hc
            exact lex_eq_base hidle (fun d hd => List.all_eq_true.mp hplain d
              (List.mem_append_left _ hd)) hsep
          show KeptFrom reserved (lex st (stripNul text)) pieces
          rw [hrun]
          exact ih hspaced hrest idle_base fun _ => rfl
      | quoted name =>
          simp only [spaced, Bool.and_eq_true] at h
          obtain rfl := hbase h.1
          have hafter := head_storedText h.2
          have hstrip := stripNul_eq_of_keeps hkeep rfl
          refine ⟨fun name' hname => ?_, ?_⟩
          · obtain rfl : name = name' := Option.some.inj hname
            rw [hstrip]
            exact hkeep.1.isIdentifier fun hquote => absurd (hafter _ hquote) (by decide)
          · have hrun : lex .base (Piece.quoted name).text = .quotedEnd := by
              show lex .base ('"' :: (name ++ ['"'])) = _
              rw [← hkeep.1.quoteIdent_eq, quoteIdent, lex_cons, lex_append]
              show lex (lex .quoted _) ['"'] = _
              rw [(lex_quoted_replaceChar name).1]
              rfl
            rw [hstrip, hrun]
            exact ih h.2 hrest trivial (by simp)
      | bare name =>
          simp only [spaced, Bool.and_eq_true] at h
          obtain rfl := hbase h.1
          have hstrip := stripNul_eq_of_keeps hkeep rfl
          refine ⟨fun name' hname => ?_, ?_⟩
          · obtain rfl : name = name' := Option.some.inj hname
            rw [hstrip]
            exact hkeep.isIdentifier (head_storedText h.2)
          · have hrun : lex .base (Piece.bare name).text = .word name := hkeep.run
            rw [hstrip, hrun]
            exact ih h.2 hrest trivial (by simp)

/-- A name that is kept comes out of its piece. -/
theorem keeps_of_isIdentifier {reserved : Str → Bool} {piece : Piece} {name after : Str}
    {st : LexState} (hname : piece.name? = some name)
    (h : IsIdentifier reserved st (stripNul piece.text) after name) : piece.Keeps reserved := by
  cases piece with
  | sql text => trivial
  | quoted name' =>
      obtain rfl : name' = name := Option.some.inj hname
      have htext : stripNul (Piece.quoted name').text = '"' :: (stripNul name' ++ ['"']) := by
        simp [Piece.text, stripNul]
      rw [htext] at h
      obtain ⟨hquotable, hwritten⟩ := quotableName_of_isIdentifier (List.length_filter_le _ _) h
      exact ⟨hquotable, stripNul_eq_iff.mp hwritten⟩
  | bare name' =>
      obtain rfl : name' = name := Option.some.inj hname
      have hlength := h.length_le
      have hwritten : stripNul name' = name' :=
        List.filter_sublist.eq_of_length_le hlength
      rw [Piece.text, hwritten] at h
      exact bareName_of_isIdentifier h

theorem namesKept_iff {reserved : Str → Bool} {pieces : List Piece}
    (h : spaced true pieces = true) :
    NamesKept reserved pieces ↔ ∀ piece ∈ pieces, piece.Keeps reserved := by
  constructor
  · intro hkept piece hm
    cases hname : piece.name? with
    | none =>
        cases piece with
        | sql text => trivial
        | quoted name => exact absurd hname (by simp [Piece.name?])
        | bare name => exact absurd hname (by simp [Piece.name?])
    | some name =>
        obtain ⟨before, after, hsplit⟩ := List.append_of_mem hm
        exact keeps_of_isIdentifier hname (hkept before piece after name hsplit hname)
  · intro hkeeps before piece after name hsplit hname
    exact namesKept_of_keptFrom (keptFrom_of_spaced h hkeeps idle_base fun _ => rfl) hsplit hname

/-! ## The definitions of a snapshot -/

/-- The definitions of keys and foreign keys, in parts. -/
def constraintDefinitions (oids : Dict (Str × Str) Nat) (keyUsage : List KeyUsageRow) :
    List (List Piece) :=
  (readKeyUsage oids keyUsage).pkColsByOid.items.map (fun e => primaryKeyPieces e.2) ++
    (fkRows oids keyUsage).map fun r =>
      foreignKeyPieces [r.columns.1] r.parentKey.1 r.parentKey.2 [r.columns.2]

/-- The definition of an index, in parts. -/
def newIndexPieces (e : (Str × Str × Str) × List (Int × Str × Bool)) : List Piece :=
  indexPieces ((e.2.head?.map fun c => c.2.2).getD false) e.1.2.2 e.1.1 e.1.2.1
    (orderedColumns e.2)

/-- The definitions of the indexes of known tables, in parts. -/
def indexDefinitions (oids : Dict (Str × Str) Nat) (indexes : List StatisticsRow) :
    List (List Piece) :=
  let entries := sortedBy (fun a b => tupleLe (tupleLe fun x y => decide (x ≤ y)) a.1 b.1)
    (groupIndexes indexes).items
  (entries.filter fun e => (oids.get? (e.1.1, e.1.2.1)).isSome).map newIndexPieces

/-- The elements with a value, mapped without it. -/
theorem filterMap_eq_map_filter {α β γ : Type} (f : α → Option β) (g : α → γ) (xs : List α) :
    xs.filterMap (fun x => (f x).map fun _ => g x) = (xs.filter fun x => (f x).isSome).map g := by
  induction xs with
  | nil => rfl
  | cons x xs ih => cases hx : f x <;> simp [hx, ih]

variable (unicode : Unicode)

/-- The stored texts are those of the definitions. -/
theorem definitions_of_rowsToSnapshot (tables : List TableRow) (columns : List ColumnRow)
    (keyUsage : List KeyUsageRow) (indexes : List StatisticsRow) :
    ∃ s, rowsToSnapshot unicode tables columns keyUsage indexes = .ok s ∧
      s.constraints.map Constraint.constraintDef =
        (constraintDefinitions (oidByTable tables) keyUsage).map storedText ∧
      s.indexes.map IndexEntry.indexDef =
        (indexDefinitions (oidByTable tables) indexes).map storedText := by
  obtain ⟨pos, pks, hpks, hs⟩ := rowsToSnapshot_eq unicode tables columns keyUsage indexes
  refine ⟨_, hs, ?_, ?_⟩
  · have hdefs : pks.map (fun con => stripNul con.constraintDef) =
        (readKeyUsage (oidByTable tables) keyUsage).pkColsByOid.items.map
          fun e => storedText (primaryKeyPieces e.2) := by
      refine map_eq_map_of_mapM (fun e con hcon => ?_) hpks
      obtain ⟨rel, -, hcon⟩ := bind_eq_ok.mp hcon
      obtain rfl := Except.ok.inj hcon
      rfl
    show ((pks ++ _).map Constraint.stored).map Constraint.constraintDef = _
    rw [List.map_append, List.map_append, List.map_map, constraintDefinitions, List.map_append,
      List.map_map, List.map_map]
    congr 1
    rw [fkConstraints, List.map_map, List.map_map]
    show ((fkRows (oidByTable tables) keyUsage).zipIdx 1).map ((storedText ∘ fun r : FkRow =>
      foreignKeyPieces [r.columns.1] r.parentKey.1 r.parentKey.2 [r.columns.2]) ∘ Prod.fst) = _
    rw [← List.map_map, List.zipIdx_map_fst]
  · show ((outIndexes (oidByTable tables) indexes).map fun ix =>
      { ix with indexName := stripNul ix.indexName, indexDef := stripNul ix.indexDef }).map
        IndexEntry.indexDef = _
    rw [List.map_map, outIndexes, indexDefinitions, List.map_map, List.map_filterMap,
      ← filterMap_eq_map_filter]
    congr 1
    funext e
    cases (oidByTable tables).get? (e.1.1, e.1.2.1) with
    | none => rfl
    | some oid => rfl

/-! ## Names of the rows -/

/-- A name that can stand between quotes without an escape. -/
def Quotable (name : Str) : Prop := QuotableName name ∧ '\x00' ∉ name

/-- The rows of primary keys. -/
def pkRows (oids : Dict (Str × Str) Nat) (keyUsage : List KeyUsageRow) : List KeyUsageRow :=
  keyUsage.filter fun row => strOf row.constraintName = "PRIMARY".toList ∧
    (oids.get? (row.tableSchema, row.tableName)).isSome

/-- The rows of indexes on the tables of the snapshot. -/
def indexRows (oids : Dict (Str × Str) Nat) (indexes : List StatisticsRow) :
    List StatisticsRow :=
  indexes.filter fun row => (oids.get? (row.tableSchema, row.tableName)).isSome

/-- Every name in the definition of an index comes out of it as it is. -/
def StatisticsRow.BareNames (reserved : Str → Bool) (row : StatisticsRow) : Prop :=
  BareName reserved row.indexName ∧ BareName reserved row.tableSchema ∧
    BareName reserved row.tableName ∧ BareName reserved (strOf row.columnName)

/-- No name in the definition of the foreign key has a double quote. -/
def FkRow.QuotableNames (r : FkRow) : Prop :=
  Quotable r.columns.1 ∧ Quotable r.parentKey.1 ∧ Quotable r.parentKey.2 ∧ Quotable r.columns.2

theorem keeps_listPieces {reserved : Str → Bool} (piece : Str → Piece) (names : List Str) :
    (∀ p ∈ listPieces piece names, p.Keeps reserved) ↔
      ∀ name ∈ names, (piece name).Keeps reserved := by
  induction names with
  | nil => simp [listPieces, List.intercalate]
  | cons name names ih =>
      cases names with
      | nil => simp [listPieces, List.intercalate]
      | cons next names =>
          have hcons : listPieces piece (name :: next :: names) =
              piece name :: .sql ", ".toList :: listPieces piece (next :: names) := by
            simp [listPieces, List.intercalate]
          rw [hcons, List.forall_mem_cons, List.forall_mem_cons, List.forall_mem_cons, ih]
          exact and_congr_right fun _ => and_iff_right trivial

theorem namesKept_primaryKeyPieces {reserved : Str → Bool} (columns : List Str) :
    NamesKept reserved (primaryKeyPieces columns) ↔ ∀ column ∈ columns, Quotable column := by
  rw [namesKept_iff (spaced_primaryKeyPieces columns), primaryKeyPieces, List.forall_mem_cons,
    List.forall_mem_append, keeps_listPieces]
  simp [Piece.Keeps, Quotable]

theorem namesKept_foreignKeyPieces {reserved : Str → Bool} (r : FkRow) :
    NamesKept reserved (foreignKeyPieces [r.columns.1] r.parentKey.1 r.parentKey.2
      [r.columns.2]) ↔ r.QuotableNames := by
  rw [namesKept_iff (spaced_foreignKeyPieces _ _ _ _), foreignKeyPieces, List.forall_mem_cons,
    List.forall_mem_append, List.forall_mem_append, List.forall_mem_append, keeps_listPieces,
    keeps_listPieces]
  simp only [Piece.Keeps, FkRow.QuotableNames, Quotable, List.forall_mem_cons,
    List.not_mem_nil, false_imp_iff, implies_true, true_and, and_true, and_assoc]

theorem namesKept_indexPieces {reserved : Str → Bool} (unique : Bool) (name schema table : Str)
    (columns : List Str) :
    NamesKept reserved (indexPieces unique name schema table columns) ↔
      (BareName reserved name ∧ BareName reserved schema ∧ BareName reserved table) ∧
        ∀ column ∈ columns, BareName reserved column := by
  rw [namesKept_iff (spaced_indexPieces _ _ _ _ _), indexPieces, List.forall_mem_append,
    List.forall_mem_append, keeps_listPieces]
  simp only [Piece.Keeps, List.forall_mem_cons, List.not_mem_nil, false_imp_iff, implies_true,
    true_and, and_true]

/-! ### Grouped rows -/

/-- The table of a row of a primary key. -/
def primaryKeyOid (oids : Dict (Str × Str) Nat) (row : KeyUsageRow) : Option Nat :=
  if strOf row.constraintName = "PRIMARY".toList then oids.get? (row.tableSchema, row.tableName)
  else none

theorem pkColsByOid_eq (oids : Dict (Str × Str) Nat) (keyUsage : List KeyUsageRow) :
    (readKeyUsage oids keyUsage).pkColsByOid =
      keyUsage.foldl (Dict.groupAt (primaryKeyOid oids) KeyUsageRow.columnName) .empty := by
  have hstep : ∀ keys row, (addKeyUsage oids keys row).pkColsByOid =
      Dict.groupAt (primaryKeyOid oids) KeyUsageRow.columnName keys.pkColsByOid row := by
    intro keys row
    unfold addKeyUsage Dict.groupAt Dict.upsertAt primaryKeyOid
    cases oids.get? (row.tableSchema, row.tableName) with
    | none => rw [ite_self]
    | some oid =>
        dsimp only
        split_ifs with hprimary
        · rfl
        · cases row.parentKey.bind oids.get? <;> rfl
  unfold readKeyUsage
  exact (List.foldl_hom KeyUsage.pkColsByOid fun keys row => (hstep keys row).symm).symm

theorem forall_pkColsByOid {oids : Dict (Str × Str) Nat} {keyUsage : List KeyUsageRow}
    {P : Str → Prop} :
    (∀ e ∈ (readKeyUsage oids keyUsage).pkColsByOid.items, ∀ column ∈ e.2, P column) ↔
      ∀ row ∈ pkRows oids keyUsage, P row.columnName := by
  have hrows : ∀ row, (∃ oid, primaryKeyOid oids row = some oid) ↔
      strOf row.constraintName = "PRIMARY".toList ∧
        (oids.get? (row.tableSchema, row.tableName)).isSome := by
    intro row
    unfold primaryKeyOid
    split_ifs with h
    · rw [and_iff_right h, Option.isSome_iff_exists]
    · exact iff_of_false (by simp) fun hp => h hp.1
  rw [pkColsByOid_eq]
  refine (Dict.forall_mem_foldl_groupAt (P := fun _ column => P column)).trans ?_
  simp only [pkRows, List.mem_filter, decide_eq_true_eq, ← hrows]
  constructor
  · rintro h row ⟨hm, oid, hoid⟩
    exact h row hm oid hoid
  · intro h row hm oid hoid
    exact h row ⟨hm, oid, hoid⟩

theorem mem_orderedColumns {columns : List (Int × Str × Bool)} {column : Str} :
    column ∈ orderedColumns columns ↔ ∃ c ∈ columns, c.2.1 = column := by
  rw [orderedColumns, List.mem_map]
  exact exists_congr fun c => and_congr_left fun _ => (List.perm_insertionSort _ _).mem_iff

theorem namesKept_indexDefinitions {reserved : Str → Bool} {oids : Dict (Str × Str) Nat}
    {indexes : List StatisticsRow} :
    (∀ d ∈ indexDefinitions oids indexes, NamesKept reserved d) ↔
      ∀ row ∈ indexRows oids indexes, row.BareNames reserved := by
  have hgroups : groupIndexes indexes = indexes.foldl (Dict.groupAt
      (fun row => some row.key) StatisticsRow.entry) .empty := rfl
  have hentry : ∀ e : (Str × Str × Str) × List (Int × Str × Bool),
      NamesKept reserved (newIndexPieces e) ↔
        (BareName reserved e.1.2.2 ∧ BareName reserved e.1.1 ∧ BareName reserved e.1.2.1) ∧
          ∀ c ∈ e.2, BareName reserved c.2.1 := by
    intro e
    rw [newIndexPieces, namesKept_indexPieces]
    simp only [mem_orderedColumns, forall_exists_index, and_imp, forall_apply_eq_imp_iff₂]
  have hmem : ∀ d, d ∈ indexDefinitions oids indexes ↔ ∃ e ∈ (groupIndexes indexes).items,
      (oids.get? (e.1.1, e.1.2.1)).isSome ∧ newIndexPieces e = d := by
    intro d
    simp only [indexDefinitions, sortedBy, List.mem_map, List.mem_filter,
      (List.perm_insertionSort _ _).mem_iff, and_assoc]
  -- a group has a row, so the names of its key are those of a row
  constructor
  · intro h row hm
    obtain ⟨hrow, htable⟩ := List.mem_filter.mp hm
    have he : (row.key, (indexes.filter (some ·.key = some row.key)).map StatisticsRow.entry) ∈
        (groupIndexes indexes).items := by
      rw [hgroups, Dict.mem_foldl_groupAt]
      exact ⟨List.ne_nil_of_mem (List.mem_filter.mpr ⟨hrow, by simp⟩), rfl⟩
    obtain ⟨⟨hname, hschema, htableName⟩, hcolumns⟩ :=
      (hentry _).mp (h _ ((hmem _).mpr ⟨_, he, htable, rfl⟩))
    refine ⟨hname, hschema, htableName, hcolumns row.entry ?_⟩
    exact List.mem_map_of_mem (List.mem_filter.mpr ⟨hrow, by simp⟩)
  · intro h d hd
    obtain ⟨⟨key, entries⟩, he, htable, rfl⟩ := (hmem d).mp hd
    rw [hgroups, Dict.mem_foldl_groupAt] at he
    obtain ⟨hne, hentries⟩ := he
    have hrows : ∀ row ∈ indexes.filter (some ·.key = some key),
        row.key = key ∧ row.BareNames reserved := by
      intro row hm
      obtain ⟨hrow, hkey⟩ := List.mem_filter.mp hm
      obtain rfl : row.key = key := by simpa using hkey
      exact ⟨rfl, h row (List.mem_filter.mpr ⟨hrow, htable⟩)⟩
    obtain ⟨row, hrow⟩ := List.exists_mem_of_ne_nil _ hne
    obtain ⟨rfl, hname, hschema, htableName, -⟩ := hrows row hrow
    refine (hentry _).mpr ⟨⟨hname, hschema, htableName⟩, fun c hc => ?_⟩
    obtain ⟨row', hrow', rfl⟩ := List.mem_map.mp (hentries ▸ hc)
    exact (hrows row' hrow').2.2.2.2

/-! ## Exactly when -/

/-- **When the names of the rows come out of the definitions:** when those in constraints need
    no escape between quotes, and those in indexes no quotes. -/
theorem names_kept_iff (reserved : Str → Bool) (tables : List TableRow) (columns : List ColumnRow)
    (keyUsage : List KeyUsageRow) (indexes : List StatisticsRow) :
    ∃ s, rowsToSnapshot unicode tables columns keyUsage indexes = .ok s ∧
      s.constraints.map Constraint.constraintDef =
        (constraintDefinitions (oidByTable tables) keyUsage).map storedText ∧
      s.indexes.map IndexEntry.indexDef =
        (indexDefinitions (oidByTable tables) indexes).map storedText ∧
      ((∀ d ∈ constraintDefinitions (oidByTable tables) keyUsage ++
          indexDefinitions (oidByTable tables) indexes, NamesKept reserved d) ↔
        (∀ row ∈ pkRows (oidByTable tables) keyUsage, Quotable row.columnName) ∧
          (∀ r ∈ fkRows (oidByTable tables) keyUsage, r.QuotableNames) ∧
          ∀ row ∈ indexRows (oidByTable tables) indexes, row.BareNames reserved) := by
  obtain ⟨s, hs, hconstraints, hindexes⟩ :=
    definitions_of_rowsToSnapshot unicode tables columns keyUsage indexes
  refine ⟨s, hs, hconstraints, hindexes, ?_⟩
  rw [List.forall_mem_append, namesKept_indexDefinitions, constraintDefinitions,
    List.forall_mem_append, List.forall_mem_map, List.forall_mem_map, and_assoc]
  simp only [namesKept_primaryKeyPieces, namesKept_foreignKeyPieces]
  rw [forall_pkColsByOid]

/-! ## The index of a primary key -/

/-- The table `shop.member`. -/
def memberTables : List TableRow := [⟨"shop".toList, "member".toList, none, none⟩]

/-- `PRIMARY KEY (member_id)` -/
def memberIndexes : List StatisticsRow :=
  [⟨"shop".toList, "member".toList, "PRIMARY".toList, some 0, some 1, some "member_id".toList⟩]

/-- **The index of every primary key is called `PRIMARY`, which is read as `primary`.** -/
theorem primary_not_kept :
    ¬ ∃ reserved : Str → Bool, ∀ (tables : List TableRow) (keyUsage : List KeyUsageRow)
        (indexes : List StatisticsRow),
      ∀ d ∈ constraintDefinitions (oidByTable tables) keyUsage ++
        indexDefinitions (oidByTable tables) indexes, NamesKept reserved d := by
  rintro ⟨reserved, h⟩
  have hkept := (List.forall_mem_append.mp (h memberTables [] memberIndexes)).2
  have hrow := namesKept_indexDefinitions.mp hkept _ (List.mem_filter.mpr
    ⟨List.mem_singleton_self _, by decide⟩)
  exact absurd hrow.1.lower (by decide)

end PgErdCloud.Mysql
