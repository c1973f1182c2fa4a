/-
  What the candidate indexes are worth: when they can be made one after the other without a name
  that is there already (`names_usable_iff`, on any database), and when a foreign key without a
  candidate has an index that leads with its columns.

  Both are about every snapshot of a catalog; that the texts of definitions are read as they were
  written is part of the catalog (`IndexText`).
-/
import PgErdCloud.Spec.IndexDesign
import PgErdCloud.Spec.IndexSoundness
import PgErdCloud.Lib.RegexWords
import PgErdCloud.Lib.ParenList

namespace PgErdCloud.Spec.IndexDesign

open Lib Lib.PyStr Lib.Regex Lib.SqlTokens
open Dbml (Chars asciiChars)
open LexState (quoteIdent truncate maxIdentifierBytes truncate_append truncate_take utf8Length)
open ParenList (readName readName_append)

variable (chars : Chars)

/-! ## Words of names -/

/-- The words of a name: its runs of letters and digits in lower case, `col` where it has none. -/
def nameWords (value : Str) : List Str :=
  let words := wordsBetween '_' (value.flatMap (identifierChar chars))
  if words = [] then ["col".toList] else words

/-- The words of a table and of the columns of a foreign key. -/
def keyWords (table : Str) (columns : List Str) : List Str :=
  nameWords chars table ++ columns.flatMap (nameWords chars)

variable {chars}

theorem nameWords_ne_nil (value : Str) : nameWords chars value ≠ [] := by
  rw [nameWords]
  split_ifs with h
  · exact List.cons_ne_nil _ _
  · exact h

/-- **A part of an index name** is the words of the name. -/
theorem identifierPart_eq (value : Str) :
    identifierPart chars value = join "_".toList (nameWords chars value) := by
  have hcollapse := @collapseRuns_stripChars '_' _ (value.flatMap (identifierChar chars))
    (Nat.le_refl _)
  rw [identifierPart, nameWords, hcollapse]
  have hwords : ∀ word ∈ wordsBetween '_' (value.flatMap (identifierChar chars)), word ≠ [] :=
    fun word hword => of_decide_eq_true (List.mem_filter.mp hword).2
  cases hw : wordsBetween '_' (value.flatMap (identifierChar chars)) with
  | nil => rfl
  | cons word words =>
      rw [hw] at hwords
      have hne : join ['_'] (word :: words) ≠ [] := by
        intro he
        cases words with
        | nil => exact hwords word List.mem_cons_self (by simpa using he)
        | cons next words =>
            rw [join_cons_cons] at he
            exact absurd he (by simp)
      rw [if_neg hne, if_neg (List.cons_ne_nil _ _)]
      rfl

/-- An index name is `idx` and the words of its table and columns, cut at 63 characters. -/
theorem indexName_eq {columns : List Str} (table : Str) (h : columns ≠ []) :
    indexName chars table columns =
      "idx_".toList ++ (join "_".toList (keyWords chars table columns)).take 59 := by
  have hcolumns : columns.flatMap (nameWords chars) ≠ [] := by
    obtain ⟨column, columns, rfl⟩ := List.exists_cons_of_ne_nil h
    rw [List.flatMap_cons]
    exact List.append_ne_nil_of_left_ne_nil (nameWords_ne_nil column) _
  have hparts : columns.map (identifierPart chars) =
      columns.map fun column => join "_".toList (nameWords chars column) :=
    List.map_congr_left fun column _ => identifierPart_eq column
  rw [indexName, keyWords, join_append (nameWords_ne_nil table) hcolumns,
    join_flatMap fun column _ => nameWords_ne_nil column, ← hparts, identifierPart_eq]
  simp only [maxIdentifierLength, List.append_assoc]
  rfl

/-! ## Names of candidates -/

/-- A foreign key has columns. -/
theorem columns_ne_nil {fkEdges : List FkEdge} {group : FkGroup} (h : group ∈ fkGroups fkEdges) :
    group.columns ≠ [] := by
  rw [fkGroups, List.mem_filterMap] at h
  obtain ⟨entry, -, hentry⟩ := h
  simp only at hentry
  split_ifs at hentry with hcolumns
  obtain rfl := Option.some.inj hentry
  exact hcolumns

theorem mem_fkGroups_of_mem_openGroups {snapshot : Snapshot} {g : RelationRow × FkGroup}
    (h : g ∈ openGroups chars snapshot) : g.2 ∈ fkGroups snapshot.fkEdges := by
  rw [openGroups, List.mem_filterMap] at h
  obtain ⟨group, hgroup, hg⟩ := h
  obtain ⟨relation, -, hrelation⟩ := Option.bind_eq_some_iff.mp hg
  split_ifs at hrelation
  obtain rfl := Option.some.inj hrelation
  exact hgroup

/-! ## Running the candidates -/

/-- The schema and the name under which PostgreSQL keeps the index of a `CREATE INDEX`: both are
    read from their quotes and cut to 63 bytes, and an index stands in the schema of its
    table. -/
def createdIndex (ddl : Str) : Option (Str × Str) := do
  let (name, s) ← (dropStart "CREATE INDEX CONCURRENTLY \"".toList ddl).bind (readName false)
  let (schema, _) ← (dropStart " ON \"".toList s).bind (readName false)
  some (truncate maxIdentifierBytes schema, truncate maxIdentifierBytes name)

/-- One statement on a database of relations (tables, views and indexes share their names): it
    fails where the schema has a relation of the name. -/
def createIndex (taken : List (Str × Str)) (ddl : Str) : Option (List (Str × Str)) :=
  (createdIndex ddl).bind fun name => if name ∈ taken then none else some (name :: taken)

/-- A run of statements, one after the other; `none` if one of them fails. -/
def createIndexes (taken : List (Str × Str)) (ddls : List Str) : Option (List (Str × Str)) :=
  ddls.foldlM createIndex taken

/-- **A run of `CREATE INDEX` statements fails nowhere** exactly when they make different names,
    and none that is there before. -/
theorem createIndexes_isSome_iff {α : Type} {ddl : α → Str} {name : α → Str × Str} {gs : List α}
    (hread : ∀ g ∈ gs, createdIndex (ddl g) = some (name g)) (taken : List (Str × Str)) :
    (createIndexes taken (gs.map ddl)).isSome = true ↔
      gs.Pairwise (fun g h => name g ≠ name h) ∧ ∀ g ∈ gs, name g ∉ taken := by
  induction gs generalizing taken with
  | nil => simp [createIndexes]
  | cons g gs ih =>
      have hg := hread g List.mem_cons_self
      have hstep : createIndexes taken ((g :: gs).map ddl) =
          (if name g ∈ taken then none else some (name g :: taken)).bind
            fun taken => createIndexes taken (gs.map ddl) := by
        rw [createIndexes, List.map_cons, List.foldlM_cons, createIndex, hg]
        rfl
      rw [hstep, List.pairwise_cons, List.forall_mem_cons]
      by_cases htaken : name g ∈ taken
      · rw [if_pos htaken]
        simp [htaken]
      · rw [if_neg htaken, Option.bind_some, ih fun h hh => hread h (List.mem_cons_of_mem g hh)]
        have hsplit : (∀ h ∈ gs, name h ∉ name g :: taken) ↔
            (∀ h ∈ gs, name g ≠ name h) ∧ ∀ h ∈ gs, name h ∉ taken := by
          rw [← forall₂_and]
          refine forall₂_congr fun h _ => ?_
          rw [List.mem_cons, not_or, ne_comm]
        rw [hsplit, and_iff_right htaken]
        tauto

/-! ## Names of candidates that PostgreSQL keeps -/

/-- The words of the table and of the columns of a foreign key that gets an index. -/
def wordsOf (chars : Chars) (g : RelationRow × FkGroup) : List Str :=
  keyWords chars (g.1.relationName.getD "unknown".toList) g.2.columns

/-- The schema of the table, and `idx` with the words, as PostgreSQL cuts both to 63 bytes; the
    first four are those of `idx_`. -/
def storedName (chars : Chars) (g : RelationRow × FkGroup) : Str × Str :=
  (truncate maxIdentifierBytes (g.1.schemaName.getD "public".toList),
    "idx_".toList ++ truncate 59 (join "_".toList (wordsOf chars g)))

/-- What PostgreSQL keeps of the name that is written. -/
theorem storedName_eq {g : RelationRow × FkGroup} (h : g.2.columns ≠ []) :
    storedName chars g =
      (truncate maxIdentifierBytes (candidate chars g.1 g.2).schemaName,
        truncate maxIdentifierBytes (candidate chars g.1 g.2).indexName) := by
  have hname : (candidate chars g.1 g.2).indexName =
      "idx_".toList ++ (join "_".toList (wordsOf chars g)).take 59 := indexName_eq _ h
  rw [hname, truncate_append (by decide),
    show maxIdentifierBytes - utf8Length "idx_".toList = 59 by decide, truncate_take le_rfl]
  rfl

/-- The statement of a candidate makes the index under its stored name. -/
theorem createdIndex_candidate {g : RelationRow × FkGroup} (h : g.2.columns ≠ []) :
    createdIndex (candidate chars g.1 g.2).ddl = some (storedName chars g) := by
  have htext : (candidate chars g.1 g.2).ddl = "CREATE INDEX CONCURRENTLY \"".toList ++
      (replaceChar '"' "\"\"".toList (candidate chars g.1 g.2).indexName ++ '"' ::
        (" ON \"".toList ++ (replaceChar '"' "\"\"".toList (candidate chars g.1 g.2).schemaName ++
          '"' :: ('.' :: quoteIdent (candidate chars g.1 g.2).tableName ++
            " USING btree (".toList ++ join ", ".toList (g.2.columns.map quoteIdent) ++
              ");".toList)))) := by
    simp only [candidate, qname, quoteIdent, List.append_assoc, List.cons_append]
    rfl
  rw [storedName_eq h, createdIndex, htext, dropStart_append, Option.bind_some,
    readName_append _ (by simp)]
  simp only [Option.bind_eq_bind, Option.bind_some, dropStart_append]
  rw [readName_append _ (by simp)]
  rfl

/-- **The candidates can be used together**: those of a schema have different names, and the
    `CREATE INDEX` statements run one after the other on the database without a name that is
    there already. It is so exactly when PostgreSQL keeps them under different names, and none
    that a relation of the schema has. -/
theorem names_usable_iff (snapshot : Snapshot) (taken : List (Str × Str)) :
    ((candidateIndexes chars snapshot).Pairwise
        (fun a b => a.schemaName = b.schemaName → a.indexName ≠ b.indexName) ∧
      (createIndexes taken ((candidateIndexes chars snapshot).map Candidate.ddl)).isSome = true) ↔
      (openGroups chars snapshot).Pairwise (fun g h => storedName chars g ≠ storedName chars h) ∧
        ∀ g ∈ openGroups chars snapshot, storedName chars g ∉ taken := by
  have hcreated (g) (hg : g ∈ openGroups chars snapshot) :
      createdIndex (candidate chars g.1 g.2).ddl = some (storedName chars g) :=
    createdIndex_candidate (columns_ne_nil (mem_fkGroups_of_mem_openGroups hg))
  rw [candidateIndexes, List.map_map, List.pairwise_map, ← createIndexes_isSome_iff hcreated]
  refine and_iff_right_of_imp fun hrun => ?_
  refine ((createIndexes_isSome_iff hcreated taken).mp hrun).1.imp_of_mem
    fun {g h} hg hh hne hschema hname => hne ?_
  -- two statements with one schema and one name differ in nothing that is read back
  rw [storedName_eq (columns_ne_nil (mem_fkGroups_of_mem_openGroups hg)),
    storedName_eq (columns_ne_nil (mem_fkGroups_of_mem_openGroups hh)), hschema, hname]

/-- Two foreign keys over one column. -/
def twoKeys : Snapshot where
  relations := [⟨some 1, some "public".toList, some "orders".toList⟩]
  indexes := []
  fkEdges := [⟨some "a".toList, some 1, some "user_id".toList, some 1⟩,
    ⟨some "b".toList, some 1, some "user_id".toList, some 1⟩]

theorem names_not_pairwise_twoKeys :
    ¬ ∀ snapshot : Snapshot, (candidateIndexes asciiChars snapshot).Pairwise
      (fun a b => a.schemaName = b.schemaName → a.indexName ≠ b.indexName) := by
  intro h
  have hnames : (candidateIndexes asciiChars twoKeys).map (fun c => (c.schemaName, c.indexName)) =
      [("public".toList, "idx_orders_user_id".toList),
        ("public".toList, "idx_orders_user_id".toList)] := by decide
  have hpair := h twoKeys
  have hpair : ((candidateIndexes asciiChars twoKeys).map
      fun c => (c.schemaName, c.indexName)).Pairwise fun a b => a.1 = b.1 → a.2 ≠ b.2 := by
    rw [List.pairwise_map]
    exact hpair
  rw [hnames] at hpair
  exact absurd hpair (by simp)

/-! ## Mentioned columns -/

/-- The text stands in another with a border of words on both of its sides. -/
def StandsIn (chars : Chars) (column text : Str) : Prop :=
  ∃ before after, text = before ++ (column ++ after) ∧
    before.getLast?.any chars.isWord ≠ (column ++ after).head?.any chars.isWord ∧
    (before ++ column).getLast?.any chars.isWord ≠ after.head?.any chars.isWord

/-- A column stands in the text, in quotes or as a word, in lower case. -/
def Mentions (chars : Chars) (text column : Str) : Prop :=
  chars.lower (quoteIdent column) <:+: text ∨ StandsIn chars (chars.lower column) text

theorem indexMentionsColumn_iff {text column : Str} :
    indexMentionsColumn chars text column = true ↔ Mentions chars text column := by
  rw [indexMentionsColumn, Bool.or_eq_true, contains, decide_eq_true_eq, Mentions, StandsIn,
    columnWordRe, isSome_search_bordered_iff]

/-- A word stands in a text where no other word character is next to it. -/
theorem standsIn_word_iff {column text : Str} (hne : column ≠ [])
    (hword : ∀ ch ∈ column, chars.isWord ch = true) :
    StandsIn chars column text ↔ ∃ before after, text = before ++ (column ++ after) ∧
      (∀ ch ∈ before.getLast?, chars.isWord ch = false) ∧
      ∀ ch ∈ after.head?, chars.isWord ch = false := by
  obtain ⟨first, rest, hfirst⟩ := List.exists_cons_of_ne_nil hne
  have hnone {o : Option Char} :
      o.any chars.isWord = false ↔ ∀ ch ∈ o, chars.isWord ch = false := by
    cases o <;> simp
  refine exists_congr fun before => exists_congr fun after => and_congr_right fun _ => ?_
  have hhead : (column ++ after).head?.any chars.isWord = true := by
    rw [hfirst] at hword ⊢
    simpa using hword first List.mem_cons_self
  have hlast : (before ++ column).getLast?.any chars.isWord = true := by
    rw [List.getLast?_append_of_ne_nil _ hne, List.getLast?_eq_some_getLast hne, Option.any_some]
    exact hword _ (List.getLast_mem hne)
  rw [hhead, hlast, ← hnone, ← hnone, ne_eq, Bool.not_eq_true, ne_comm, ne_eq, Bool.not_eq_true]

/-! ## Covering indexes -/

/-- An index of the catalog, with its definition where the row has one. -/
structure CatalogIndex where
  relationOid : Option Int
  tableOid : Option Int
  indexName : Option Str
  isUnique : Bool
  isPrimary : Bool
  definition : Option IndexText

namespace CatalogIndex

/-- The row of an index in a snapshot. -/
def row (x : CatalogIndex) : IndexRow where
  relationOid := x.relationOid
  tableOid := x.tableOid
  indexName := x.indexName
  isUnique := x.isUnique
  isPrimary := x.isPrimary
  indexDef := x.definition.map IndexText.text

/-- The first keys of the index are the columns, in some order. -/
def LeadsWith (x : CatalogIndex) (columns : List Str) : Prop :=
  ∃ definition ∈ x.definition,
    ((definition.trueKeys.take columns.length).map TrueKey.target).Perm
      (columns.map KeyTarget.column)

end CatalogIndex

/-- A snapshot whose indexes come with their definitions. -/
structure Catalog where
  relations : List RelationRow
  indexes : List CatalogIndex
  fkEdges : List FkEdge

namespace Catalog

variable (c : Catalog)

/-- What introspection stores of a catalog. -/
def snapshot : Snapshot := ⟨c.relations, c.indexes.map CatalogIndex.row, c.fkEdges⟩

/-- The indexes of a table that are no primary keys. -/
def IsSecondary (x : CatalogIndex) (oid : Int) : Prop :=
  x ∈ c.indexes ∧ x.row.table = some oid ∧ x.isPrimary = false

/-- A foreign key of a known table gets no candidate. -/
def Omitted (chars : Chars) (group : FkGroup) : Prop :=
  (relByOid c.relations (some group.childRelationOid)).isSome = true ∧
    ∀ relation, (relation, group) ∉ openGroups chars c.snapshot

/-- Some index mentions each of the columns behind ` USING `. -/
def MentionedTogether (chars : Chars) (group : FkGroup) : Prop :=
  ∃ x, c.IsSecondary x group.childRelationOid ∧ ∀ column ∈ group.columns,
    Mentions chars (existingIndexColumnText chars x.row) column

theorem hasCoveringIndex_iff {group : FkGroup} (h : group.columns ≠ []) :
    hasCoveringIndex chars (indexesOf c.snapshot.indexes group.childRelationOid) group.columns =
      true ↔ c.MentionedTogether chars group := by
  rw [hasCoveringIndex, List.any_eq_true]
  constructor
  · rintro ⟨row, hrow, hmentions⟩
    obtain ⟨hmem, htable⟩ := List.mem_filter.mp hrow
    obtain ⟨x, hx, rfl⟩ := List.mem_map.mp hmem
    rw [Bool.and_eq_true, Bool.and_eq_true, List.all_eq_true] at hmentions
    obtain ⟨hprimary, -, hall⟩ := hmentions
    exact ⟨x, ⟨hx, of_decide_eq_true htable, by simpa [CatalogIndex.row] using hprimary⟩,
      fun column hcolumn => indexMentionsColumn_iff.mp (hall column hcolumn)⟩
  · rintro ⟨x, ⟨hx, htable, hprimary⟩, hmentions⟩
    refine ⟨x.row, List.mem_filter.mpr ⟨List.mem_map_of_mem hx, decide_eq_true htable⟩, ?_⟩
    rw [Bool.and_eq_true, Bool.and_eq_true, List.all_eq_true]
    refine ⟨?_, decide_eq_true h, fun column hcolumn =>
      indexMentionsColumn_iff.mpr (hmentions column hcolumn)⟩
    have hrow : x.row.isPrimary = x.isPrimary := rfl
    rw [hrow, hprimary]
    rfl

/-- A foreign key is omitted where an index mentions its columns. -/
theorem omitted_iff {group : FkGroup} (h : group ∈ fkGroups c.fkEdges) :
    c.Omitted chars group ↔
      (relByOid c.relations (some group.childRelationOid)).isSome = true ∧
        c.MentionedTogether chars group := by
  refine and_congr_right fun hknown => ?_
  obtain ⟨relation, hrelation⟩ := Option.isSome_iff_exists.mp hknown
  rw [← c.hasCoveringIndex_iff (columns_ne_nil h)]
  constructor
  · intro hopen
    by_contra hcovering
    refine hopen relation (List.mem_filterMap.mpr ⟨group, h, ?_⟩)
    have hlookup : relByOid c.snapshot.relations (some group.childRelationOid) = some relation :=
      hrelation
    rw [hlookup, Option.bind_some, if_neg hcovering]
  · intro hcovering relation' hmem
    obtain ⟨group', -, hgroup'⟩ := List.mem_filterMap.mp hmem
    obtain ⟨relation'', -, hopen⟩ := Option.bind_eq_some_iff.mp hgroup'
    split_ifs at hopen with hnot
    obtain ⟨-, rfl⟩ := Prod.mk.inj (Option.some.inj hopen)
    exact hnot hcovering

/-- **A foreign key is omitted only if an index leads with its columns** exactly when no other
    index of its table has all of them as words of its definition. -/
theorem omitted_leads_iff :
    (∀ group ∈ fkGroups c.fkEdges, c.Omitted chars group →
      ∃ x, c.IsSecondary x group.childRelationOid ∧ x.LeadsWith group.columns) ↔
      ∀ group ∈ fkGroups c.fkEdges,
        (relByOid c.relations (some group.childRelationOid)).isSome = true →
        c.MentionedTogether chars group →
        ∃ x, c.IsSecondary x group.childRelationOid ∧ x.LeadsWith group.columns := by
  refine forall₂_congr fun group hgroup => ?_
  rw [c.omitted_iff hgroup, and_imp]

end Catalog

/-! ## An index on another column first -/

/-- A key that is a column without quotes. -/
def keyPieces (name : String) : List (Token × Str × Str) := [(.name name.toList, [], name.toList)]

/-- `CREATE INDEX i ON orders USING btree` -/
def userIdHeader : List (Token × Str × Str) :=
  [(.keyword "create".toList, [], "CREATE".toList),
    (.keyword "index".toList, [' '], "INDEX".toList), (.name ['i'], [' '], ['i']),
    (.keyword "on".toList, [' '], "ON".toList), (.name "orders".toList, [' '], "orders".toList),
    (.keyword "using".toList, [' '], "USING".toList),
    (.name "btree".toList, [' '], "btree".toList)]

/-- The key on a column. -/
def keyOf (name : String) (h : ∀ p ∈ keyPieces name, p.1.IsText p.2.2) : KeyText where
  key := ⟨.column name.toList, [], [], none, none, none⟩
  text := layout (keyPieces name)
  written := Writes.of_pieces (keyPieces name) h (by simp [keyPieces]) (by simp [keyPieces])

/-- `CREATE INDEX i ON orders USING btree(day,user_id)` -/
def dayFirst : IndexText where
  header := ⟨false, false, false, some ['i'], false, ["orders".toList], some "btree".toList⟩
  headerText := layout userIdHeader
  headerWritten := Writes.of_pieces userIdHeader (by decide) (by decide) (by decide)
  keys := [keyOf "day" (by decide), keyOf "user_id" (by decide)]
  keyed := by simp
  tail := ⟨[], none, none, none, none⟩
  tailText := []
  tailWritten := writes_nil

/-- A foreign key on `user_id`, and an index that begins with another column. -/
def dayFirstCatalog : Catalog where
  relations := [⟨some 1, some "public".toList, some "orders".toList⟩]
  indexes := [⟨some 1, none, some ['i'], false, false, some dayFirst⟩]
  fkEdges := [⟨some "a".toList, some 1, some "user_id".toList, some 1⟩]

/-- The foreign key is omitted, though the index leads with another column. -/
theorem not_omitted_leads_dayFirst :
    ¬ ∀ c : Catalog, ∀ group ∈ fkGroups c.fkEdges, c.Omitted asciiChars group →
      ∃ x, c.IsSecondary x group.childRelationOid ∧ x.LeadsWith group.columns := by
  intro h
  have hgroups : fkGroups dayFirstCatalog.fkEdges = [⟨"a".toList, 1, ["user_id".toList]⟩] := by
    decide
  have hopen : openGroups asciiChars dayFirstCatalog.snapshot = [] := by decide
  obtain ⟨x, ⟨hx, -⟩, definition, hdefinition, hperm⟩ :=
    h dayFirstCatalog _ (hgroups ▸ List.mem_singleton_self _)
      ⟨by decide, fun relation hmem => absurd (hopen ▸ hmem) List.not_mem_nil⟩
  obtain rfl := List.mem_singleton.mp hx
  obtain rfl := Option.some.inj hdefinition
  have hfirst : ((dayFirst.trueKeys.take 1).map TrueKey.target) =
      [KeyTarget.column "day".toList] := by decide
  have hperm : [KeyTarget.column "day".toList].Perm [KeyTarget.column "user_id".toList] :=
    hfirst ▸ hperm
  rw [List.singleton_perm_singleton] at hperm
  exact absurd hperm (by decide)

end PgErdCloud.Spec.IndexDesign
