/-
  What a suggestion drops against what it keeps. The columns of a definition are read without
  the access method, operator classes, collations and sort orders, and names without case; so
  a suggestion is sound where what is not read agrees. `suggestions_sound_iff` says exactly
  when all suggestions are.
-/
import PgErdCloud.Spec.IndexDefinition
import PgErdCloud.Spec.IndexSafety

namespace PgErdCloud.Spec

open Lib Lib.PyStr Lib.SqlTokens Lib.Fallible

/-! ## Sound suggestions -/

/-- An index with a definition. -/
structure DefinedIndex where
  relationOid : Option Int
  tableOid : Option Int
  indexName : Option Str
  isUnique : Bool
  isPrimary : Bool
  definition : IndexText

/-- The row of an index in a snapshot. -/
def DefinedIndex.row (x : DefinedIndex) : IndexRow where
  relationOid := x.relationOid
  tableOid := x.tableOid
  indexName := x.indexName
  isUnique := x.isUnique
  isPrimary := x.isPrimary
  indexDef := some x.definition.text

/-- The kept index serves wherever the dropped one does. -/
structure Sound (drop keep : IndexText) : Prop where
  keys : drop.trueKeys <+: keep.trueKeys
  method : drop.method = keep.method
  total : drop.tail.predicate = none ∧ keep.tail.predicate = none

section
variable (unicode : Unicode)

/-- The item is suggested for two indexes, the first of which comes earlier. -/
structure Suggests (relations : List RelationRow) (indexes : List DefinedIndex) (item : Item)
    (x y : DefinedIndex) : Prop where
  order : [x, y].Sublist indexes
  table : x.row.table = y.row.table
  readable : indexColumns unicode x.row.indexDef ≠ [] ∧ indexColumns unicode y.row.indexDef ≠ []
  item : pairItem (tableLabel relations x.row.table) (newEntry unicode x.row)
    (newEntry unicode y.row) = some item

/-- What the item drops and keeps are the two indexes, and dropping is sound. -/
def SoundFor (item : Item) (x y : DefinedIndex) : Prop :=
  ∃ drop keep, ((drop = x ∧ keep = y) ∨ (drop = y ∧ keep = x)) ∧
    item.index = drop.row.name ∧ item.kept = keep.row.name ∧ Sound drop.definition keep.definition

/-- The columns read of `x` begin those of `y`; and of a unique index all of them. -/
structure ReadsWithin (x y : DefinedIndex) : Prop where
  nonempty : x.definition.reads unicode ≠ []
  columns : x.definition.reads unicode <+: y.definition.reads unicode
  unique : x.row.unique = true → x.definition.reads unicode = y.definition.reads unicode

/-- What is not read of the definitions agrees: the access method, that all rows are indexed,
    and where both have a key its exact name, collation, operator class and order. -/
structure Agree (x y : IndexText) : Prop where
  method : x.method = y.method
  total : x.tail.predicate = none ∧ y.tail.predicate = none
  keys : ∀ (i : Nat) (k k' : TrueKey), x.trueKeys[i]? = some k → y.trueKeys[i]? = some k' → k = k'

/-! ## Counting columns -/

theorem length_split (sep : Char) (s : Str) : (split sep s).length = s.count sep + 1 := by
  unfold split
  induction s with
  | nil => rfl
  | cons c s ih =>
      rw [List.splitOn_cons_eq_if_modifyHead, List.count_cons]
      split_ifs with h
      · rw [List.length_cons, ih]
      · rw [List.length_modifyHead, ih]

theorem length_of_mapM {α β : Type} {f : α → Option β} {xs : List α} {ys : List β}
    (h : xs.mapM f = some ys) : ys.length = xs.length := by
  induction xs generalizing ys with
  | nil =>
      obtain rfl : [] = ys := Option.some.inj h
      rfl
  | cons x xs ih =>
      rw [List.mapM_cons] at h
      obtain ⟨y, -, h⟩ := Option.bind_eq_some_iff.mp h
      obtain ⟨ys', hys, h⟩ := Option.bind_eq_some_iff.mp h
      obtain rfl : y :: ys' = ys := Option.some.inj h
      rw [List.length_cons, List.length_cons, ih hys]

/-- The columns that are read of a key: one, and one more for every comma in its names. -/
def TrueKey.width (key : TrueKey) : Nat :=
  (match key.target with
    | .column name => name.count ','
    | .expression _ _ => 0) +
    (key.collation.map (List.count ',')).sum + (key.opclass.map (List.count ',')).sum + 1

theorem width_pos (key : TrueKey) : 0 < key.width := Nat.succ_pos _

theorem commas_keywords (words : List String) :
    ((keywords words).map Token.commas).sum = 0 := by
  induction words with
  | nil => rfl
  | cons word words ih => exact (Nat.zero_add _).trans ih

theorem commas_dotted (names : List Str) :
    ((dotted names).map Token.commas).sum = (names.map (List.count ',')).sum := by
  induction names with
  | nil => rfl
  | cons name names ih =>
      cases names with
      | nil => simp [dotted, List.intercalate, Token.commas]
      | cons next names =>
          have hcons : dotted (name :: next :: names) =
              .name name :: .symbol '.' :: dotted (next :: names) := by
            simp [dotted, List.intercalate]
          rw [hcons, List.map_cons, List.map_cons, List.sum_cons, List.sum_cons, ih]
          simp [Token.commas]

theorem commas_tokens {key : Key} {name : Str} (htarget : key.target = .column name)
    (hparameters : key.parameters = none) :
    (key.tokens.map Token.commas).sum + 1 = key.trueKey.width := by
  have horder : ((orderTokens key.descending).map Token.commas).sum = 0 := by
    rcases key.descending with _ | _ | _ <;> rfl
  have hnulls : ((nullsTokens key.nullsFirst).map Token.commas).sum = 0 := by
    rcases key.nullsFirst with _ | _ | _ <;> rfl
  have hcollate : ((optional (key.collation ≠ []) ["collate"]).map Token.commas).sum = 0 := by
    unfold optional
    split_ifs
    · exact commas_keywords _
    · rfl
  have hname : (key.target.tokens.map Token.commas).sum = name.count ',' := by
    rw [htarget]
    rfl
  simp only [Key.tokens, Key.headTokens, hparameters, Option.map_none, Option.getD_none,
    List.append_nil, List.map_append, List.sum_append, horder, hnulls, hcollate, hname,
    commas_dotted]
  simp only [TrueKey.width, Key.trueKey, htarget, Nat.add_zero]

/-- **The columns read of a key** are as many as its names make. -/
theorem length_columns {key : KeyText} {cols : List Str} (h : key.columns unicode = some cols) :
    cols.length = key.key.trueKey.width := by
  unfold KeyText.columns at h
  split_ifs at h with hplain
  have hcommas := key.written.count_comma (inert_of_plain hplain)
  cases htarget : key.key.target with
  | expression function rest => exact absurd hplain (by simp [Key.plain, htarget])
  | column name =>
      have hparameters : key.key.parameters = none := by simpa [Key.plain, htarget] using hplain
      rw [length_of_mapM h, length_split, hcommas, commas_tokens htarget hparameters]

theorem length_reads {d : IndexText} (h : d.reads unicode ≠ []) :
    (d.reads unicode).length = (d.trueKeys.map TrueKey.width).sum := by
  unfold IndexText.reads at h ⊢
  split_ifs at h ⊢ with hpartial
  · exact absurd rfl h
  cases hcolumns : d.keys.mapM (KeyText.columns unicode) with
  | none => exact absurd (by rw [hcolumns]; rfl) h
  | some columns =>
      rw [Option.map_some, Option.getD_some, List.length_flatten, IndexText.trueKeys, List.map_map]
      have hlengths : ∀ (keys : List KeyText) (columns : List (List Str)),
          keys.mapM (KeyText.columns unicode) = some columns →
            columns.map List.length = keys.map (TrueKey.width ∘ fun k => k.key.trueKey) := by
        intro keys
        induction keys with
        | nil =>
            intro columns hc
            obtain rfl : [] = columns := Option.some.inj hc
            rfl
        | cons key keys ih =>
            intro columns hc
            rw [List.mapM_cons] at hc
            obtain ⟨cols, hcols, hc⟩ := Option.bind_eq_some_iff.mp hc
            obtain ⟨rest, hrest, hc⟩ := Option.bind_eq_some_iff.mp hc
            obtain rfl : cols :: rest = columns := Option.some.inj hc
            rw [List.map_cons, List.map_cons, ih rest hrest, length_columns unicode hcols]
            rfl
      rw [hlengths _ _ hcolumns]

/-! ## Agreement and prefixes -/

theorem sum_width_lt {keys keys' : List TrueKey} (h : keys <+: keys') (hne : keys ≠ keys') :
    (keys.map TrueKey.width).sum < (keys'.map TrueKey.width).sum := by
  obtain ⟨rest, rfl⟩ := h
  cases rest with
  | nil => exact absurd (List.append_nil keys).symm hne
  | cons key rest =>
      rw [List.map_append, List.sum_append, List.map_cons, List.sum_cons]
      have hpos := width_pos key
      omega

/-- Keys that agree where both lists have one: one list begins the other. -/
theorem prefix_or_prefix {α : Type} {xs ys : List α}
    (h : ∀ (i : Nat) (x y : α), xs[i]? = some x → ys[i]? = some y → x = y) :
    xs <+: ys ∨ ys <+: xs := by
  induction xs generalizing ys with
  | nil => exact .inl List.nil_prefix
  | cons x xs ih =>
      cases ys with
      | nil => exact .inr List.nil_prefix
      | cons y ys =>
          obtain rfl : x = y := h 0 x y rfl rfl
          have hrest := ih fun i a b ha hb => h (i + 1) a b ha hb
          exact hrest.imp (List.prefix_cons_inj x).mpr (List.prefix_cons_inj x).mpr

/-- A longer list of keys has more columns. -/
theorem length_reads_lt {x y : IndexText} (hx : x.reads unicode ≠ []) (hy : y.reads unicode ≠ [])
    (h : x.trueKeys <+: y.trueKeys) (hne : x.trueKeys ≠ y.trueKeys) :
    (x.reads unicode).length < (y.reads unicode).length := by
  rw [length_reads unicode hx, length_reads unicode hy]
  exact sum_width_lt h hne

/-- Between definitions that read alike, dropping is sound where the rest agrees. -/
theorem sound_iff_agree {x y : IndexText} (hx : x.reads unicode ≠ [])
    (h : x.reads unicode <+: y.reads unicode) : Sound x y ↔ Agree x y := by
  have hy : y.reads unicode ≠ [] := fun he => hx (List.prefix_nil.mp (he ▸ h))
  constructor
  · rintro ⟨hkeys, hmethod, htotal⟩
    refine ⟨hmethod, htotal, fun i k k' hk hk' => ?_⟩
    obtain ⟨rest, hrest⟩ := hkeys
    obtain ⟨hlt, -⟩ := List.getElem?_eq_some_iff.mp hk
    rw [← hrest, List.getElem?_append_left hlt, hk] at hk'
    exact Option.some.inj hk'
  · rintro ⟨hmethod, htotal, hkeys⟩
    refine ⟨?_, hmethod, htotal⟩
    rcases prefix_or_prefix hkeys with hpre | hpre
    · exact hpre
    · by_cases heq : y.trueKeys = x.trueKeys
      · exact heq ▸ List.prefix_refl _
      · exact absurd h.length_le (not_le.mpr (length_reads_lt unicode hy hx hpre heq))

/-- Of two definitions that read the same it does not matter which is dropped. -/
theorem Sound.symm_of_reads {x y : IndexText} (hx : x.reads unicode ≠ [])
    (h : x.reads unicode <+: y.reads unicode) (hsound : Sound y x) : Sound x y := by
  have hy : y.reads unicode ≠ [] := fun he => hx (List.prefix_nil.mp (he ▸ h))
  obtain ⟨hkeys, hmethod, htotal⟩ := hsound
  by_cases heq : y.trueKeys = x.trueKeys
  · exact ⟨heq ▸ List.prefix_refl _, hmethod.symm, htotal.symm⟩
  · exact absurd h.length_le (not_le.mpr (length_reads_lt unicode hy hx hkeys heq))

/-! ## Exactly when -/

theorem pairItem_isSome {table : Str} {a b : Entry}
    (h : a.cols = b.cols ∨ (a.cols <+: b.cols ∧ a.unique = false) ∨
      (b.cols <+: a.cols ∧ b.unique = false)) : ∃ item, pairItem table a b = some item := by
  unfold pairItem
  split_ifs with heq hab hua hba hub
  · exact ⟨_, rfl⟩
  · -- the shorter index is unique
    rcases h with h | ⟨-, h⟩ | ⟨h, -⟩
    · exact absurd h heq
    · exact absurd (hua.symm.trans h) (by simp)
    · exact absurd ((List.isPrefixOf_iff_prefix.mp hab).eq_of_length_le h.length_le) heq
  · exact ⟨_, rfl⟩
  · rcases h with h | ⟨h, -⟩ | ⟨-, h⟩
    · exact absurd h heq
    · exact absurd (List.isPrefixOf_iff_prefix.mpr h) hab
    · exact absurd (hub.symm.trans h) (by simp)
  · exact ⟨_, rfl⟩
  · rcases h with h | ⟨h, -⟩ | ⟨h, -⟩
    · exact absurd h heq
    · exact absurd (List.isPrefixOf_iff_prefix.mpr h) hab
    · exact absurd (List.isPrefixOf_iff_prefix.mpr h) hba

theorem cols_newEntry (x : DefinedIndex) :
    (newEntry unicode x.row).cols = x.definition.reads unicode :=
  indexColumns_text unicode x.definition

theorem mem_items_iff_suggests {relations : List RelationRow} {indexes : List DefinedIndex}
    {item : Item} :
    item ∈ (detectIndexRedundancy unicode ⟨relations, indexes.map DefinedIndex.row⟩).items ↔
      ∃ x y, Suggests unicode relations indexes item x y := by
  rw [mem_items_iff_itemOf]
  constructor
  · rintro ⟨r, r', horder, htable, hreadable, hitem⟩
    obtain ⟨rows, hrows, hrr⟩ := List.sublist_map_iff.mp horder
    obtain ⟨x, rest, rfl, rfl, hrest⟩ := List.map_eq_cons_iff.mp hrr.symm
    obtain ⟨y, none', rfl, rfl, hnil⟩ := List.map_eq_cons_iff.mp hrest
    obtain rfl := List.map_eq_nil_iff.mp hnil
    exact ⟨x, y, hrows, htable, hreadable, hitem⟩
  · rintro ⟨x, y, horder, htable, hreadable, hitem⟩
    exact ⟨x.row, y.row, horder.map DefinedIndex.row, htable, hreadable, hitem⟩

/-- **When every suggestion is sound:** when any two indexes of a table, of which one reads like
    the beginning of the other, agree in what is not read. -/
theorem suggestions_sound_iff (relations : List RelationRow) (indexes : List DefinedIndex) :
    (∀ item, item ∈
        (detectIndexRedundancy unicode ⟨relations, indexes.map DefinedIndex.row⟩).items ↔
      ∃ x y, Suggests unicode relations indexes item x y) ∧
    ((∀ item x y, Suggests unicode relations indexes item x y → SoundFor item x y) ↔
      ∀ x y, [x, y].Sublist indexes ∨ [y, x].Sublist indexes → x.row.table = y.row.table →
        ReadsWithin unicode x y → Agree x.definition y.definition) := by
  refine ⟨fun item => mem_items_iff_suggests unicode, ?_, ?_⟩
  · intro h x y horder htable hwithin
    have hnonempty := hwithin.nonempty
    have hy : y.definition.reads unicode ≠ [] :=
      fun he => hnonempty (List.prefix_nil.mp (he ▸ hwithin.columns))
    have hpair : ∀ a b : DefinedIndex, [a, b].Sublist indexes → a.row.table = b.row.table →
        a.definition.reads unicode ≠ [] → b.definition.reads unicode ≠ [] →
        (∃ item, pairItem (tableLabel relations a.row.table) (newEntry unicode a.row)
          (newEntry unicode b.row) = some item) →
        Sound a.definition b.definition ∨ Sound b.definition a.definition := by
      rintro a b hsub hab ha hb ⟨item, hitem⟩
      have hread : ∀ c : DefinedIndex, c.definition.reads unicode ≠ [] →
          indexColumns unicode c.row.indexDef ≠ [] :=
        fun c hc he => hc ((indexColumns_text unicode c.definition).symm.trans he)
      obtain ⟨drop, keep, (⟨rfl, rfl⟩ | ⟨rfl, rfl⟩), -, -, hsound⟩ :=
        h item a b ⟨hsub, hab, ⟨hread a ha, hread b hb⟩, hitem⟩
      · exact .inl hsound
      · exact .inr hsound
    have hcases : x.definition.reads unicode = y.definition.reads unicode ∨
        x.row.unique = false := by
      cases hunique : x.row.unique with
      | true => exact .inl (hwithin.unique hunique)
      | false => exact .inr rfl
    have hsound : Sound x.definition y.definition ∨ Sound y.definition x.definition := by
      have hx := cols_newEntry unicode x
      have hy' := cols_newEntry unicode y
      rcases horder with horder | horder
      · refine hpair x y horder htable hnonempty hy (pairItem_isSome ?_)
        rw [hx, hy']
        exact hcases.imp id fun hu => .inl ⟨hwithin.columns, hu⟩
      · refine (hpair y x horder htable.symm hy hnonempty (pairItem_isSome ?_)).symm
        rw [hx, hy']
        exact hcases.imp Eq.symm fun hu => .inr ⟨hwithin.columns, hu⟩
    refine (sound_iff_agree unicode hnonempty hwithin.columns).mp ?_
    exact hsound.elim id (Sound.symm_of_reads unicode hnonempty hwithin.columns)
  · intro h item x y hsuggests
    have hwithin : ∀ drop keep : DefinedIndex, indexColumns unicode drop.row.indexDef ≠ [] →
        GivesWay (newEntry unicode drop.row) (newEntry unicode keep.row) →
          ReadsWithin unicode drop keep := by
      rintro drop keep hdrop ⟨hcolumns, hunique⟩
      rw [cols_newEntry, cols_newEntry] at hcolumns hunique
      exact ⟨indexColumns_text unicode drop.definition ▸ hdrop, hcolumns, fun hu => (hunique hu).1⟩
    have hsound : ∀ drop keep : DefinedIndex, ReadsWithin unicode drop keep →
        Agree drop.definition keep.definition → Sound drop.definition keep.definition :=
      fun drop keep hw => (sound_iff_agree unicode hw.nonempty hw.columns).mpr
    obtain ⟨hx, hy⟩ := hsuggests.readable
    rcases pairItem_spec hsuggests.item with ⟨hindex, hkept, hgives, -⟩ | ⟨hindex, hkept, hgives, -⟩
    · have hw := hwithin y x hy hgives
      exact ⟨y, x, .inr ⟨rfl, rfl⟩, hindex, hkept,
        hsound y x hw (h y x (.inr hsuggests.order) hsuggests.table.symm hw)⟩
    · have hw := hwithin x y hx hgives
      exact ⟨x, y, .inl ⟨rfl, rfl⟩, hindex, hkept,
        hsound x y hw (h x y (.inl hsuggests.order) hsuggests.table hw)⟩

end

/-! ## A gin index and a btree index -/

/-- `CREATE INDEX … ON t USING …` -/
def tagsHeader (name method : String) : List (Token × Str × Str) :=
  [(.keyword "create".toList, [], "CREATE".toList),
    (.keyword "index".toList, [' '], "INDEX".toList), (.name name.toList, [' '], name.toList),
    (.keyword "on".toList, [' '], "ON".toList), (.name ['t'], [' '], ['t']),
    (.keyword "using".toList, [' '], "USING".toList),
    (.name method.toList, [' '], method.toList)]

/-- A key that is the column `tags`. -/
def tagsColumn : List (Token × Str × Str) := [(.name "tags".toList, [], "tags".toList)]

/-- The key on `tags`. -/
def tagsKey : KeyText where
  key := ⟨.column "tags".toList, [], [], none, none, none⟩
  text := layout tagsColumn
  written := Writes.of_pieces tagsColumn (by decide) (by decide) (by decide)

/-- An index on a column of arrays. -/
def tagsIndex (name method : String)
    (htexts : ∀ p ∈ tagsHeader name method, p.1.IsText p.2.2) : DefinedIndex where
  relationOid := some 1
  tableOid := none
  indexName := some name.toList
  isUnique := false
  isPrimary := false
  definition := {
    header := ⟨false, false, false, some name.toList, false, [['t']], some method.toList⟩
    headerText := layout (tagsHeader name method)
    headerWritten := Writes.of_pieces (tagsHeader name method) htexts (by simp [tagsHeader])
      (by simp [tagsHeader, isBlank])
    keys := [tagsKey]
    keyed := by simp
    tail := ⟨[], none, none, none, none⟩
    tailText := []
    tailWritten := writes_nil }

/-- A GIN index on `tags`. -/
def ginIndex : DefinedIndex := tagsIndex "a" "gin" (by decide)

/-- A B-tree on `tags`. -/
def btreeIndex : DefinedIndex := tagsIndex "b" "btree" (by decide)

/-- **An index is dropped for one of another access method.** -/
theorem gin_not_sound :
    ¬ ∀ (relations : List RelationRow) (indexes : List DefinedIndex) (item : Item)
        (x y : DefinedIndex),
      Suggests asciiUnicode relations indexes item x y → SoundFor item x y := by
  intro h
  have hgin : indexColumns asciiUnicode ginIndex.row.indexDef = ["tags".toList] := by decide
  have hbtree : indexColumns asciiUnicode btreeIndex.row.indexDef = ["tags".toList] := by decide
  obtain ⟨item, hitem⟩ : ∃ item, pairItem (tableLabel [] ginIndex.row.table)
      (newEntry asciiUnicode ginIndex.row) (newEntry asciiUnicode btreeIndex.row) = some item :=
    pairItem_isSome (.inl (hgin.trans hbtree.symm))
  have hsuggests : Suggests asciiUnicode [] [ginIndex, btreeIndex] item ginIndex btreeIndex :=
    ⟨List.Sublist.refl _, rfl, ⟨by simp [hgin], by simp [hbtree]⟩, hitem⟩
  have hmethod : ginIndex.definition.method ≠ btreeIndex.definition.method := by decide
  obtain ⟨drop, keep, (⟨rfl, rfl⟩ | ⟨rfl, rfl⟩), -, -, hsound⟩ := h _ _ _ _ _ hsuggests
  · exact hmethod hsound.method
  · exact hmethod hsound.method.symm

end PgErdCloud.Spec
