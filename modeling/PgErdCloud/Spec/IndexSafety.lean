/-
  Dropping every suggested index at once. What a suggestion keeps is longer than what it drops,
  or on the same columns and unique where the other is not, or else it comes earlier. So chains
  of suggestions end, and they end at an index that is kept.

  `suggestions_jointly_safe` is about every snapshot with one index of a name on each table, and
  `unique_kept_iff` about every snapshot: a unique index is never dropped exactly when no two are
  on the same columns.
-/
import PgErdCloud.Spec.IndexRedundancy

namespace PgErdCloud.Spec

open Lib Lib.PyStr

/-! ## Replacement along a well-founded order -/

/-- What is dropped has a replacement that is not, where each step of a replacement goes down
    in a well-founded order. -/
theorem exists_replacement {α : Type} {below covers : α → α → Prop} {dropped : α → Prop}
    (hwf : WellFounded below) (hrefl : ∀ x, covers x x)
    (htrans : ∀ x y z, covers x y → covers y z → covers x z)
    (hstep : ∀ x, dropped x → ∃ y, below y x ∧ covers x y) (x : α) :
    ∃ y, ¬ dropped y ∧ covers x y := by
  induction x using hwf.induction with
  | _ x ih =>
      by_cases hx : dropped x
      · obtain ⟨y, hbelow, hcovers⟩ := hstep x hx
        obtain ⟨z, hz, hcovers'⟩ := ih y hbelow
        exact ⟨z, hz, htrans x y z hcovers hcovers'⟩
      · exact ⟨x, hx, hrefl x⟩

/-! ## Pairs -/

/-- The items of a table are those of its pairs. -/
theorem mem_tableItems {table : Str} {entries : List Entry} {item : Item} :
    item ∈ tableItems table entries ↔
      ∃ a b, [a, b].Sublist entries ∧ pairItem table a b = some item := by
  induction entries with
  | nil => simp [tableItems]
  | cons e rest ih =>
      rw [tableItems, List.mem_append, List.mem_filterMap, ih]
      constructor
      · rintro (⟨b, hb, hitem⟩ | ⟨a, b, hsub, hitem⟩)
        · exact ⟨e, b, (List.singleton_sublist.mpr hb).cons_cons e, hitem⟩
        · exact ⟨a, b, hsub.cons e, hitem⟩
      · rintro ⟨a, b, hsub, hitem⟩
        rcases List.sublist_cons_iff.mp hsub with hsub | ⟨tail, htail, hsub⟩
        · exact .inr ⟨a, b, hsub, hitem⟩
        · obtain ⟨rfl, rfl⟩ := List.cons.inj htail
          exact .inl ⟨b, List.singleton_sublist.mp hsub, hitem⟩

/-- An index gives way to another on the same columns, or to a longer one. -/
structure GivesWay (drop keep : Entry) : Prop where
  columns : drop.cols <+: keep.cols
  unique : drop.unique = true → drop.cols = keep.cols ∧ keep.unique = true

/-- **What an item of a pair drops and keeps:** between equal columns and uniqueness the later
    index is dropped. -/
theorem pairItem_spec {table : Str} {a b : Entry} {item : Item}
    (h : pairItem table a b = some item) :
    (item.index = b.name ∧ item.kept = a.name ∧ GivesWay b a ∧ b.cols.length ≤ a.cols.length) ∨
      (item.index = a.name ∧ item.kept = b.name ∧ GivesWay a b ∧
        (a.cols.length < b.cols.length ∨
          a.cols = b.cols ∧ a.unique = false ∧ b.unique = true)) := by
  unfold pairItem at h
  split_ifs at h with heq hab hua hba hub
  · obtain rfl := Option.some.inj h
    by_cases hkeep : b.unique = true ∧ a.unique = false
    · obtain ⟨hb, ha⟩ := hkeep
      refine .inr ⟨by simp [duplicateItem, ha, hb], ?_, ⟨heq ▸ List.prefix_refl _, ?_⟩,
        .inr ⟨heq, ha, hb⟩⟩
      · by_cases hname : a.name = b.name <;> simp [duplicateItem, ha, hb, hname]
      · exact fun hu => absurd hu (by simp [ha])
    · have hdrop : (duplicateItem table a b).index = b.name := by
        unfold duplicateItem
        cases ha : a.unique <;> cases hb : b.unique <;> simp_all
      refine .inl ⟨hdrop, ?_, ⟨heq ▸ List.prefix_refl _, fun hu => ⟨heq.symm, ?_⟩⟩, heq ▸ le_rfl⟩
      · show (if (duplicateItem table a b).index = b.name then a.name else b.name) = a.name
        rw [if_pos hdrop]
      · by_contra hne
        exact hkeep ⟨hu, by simpa using hne⟩
  · obtain rfl := Option.some.inj h
    have hpre := List.isPrefixOf_iff_prefix.mp hab
    refine .inr ⟨rfl, rfl, ⟨hpre, fun hu => absurd hu hua⟩, .inl ?_⟩
    exact lt_of_le_of_ne hpre.length_le fun he => heq (hpre.eq_of_length he)
  · obtain rfl := Option.some.inj h
    have hpre := List.isPrefixOf_iff_prefix.mp hba
    exact .inl ⟨rfl, rfl, ⟨hpre, fun hu => absurd hu hub⟩, hpre.length_le⟩

theorem pairItem_of_cols_eq (table : Str) {a b : Entry} (h : a.cols = b.cols) :
    pairItem table a b = some (duplicateItem table a b) := if_pos h

theorem GivesWay.refl (e : Entry) : GivesWay e e := ⟨List.prefix_refl _, fun hu => ⟨rfl, hu⟩⟩

theorem GivesWay.trans {a b c : Entry} (hab : GivesWay a b) (hbc : GivesWay b c) :
    GivesWay a c := by
  refine ⟨hab.columns.trans hbc.columns, fun hu => ?_⟩
  obtain ⟨hcols, hb⟩ := hab.unique hu
  obtain ⟨hcols', hc⟩ := hbc.unique hb
  exact ⟨hcols.trans hcols', hc⟩

/-! ## The order of replacements -/

theorem idxOf_lt_idxOf {α : Type} [DecidableEq α] {xs : List α} (hnodup : xs.Nodup) {a b : α}
    (h : [a, b].Sublist xs) : xs.idxOf a < xs.idxOf b := by
  induction xs with
  | nil => exact absurd h (by simp)
  | cons x xs ih =>
      obtain ⟨hx, hnodup⟩ := List.nodup_cons.mp hnodup
      rcases List.sublist_cons_iff.mp h with hsub | ⟨tail, htail, hsub⟩
      · have ha : x ≠ a := fun he => hx (he ▸ hsub.subset List.mem_cons_self)
        have hb : x ≠ b := fun he => hx (he ▸ hsub.subset (by simp))
        rw [List.idxOf_cons_ne _ ha, List.idxOf_cons_ne _ hb]
        exact Nat.succ_lt_succ (ih hnodup hsub)
      · obtain ⟨rfl, rfl⟩ := List.cons.inj htail
        have hb : a ≠ b := fun he => hx (he ▸ List.singleton_sublist.mp hsub)
        rw [List.idxOf_cons_self, List.idxOf_cons_ne _ hb]
        exact Nat.succ_pos _

/-- Longer before shorter, unique before not, earlier before later. -/
def rank (bound : Nat) (entries : List Entry) (e : Entry) : Nat ×ₗ Nat ×ₗ Nat :=
  toLex (bound - e.cols.length, toLex (if e.unique then 0 else 1, entries.idxOf e))

theorem rank_lt_of_givesWay {bound : Nat} {entries : List Entry} {drop keep : Entry}
    (h : GivesWay drop keep) (hbound : keep.cols.length ≤ bound)
    (horder : drop.cols = keep.cols → drop.unique = keep.unique →
      entries.idxOf keep < entries.idxOf drop) :
    rank bound entries keep < rank bound entries drop := by
  have hlength := h.columns.length_le
  rw [rank, rank, Prod.Lex.toLex_lt_toLex]
  by_cases heq : drop.cols.length = keep.cols.length
  · have hcols := h.columns.eq_of_length heq
    refine .inr ⟨congrArg (bound - ·) heq.symm, ?_⟩
    rw [Prod.Lex.toLex_lt_toLex]
    cases hd : drop.unique with
    | true =>
        have hk := (h.unique hd).2
        exact .inr ⟨by simp [hk], horder hcols (hd.trans hk.symm)⟩
    | false =>
        cases hk : keep.unique with
        | true => exact .inl (by simp)
        | false => exact .inr ⟨by simp, horder hcols (hd.trans hk.symm)⟩
  · exact .inl (show bound - keep.cols.length < bound - drop.cols.length by omega)

/-- On a table whose indexes have names of their own, everything that is dropped gives way to an
    index that is kept. -/
theorem exists_survivor {table : Str} {entries : List Entry}
    (hnames : (entries.map Entry.name).Nodup) {e : Entry} (he : e ∈ entries) :
    ∃ keep ∈ entries, (¬ ∃ item ∈ tableItems table entries, item.index = keep.name) ∧
      GivesWay e keep := by
  have hname : ∀ a ∈ entries, ∀ b ∈ entries, a.name = b.name → a = b :=
    fun a ha b hb => List.inj_on_of_nodup_map hnames ha hb
  have hnodup : entries.Nodup := List.Nodup.of_map _ hnames
  let bound := (entries.map fun e => e.cols.length).sum
  have hbound : ∀ a ∈ entries, a.cols.length ≤ bound :=
    fun a ha => List.single_le_sum (fun _ _ => Nat.zero_le _) _
      (List.mem_map_of_mem (f := fun e : Entry => e.cols.length) ha)
  let below : { e // e ∈ entries } → { e // e ∈ entries } → Prop :=
    InvImage (· < ·) fun a => rank bound entries a.1
  have hstep : ∀ x : { e // e ∈ entries },
      (∃ item ∈ tableItems table entries, item.index = x.1.name) →
        ∃ y, below y x ∧ GivesWay x.1 y.1 := by
    rintro ⟨drop, hdrop⟩ ⟨item, hitem, hindex⟩
    obtain ⟨a, b, hsub, hpair⟩ := mem_tableItems.mp hitem
    have ha : a ∈ entries := hsub.subset List.mem_cons_self
    have hb : b ∈ entries := hsub.subset (by simp)
    have hidx := idxOf_lt_idxOf hnodup hsub
    rcases pairItem_spec hpair with ⟨hi, -, hgives, hlength⟩ | ⟨hi, -, hgives, hcase⟩
    · obtain rfl : drop = b := hname drop hdrop b hb (hindex.symm.trans hi)
      exact ⟨⟨a, ha⟩, rank_lt_of_givesWay hgives (hbound a ha) fun _ _ => hidx, hgives⟩
    · obtain rfl : drop = a := hname drop hdrop a ha (hindex.symm.trans hi)
      refine ⟨⟨b, hb⟩, rank_lt_of_givesWay hgives (hbound b hb) fun hcols hunique => ?_, hgives⟩
      -- an earlier index is dropped for a longer or a unique one only
      rcases hcase with hlt | ⟨-, hd, hk⟩
      · exact absurd (congrArg List.length hcols) hlt.ne
      · exact absurd (hd.symm.trans (hunique.trans hk)) (by simp)
  have hwf : WellFounded below := InvImage.wf _ wellFounded_lt
  have hrefl : ∀ x : { e // e ∈ entries }, GivesWay x.1 x.1 := fun x => GivesWay.refl x.1
  have htrans : ∀ x y z : { e // e ∈ entries }, GivesWay x.1 y.1 → GivesWay y.1 z.1 →
      GivesWay x.1 z.1 := fun _ _ _ => GivesWay.trans
  obtain ⟨keep, hkeep, hgives⟩ := exists_replacement hwf hrefl htrans hstep ⟨e, he⟩
  exact ⟨keep.1, keep.2, hkeep, hgives⟩

/-! ## The report -/

section
variable (unicode : Unicode)

theorem mem_items_detectIndexRedundancy {snapshot : IndexSnapshot} {item : Item} :
    item ∈ (detectIndexRedundancy unicode snapshot).items ↔
      ∃ e ∈ (byTable unicode snapshot.indexes).items,
        item ∈ tableItems (tableLabel snapshot.relations e.1) e.2 := by
  rw [← List.mem_flatMap]
  exact (List.perm_insertionSort _ _).mem_iff

/-- The item is about two comparable indexes of a table, the first of which comes earlier. -/
structure ItemOf (snapshot : IndexSnapshot) (item : Item) (x y : IndexRow) : Prop where
  order : [x, y].Sublist snapshot.indexes
  table : x.table = y.table
  readable : indexColumns unicode x.indexDef ≠ [] ∧ indexColumns unicode y.indexDef ≠ []
  item : pairItem (tableLabel snapshot.relations x.table) (newEntry unicode x)
    (newEntry unicode y) = some item

/-- The report suggests dropping the index: an item about its table names it. -/
def Suggested (snapshot : IndexSnapshot) (row : IndexRow) : Prop :=
  ∃ e ∈ (byTable unicode snapshot.indexes).items, e.1 = row.table ∧
    ∃ item ∈ tableItems (tableLabel snapshot.relations e.1) e.2, item.index = row.name

theorem mem_byTable {indexes : List IndexRow} {e : Option Int × List Entry} :
    e ∈ (byTable unicode indexes).items ↔
      indexes.filter (comparableOn unicode · = some e.1) ≠ [] ∧
        e.2 = (indexes.filter (comparableOn unicode · = some e.1)).map (newEntry unicode) :=
  Dict.mem_foldl_groupAt

theorem comparableOn_eq_some_iff {row : IndexRow} {oid : Option Int} :
    comparableOn unicode row = some oid ↔
      indexColumns unicode row.indexDef ≠ [] ∧ row.table = oid := by
  unfold comparableOn
  split_ifs with h
  · simp [h]
  · simp [h]

/-- **The items of the report** are those of the pairs. -/
theorem mem_items_iff_itemOf {snapshot : IndexSnapshot} {item : Item} :
    item ∈ (detectIndexRedundancy unicode snapshot).items ↔
      ∃ x y, ItemOf unicode snapshot item x y := by
  rw [mem_items_detectIndexRedundancy]
  constructor
  · rintro ⟨⟨oid, entries⟩, he, hitem⟩
    obtain ⟨a, b, hsub, hpair⟩ := mem_tableItems.mp hitem
    obtain ⟨-, hentries⟩ := (mem_byTable unicode).mp he
    dsimp only at hentries hsub hpair
    rw [hentries] at hsub
    obtain ⟨rows, hrows, hab⟩ := List.sublist_map_iff.mp hsub
    obtain ⟨x, rest, rfl, rfl, hrest⟩ := List.map_eq_cons_iff.mp hab.symm
    obtain ⟨y, none', rfl, rfl, hnil⟩ := List.map_eq_cons_iff.mp hrest
    obtain rfl := List.map_eq_nil_iff.mp hnil
    have hon : ∀ z ∈ [x, y], indexColumns unicode z.indexDef ≠ [] ∧ z.table = oid := fun z hz =>
      (comparableOn_eq_some_iff unicode).mp
        (of_decide_eq_true (List.mem_filter.mp (hrows.subset hz)).2)
    obtain ⟨hx, htable⟩ := hon x List.mem_cons_self
    obtain ⟨hy, htable'⟩ := hon y (List.mem_cons_of_mem x List.mem_cons_self)
    subst htable
    exact ⟨x, y, hrows.trans List.filter_sublist, htable'.symm, ⟨hx, hy⟩, hpair⟩
  · rintro ⟨x, y, horder, htable, ⟨hx, hy⟩, hpair⟩
    have hon : ∀ z ∈ [x, y], decide (comparableOn unicode z = some x.table) = true := by
      intro z hz
      rw [decide_eq_true_iff, comparableOn_eq_some_iff]
      rcases List.mem_cons.mp hz with rfl | hz
      · exact ⟨hx, rfl⟩
      · obtain rfl := List.mem_singleton.mp hz
        exact ⟨hy, htable.symm⟩
    have hsub : [x, y].Sublist (snapshot.indexes.filter
        (comparableOn unicode · = some x.table)) :=
      List.sublist_filter_iff.mpr ⟨[x, y], horder, (List.filter_eq_self.mpr hon).symm⟩
    refine ⟨(x.table, (snapshot.indexes.filter (comparableOn unicode · = some x.table)).map
      (newEntry unicode)), (mem_byTable unicode).mpr ⟨?_, rfl⟩, ?_⟩
    · exact List.ne_nil_of_mem (hsub.subset List.mem_cons_self)
    · exact mem_tableItems.mpr ⟨_, _, hsub.map (newEntry unicode), hpair⟩

/-- **Dropping all suggested indexes at once is safe:** for each one an index of its table is
    kept whose columns begin with its own, and a unique one on the same columns if it is
    unique. -/
theorem suggestions_jointly_safe (snapshot : IndexSnapshot)
    (hnames : ∀ oid, ((snapshot.indexes.filter (·.table = oid)).map IndexRow.name).Nodup) :
    (∀ item, item ∈ (detectIndexRedundancy unicode snapshot).items ↔
      ∃ e ∈ (byTable unicode snapshot.indexes).items,
        item ∈ tableItems (tableLabel snapshot.relations e.1) e.2) ∧
    ∀ row ∈ snapshot.indexes, Suggested unicode snapshot row →
      ∃ keep ∈ snapshot.indexes, keep.table = row.table ∧ ¬ Suggested unicode snapshot keep ∧
        indexColumns unicode row.indexDef <+: indexColumns unicode keep.indexDef ∧
        (row.unique = true → keep.unique = true ∧
          indexColumns unicode keep.indexDef = indexColumns unicode row.indexDef) := by
  refine ⟨fun item => mem_items_detectIndexRedundancy unicode, ?_⟩
  rintro row hrow ⟨⟨oid, entries⟩, he, rfl, item, hitem, hindex⟩
  have hentries := ((mem_byTable unicode).mp he).2
  dsimp only at hentries hitem
  -- names tell the indexes of the table apart, those that are not comparable included
  have hsame : ∀ a ∈ snapshot.indexes, a.table = row.table → ∀ b ∈ snapshot.indexes,
      b.table = row.table → a.name = b.name → a = b := by
    intro a ha hat b hb hbt
    exact List.inj_on_of_nodup_map (hnames row.table)
      (List.mem_filter.mpr ⟨ha, decide_eq_true hat⟩) (List.mem_filter.mpr ⟨hb, decide_eq_true hbt⟩)
  have hmem : ∀ a, a ∈ entries ↔ ∃ r ∈ snapshot.indexes,
      comparableOn unicode r = some row.table ∧ newEntry unicode r = a := by
    intro a
    rw [hentries, List.mem_map]
    simp only [List.mem_filter, decide_eq_true_eq, and_assoc]
  have hnodup : (entries.map Entry.name).Nodup := by
    rw [hentries, List.map_map]
    refine (hnames row.table).sublist (List.Sublist.map IndexRow.name ?_)
    refine List.monotone_filter_right _ fun r hr => ?_
    have hr' := ((comparableOn_eq_some_iff unicode).mp (of_decide_eq_true hr)).2
    exact decide_eq_true hr'
  -- the item is about the row's own entry
  obtain ⟨a, ha, hname⟩ : ∃ a ∈ entries, item.index = a.name := by
    obtain ⟨a, b, hsub, hpair⟩ := mem_tableItems.mp hitem
    rcases pairItem_spec hpair with ⟨hi, -⟩ | ⟨hi, -⟩
    · exact ⟨b, hsub.subset (by simp), hi⟩
    · exact ⟨a, hsub.subset List.mem_cons_self, hi⟩
  obtain ⟨r, hr, hcomparable, rfl⟩ := (hmem a).mp ha
  have hrt := ((comparableOn_eq_some_iff unicode).mp hcomparable).2
  obtain rfl : r = row := hsame r hr hrt row hrow rfl (hname.symm.trans hindex)
  obtain ⟨b, hb, hkept, hgives⟩ : ∃ keep ∈ entries, (¬ ∃ item ∈ tableItems
      (tableLabel snapshot.relations r.table) entries, item.index = keep.name) ∧
        GivesWay (newEntry unicode r) keep := exists_survivor hnodup ha
  obtain ⟨keep, hkeep, hkeepOn, rfl⟩ := (hmem b).mp hb
  have hkt := ((comparableOn_eq_some_iff unicode).mp hkeepOn).2
  refine ⟨keep, hkeep, hkt, ?_, hgives.columns, fun hu => ?_⟩
  · rintro ⟨⟨oid', entries'⟩, he', heq, item', hitem', hindex'⟩
    obtain rfl : oid' = r.table := heq.trans hkt
    have hentries' : entries' = entries :=
      ((mem_byTable unicode).mp he').2.trans ((mem_byTable unicode).mp he).2.symm
    exact hkept ⟨item', hentries' ▸ hitem', hindex'⟩
  · obtain ⟨hcols, hunique⟩ := hgives.unique hu
    exact ⟨hunique, hcols.symm⟩

/-! ## Unique indexes -/

/-- The item of a pair drops one of its indexes, which is not unique. -/
def DropsPlain (item : Item) (x y : IndexRow) : Prop :=
  ∃ drop keep, ((drop = x ∧ keep = y) ∨ (drop = y ∧ keep = x)) ∧
    item.index = drop.name ∧ item.kept = keep.name ∧ drop.unique = false

/-- **When no unique index is dropped:** when no two of them are on the same columns. -/
theorem unique_kept_iff (snapshot : IndexSnapshot) :
    (∀ item, item ∈ (detectIndexRedundancy unicode snapshot).items ↔
      ∃ x y, ItemOf unicode snapshot item x y) ∧
    ((∀ item x y, ItemOf unicode snapshot item x y → DropsPlain item x y) ↔
      ∀ x y, [x, y].Sublist snapshot.indexes → x.table = y.table → x.unique = true →
        y.unique = true → indexColumns unicode x.indexDef ≠ [] →
        indexColumns unicode x.indexDef ≠ indexColumns unicode y.indexDef) := by
  refine ⟨fun item => mem_items_iff_itemOf unicode, ?_, ?_⟩
  · intro h x y horder htable hx hy hne heq
    have hpair := pairItem_of_cols_eq (tableLabel snapshot.relations x.table)
      (show (newEntry unicode x).cols = (newEntry unicode y).cols from heq)
    obtain ⟨drop, keep, (⟨rfl, rfl⟩ | ⟨rfl, rfl⟩), -, -, hdrop⟩ :=
      h _ x y ⟨horder, htable, ⟨hne, heq ▸ hne⟩, hpair⟩
    · exact absurd (hx.symm.trans hdrop) (by decide)
    · exact absurd (hy.symm.trans hdrop) (by decide)
  · intro h item x y hitem
    have hplain : ∀ {drop keep : IndexRow}, GivesWay (newEntry unicode drop)
        (newEntry unicode keep) → ¬ (drop.unique = true ∧ keep.unique = true ∧
          indexColumns unicode drop.indexDef = indexColumns unicode keep.indexDef) →
        drop.unique = false := by
      intro drop keep hgives hnot
      by_contra hunique
      rw [Bool.not_eq_false] at hunique
      obtain ⟨hcols, hkeep⟩ := hgives.unique hunique
      exact hnot ⟨hunique, hkeep, hcols⟩
    obtain ⟨hx, hy⟩ := hitem.readable
    rcases pairItem_spec hitem.item with ⟨hindex, hkept, hgives, -⟩ | ⟨hindex, hkept, hgives, -⟩
    · refine ⟨y, x, .inr ⟨rfl, rfl⟩, hindex, hkept, hplain hgives ?_⟩
      rintro ⟨huy, hux, hcols⟩
      exact h x y hitem.order hitem.table hux huy hx hcols.symm
    · refine ⟨x, y, .inl ⟨rfl, rfl⟩, hindex, hkept, hplain hgives ?_⟩
      rintro ⟨hux, huy, hcols⟩
      exact h x y hitem.order hitem.table hux huy hx hcols

end

/-! ## A unique index and a primary key -/

/-- A unique index on `id`. -/
def uniqueIndex : IndexRow :=
  ⟨some 1, none, some "t_id_key".toList, true, false,
    some "CREATE UNIQUE INDEX t_id_key ON t (id)".toList⟩

/-- The primary key on `id`. -/
def primaryIndex : IndexRow :=
  ⟨some 1, none, some "t_pkey".toList, true, true,
    some "CREATE UNIQUE INDEX t_pkey ON t (id)".toList⟩

/-- **The index of a primary key is dropped** for a unique index that comes earlier. -/
theorem primary_index_dropped :
    ¬ ∀ (snapshot : IndexSnapshot) (item : Item) (x y : IndexRow),
      ItemOf asciiUnicode snapshot item x y → DropsPlain item x y := by
  intro h
  have hcols : indexColumns asciiUnicode uniqueIndex.indexDef =
      indexColumns asciiUnicode primaryIndex.indexDef := by decide
  have hitem : ItemOf asciiUnicode ⟨[], [uniqueIndex, primaryIndex]⟩
      (duplicateItem (tableLabel [] uniqueIndex.table) (newEntry asciiUnicode uniqueIndex)
        (newEntry asciiUnicode primaryIndex)) uniqueIndex primaryIndex :=
    ⟨List.Sublist.refl _, rfl, by decide, pairItem_of_cols_eq _ hcols⟩
  obtain ⟨drop, keep, (⟨rfl, rfl⟩ | ⟨rfl, rfl⟩), -, -, hdrop⟩ := h _ _ _ _ hitem
  · exact absurd hdrop (by decide)
  · exact absurd hdrop (by decide)

/-! ## A chain of suggestions -/

/-- An index on `a`, which another may begin with. -/
def shortIndex : IndexRow :=
  ⟨some 1, none, some "short".toList, false, false, some "CREATE INDEX short ON t (a)".toList⟩

/-- The short index gives way to either of the other two, the second of which gives way to the
    third. -/
def chainSnapshot : IndexSnapshot where
  relations := []
  indexes := [shortIndex,
    ⟨some 1, none, some "long".toList, false, false, some "CREATE INDEX long ON t (a, b)".toList⟩,
    ⟨some 1, none, some "key".toList, true, false, some "CREATE INDEX key ON t (a, b)".toList⟩]

theorem suggestions_jointly_safe_chain :
    Suggested asciiUnicode chainSnapshot shortIndex ∧
      ∃ keep ∈ chainSnapshot.indexes, keep.table = shortIndex.table ∧
        ¬ Suggested asciiUnicode chainSnapshot keep ∧
        indexColumns asciiUnicode shortIndex.indexDef <+:
          indexColumns asciiUnicode keep.indexDef := by
  have hsuggested : Suggested asciiUnicode chainSnapshot shortIndex := by
    unfold Suggested
    decide
  have hnames : ∀ oid, ((chainSnapshot.indexes.filter (·.table = oid)).map
      IndexRow.name).Nodup := by
    intro oid
    have hall : (chainSnapshot.indexes.map IndexRow.name).Nodup := by decide
    exact hall.sublist (List.filter_sublist.map _)
  obtain ⟨keep, hm, htable, hkept, hcols, -⟩ :=
    (suggestions_jointly_safe asciiUnicode chainSnapshot hnames).2 shortIndex
      List.mem_cons_self hsuggested
  exact ⟨hsuggested, keep, hm, htable, hkept, hcols⟩

end PgErdCloud.Spec
