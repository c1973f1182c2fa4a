/-
  The wizard that proposes indexes (erd/cardinality.ts). A proposal is as strong as the share of
  distinct values among the rows; for several columns there is one for all of them together.
  Counts are exact rational numbers.

  `buildIndexRecommendations_ordered` says for all tables and columns that the list is sorted,
  that ratios are between 0 and 1, and that the proposal on all qualifying columns comes first.
-/
import PgErdCloud.Canvas.IndexExport

namespace PgErdCloud.Canvas.Cardinality

open Lib Lib.PyStr

/-- A row of the wizard. -/
structure ColumnInput where
  columnName : Str
  isSelected : Bool
  distinctCount : Option ℚ

/-- What is said of one choice of columns. -/
structure Recommendation where
  indexName : Str
  columns : List Str
  accessMethod : Str
  estimatedDistinct : Int
  cardinalityRatio : ℚ
  strength : Strength
  reason : Str
  source : Str

/-! ## A recommendation -/

/-- A rational number is always finite. -/
def clampRatio (value : ℚ) : ℚ := max 0 (min 1 value)

/-- `calculateCardinalityRatio` -/
def calculateCardinalityRatio (rowCount distinctCount : ℚ) : ℚ :=
  if rowCount ≤ 0 ∨ distinctCount ≤ 0 then 0 else clampRatio (distinctCount / rowCount)

/-- `classifyCardinality` -/
def classifyCardinality (ratio : ℚ) : Strength :=
  if ratio ≥ 1 / 5 then .recommended else if ratio ≥ 1 / 20 then .consider else .skip

/-- `Math.round` -/
def mathRound (x : ℚ) : Int := ⌊x + 1 / 2⌋

/-- The reason that is shown. -/
def reasonFor (strength : Strength) (ratio : ℚ) (columnCount : Nat) : Str :=
  let percent := (toString (mathRound (ratio * 100))).toList ++ "%".toList
  match strength with
  | .recommended => percent ++ " distinct; 선택도가 높습니다.".toList
  | .consider => percent ++ " distinct; 조건, 조인, 정렬에서 쓰일 때 검토하세요.".toList
  | .skip =>
      let target := if columnCount > 1 then "컬럼 조합".toList else "컬럼".toList
      percent ++ " distinct; 워크로드 근거가 없으면 단독 ".toList ++ target ++
        " 인덱스는 보류하세요.".toList

/-- `buildRecommendation` -/
def buildRecommendation (tableName : Str) (columns : List Str) (rowCount estimatedDistinct : ℚ) :
    Recommendation :=
  let ratio := calculateCardinalityRatio rowCount estimatedDistinct
  let strength := classifyCardinality ratio
  { indexName := buildIndexName tableName columns
    columns := columns
    accessMethod := "btree".toList
    estimatedDistinct := mathRound estimatedDistinct
    cardinalityRatio := ratio
    strength := strength
    reason := reasonFor strength ratio columns.length
    source := "cardinality-wizard".toList }

/-! ## The list -/

/-- A column that qualifies: it is selected and has a positive count. -/
def ColumnInput.Qualifies (column : ColumnInput) : Prop :=
  column.isSelected = true ∧ ∃ distinctCount ∈ column.distinctCount, 0 < distinctCount

instance (column : ColumnInput) : Decidable column.Qualifies :=
  inferInstanceAs (Decidable (_ ∧ _))

/-- A column that qualifies, with its count, which is not above that of the rows. -/
def selectedColumn (rowCount : ℚ) (column : ColumnInput) : Option (Str × ℚ) :=
  match column.distinctCount with
  | some distinctCount =>
      if column.isSelected ∧ 0 < distinctCount then
        some (column.columnName, min distinctCount rowCount)
      else none
  | none => none

/-- How many combinations there are at most: the product, but no more than rows. -/
def combinedDistinct (rowCount : ℚ) (selected : List (Str × ℚ)) : ℚ :=
  min rowCount (selected.foldl (fun acc column => acc * max 1 column.2) 1)

/-- The recommendation on all columns together. -/
def combinedRecommendation (tableName : Str) (rowCount : ℚ) (selected : List (Str × ℚ)) :
    Recommendation :=
  buildRecommendation tableName (selected.map Prod.fst) rowCount
    (combinedDistinct rowCount selected)

/-- The place of a strength in the list. -/
def strengthRank : Strength → Nat
  | .recommended => 0
  | .consider => 1
  | .skip => 2

/-- The order of the sort: what it compares is not above zero. -/
def Precedes (a b : Recommendation) : Prop :=
  strengthRank a.strength < strengthRank b.strength ∨
    strengthRank a.strength = strengthRank b.strength ∧ b.cardinalityRatio ≤ a.cardinalityRatio

instance : DecidableRel Precedes := fun a b => by
  unfold Precedes
  infer_instance

/-- `buildIndexRecommendations` -/
def buildIndexRecommendations (tableName : Str) (rowCount : Option ℚ)
    (columns : List ColumnInput) : List Recommendation :=
  match rowCount with
  | none => []
  | some rowCount =>
      if rowCount ≤ 0 then []
      else
        let selected := columns.filterMap (selectedColumn rowCount)
        let recommendations := selected.map fun column =>
          buildRecommendation tableName [column.1] rowCount column.2
        let recommendations :=
          if selected.length > 1 then
            combinedRecommendation tableName rowCount selected :: recommendations
          else recommendations
        recommendations.insertionSort Precedes

/-! ## Shares -/

theorem clampRatio_mem (value : ℚ) : 0 ≤ clampRatio value ∧ clampRatio value ≤ 1 :=
  ⟨le_max_left _ _, max_le (by norm_num) (min_le_left _ _)⟩

theorem ratio_mem (rowCount distinctCount : ℚ) :
    0 ≤ calculateCardinalityRatio rowCount distinctCount ∧
      calculateCardinalityRatio rowCount distinctCount ≤ 1 := by
  rw [calculateCardinalityRatio]
  split_ifs
  · exact ⟨le_refl 0, zero_le_one⟩
  · exact clampRatio_mem _

theorem ratio_mono {rowCount c d : ℚ} (h : c ≤ d) :
    calculateCardinalityRatio rowCount c ≤ calculateCardinalityRatio rowCount d := by
  by_cases hzero : rowCount ≤ 0 ∨ c ≤ 0
  · rw [calculateCardinalityRatio, if_pos hzero]
    exact (ratio_mem rowCount d).1
  · obtain ⟨hrow, hc⟩ := not_or.mp hzero
    have hd : ¬ (rowCount ≤ 0 ∨ d ≤ 0) :=
      not_or.mpr ⟨hrow, fun hd => hc (h.trans hd)⟩
    rw [calculateCardinalityRatio, calculateCardinalityRatio, if_neg hzero, if_neg hd]
    have hdiv : c / rowCount ≤ d / rowCount :=
      div_le_div_of_nonneg_right h (le_of_not_ge hrow)
    exact max_le_max_left 0 (min_le_min_left 1 hdiv)

/-- A larger share is not weaker. -/
theorem strengthRank_anti {r r' : ℚ} (h : r ≤ r') :
    strengthRank (classifyCardinality r') ≤ strengthRank (classifyCardinality r) := by
  rw [classifyCardinality, classifyCardinality]
  split_ifs with h₁ h₂ h₃ h₄ h₅ h₆ <;> first
    | decide
    | exact absurd (le_trans (by assumption) h) (by assumption)

theorem precedes_of_le {tableName : Str} {cs ds : List Str} {rowCount c d : ℚ} (h : d ≤ c) :
    Precedes (buildRecommendation tableName cs rowCount c)
      (buildRecommendation tableName ds rowCount d) := by
  have hratio : calculateCardinalityRatio rowCount d ≤ calculateCardinalityRatio rowCount c :=
    ratio_mono h
  rcases Nat.lt_or_eq_of_le (strengthRank_anti hratio) with hlt | heq
  · exact .inl hlt
  · exact .inr ⟨heq, hratio⟩

/-! ## The combined recommendation -/

/-- Every factor is at least one. -/
theorem le_product (selected : List (Str × ℚ)) {acc : ℚ} (hacc : 1 ≤ acc) :
    acc ≤ selected.foldl (fun acc column => acc * max 1 column.2) acc ∧
      ∀ column ∈ selected,
        column.2 ≤ selected.foldl (fun acc column => acc * max 1 column.2) acc := by
  induction selected generalizing acc with
  | nil => exact ⟨le_refl _, fun column h => absurd h List.not_mem_nil⟩
  | cons first selected ih =>
      have hfactor : 1 ≤ max 1 first.2 := le_max_left _ _
      have hgrows : acc ≤ acc * max 1 first.2 :=
        le_mul_of_one_le_right (zero_le_one.trans hacc) hfactor
      have hcontains : first.2 ≤ acc * max 1 first.2 :=
        (le_max_right 1 first.2).trans (le_mul_of_one_le_left (zero_le_one.trans hfactor) hacc)
      obtain ⟨hle, hrest⟩ := ih (hacc.trans hgrows)
      rw [List.foldl_cons]
      refine ⟨hgrows.trans hle, List.forall_mem_cons.mpr ⟨hcontains.trans hle, hrest⟩⟩

theorem le_combinedDistinct {rowCount : ℚ} {columns : List ColumnInput} {column : Str × ℚ}
    (h : column ∈ columns.filterMap (selectedColumn rowCount)) :
    column.2 ≤ combinedDistinct rowCount (columns.filterMap (selectedColumn rowCount)) := by
  refine le_min ?_ ((le_product _ (le_refl 1)).2 column h)
  obtain ⟨input, -, hinput⟩ := List.mem_filterMap.mp h
  rw [selectedColumn] at hinput
  split at hinput
  · split_ifs at hinput
    rw [← Option.some.inj hinput]
    exact min_le_right _ _
  · exact absurd hinput.symm (Option.some_ne_none _)

/-- What is selected are the names of the columns that qualify. -/
theorem map_fst_selectedColumn (rowCount : ℚ) (columns : List ColumnInput) :
    (columns.filterMap (selectedColumn rowCount)).map Prod.fst =
      (columns.filter fun column => column.Qualifies).map ColumnInput.columnName := by
  have hname (column : ColumnInput) : (selectedColumn rowCount column).map Prod.fst =
      if column.Qualifies then some column.columnName else none := by
    have hqualifies : column.Qualifies ↔ column.isSelected = true ∧
        ∃ distinctCount ∈ column.distinctCount, 0 < distinctCount := Iff.rfl
    rw [if_congr hqualifies rfl rfl, selectedColumn]
    cases column.distinctCount with
    | none => simp
    | some distinctCount =>
        by_cases h : column.isSelected ∧ 0 < distinctCount
        · simp [h]
        · simp [h]
  rw [List.map_filterMap, ← List.filterMap_eq_map, List.filterMap_filter]
  refine List.filterMap_congr fun column _ => ?_
  rw [hname]
  by_cases h : column.Qualifies
  · simp [h]
  · simp [h]

/-! ## The order -/

instance : Std.Total Precedes where
  total a b := by
    rcases Nat.lt_trichotomy (strengthRank a.strength) (strengthRank b.strength) with h | h | h
    · exact .inl (.inl h)
    · rcases le_total b.cardinalityRatio a.cardinalityRatio with hle | hle
      · exact .inl (.inr ⟨h, hle⟩)
      · exact .inr (.inr ⟨h.symm, hle⟩)
    · exact .inr (.inl h)

instance : IsTrans Recommendation Precedes where
  trans a b c := by
    rintro (hab | ⟨hab, hle⟩) (hbc | ⟨hbc, hle'⟩)
    · exact .inl (hab.trans hbc)
    · exact .inl (hbc ▸ hab)
    · exact .inl (hab ▸ hbc)
    · exact .inr ⟨hab.trans hbc, hle'.trans hle⟩

theorem ratio_mem_of_mem {tableName : Str} {rowCount : Option ℚ} {columns : List ColumnInput}
    {r : Recommendation} (h : r ∈ buildIndexRecommendations tableName rowCount columns) :
    0 ≤ r.cardinalityRatio ∧ r.cardinalityRatio ≤ 1 := by
  cases rowCount with
  | none => exact absurd h List.not_mem_nil
  | some n =>
      have hsingle : ∀ r ∈ (columns.filterMap (selectedColumn n)).map fun column =>
          buildRecommendation tableName [column.1] n column.2,
          0 ≤ r.cardinalityRatio ∧ r.cardinalityRatio ≤ 1 := by
        intro r hr
        obtain ⟨column, -, rfl⟩ := List.mem_map.mp hr
        exact ratio_mem _ _
      unfold buildIndexRecommendations at h
      dsimp only at h
      split_ifs at h with hrow hlength
      · exact absurd h List.not_mem_nil
      · rw [List.mem_insertionSort] at h
        rcases List.mem_cons.mp h with rfl | h
        · exact ratio_mem _ _
        · exact hsingle r h
      · exact hsingle r ((List.mem_insertionSort _).mp h)

/-- **The recommendations are sorted by strength and then by share, every share is between zero
    and one, and where two columns or more qualify the first is the combined recommendation,
    whose columns are theirs.** -/
theorem buildIndexRecommendations_ordered (tableName : Str) (rowCount : Option ℚ)
    (columns : List ColumnInput) :
    (buildIndexRecommendations tableName rowCount columns).Pairwise Precedes ∧
    (∀ r ∈ buildIndexRecommendations tableName rowCount columns,
      0 ≤ r.cardinalityRatio ∧ r.cardinalityRatio ≤ 1) ∧
    ∀ n, rowCount = some n → 0 < n →
      2 ≤ (columns.filter fun column => column.Qualifies).length →
      (buildIndexRecommendations tableName rowCount columns).head? =
        some (combinedRecommendation tableName n (columns.filterMap (selectedColumn n))) ∧
      (combinedRecommendation tableName n (columns.filterMap (selectedColumn n))).columns =
        (columns.filter fun column => column.Qualifies).map ColumnInput.columnName := by
  refine ⟨?_, fun r => ratio_mem_of_mem, ?_⟩
  · unfold buildIndexRecommendations
    split
    · exact .nil
    · split_ifs
      · exact .nil
      · exact List.pairwise_insertionSort _ _
  · rintro n rfl hn hlength
    have hnames := map_fst_selectedColumn n columns
    have hlength : 2 ≤ (columns.filterMap (selectedColumn n)).length := by
      have hcount := congrArg List.length hnames
      rw [List.length_map, List.length_map] at hcount
      rwa [hcount]
    refine ⟨?_, hnames⟩
    have hfirst : ∀ r ∈ (columns.filterMap (selectedColumn n)).map fun column =>
        buildRecommendation tableName [column.1] n column.2,
        Precedes (combinedRecommendation tableName n (columns.filterMap (selectedColumn n))) r := by
      intro r hr
      obtain ⟨column, hcolumn, rfl⟩ := List.mem_map.mp hr
      exact precedes_of_le (le_combinedDistinct hcolumn)
    unfold buildIndexRecommendations
    dsimp only
    rw [if_neg (not_le.mpr hn), if_pos (show _ > 1 from hlength),
      List.insertionSort_cons_of_forall_rel _ hfirst]
    rfl

end PgErdCloud.Canvas.Cardinality
