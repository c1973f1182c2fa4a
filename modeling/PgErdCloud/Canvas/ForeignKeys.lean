/-
  The columns of a foreign key in the two exports of one edge. The SQL export looks for them in
  the data of the edge, then by its handles among the columns of the nodes, then guesses from
  the keys; the DBML export takes the data, or else the text of the handles, which is not a
  column name but its encoding.

  `exports_agree_iff` is about every graph: both exports name the same columns for all edges
  exactly when each is one of five kinds (`SameColumns`). An edge drawn by hand between columns is
  none of them.
-/
import PgErdCloud.Canvas.Exporters

namespace PgErdCloud.Canvas

open Lib Lib.PyStr

/-! ## What the data and the nodes say -/

/-- The two lists in the data of an edge, when both are there. -/
def Edge.dataLists (edge : Edge) : Option FkColumns :=
  match edge.data with
  | some ⟨some sourceColumns, some targetColumns⟩ => some (sourceColumns, targetColumns)
  | _ => none

/-- Without their empty names the lists are as long as each other, and not empty. -/
def Usable (sources targets : List Str) : Prop :=
  sources.filter (· ≠ []) ≠ [] ∧
    (sources.filter (· ≠ [])).length = (targets.filter (· ≠ [])).length

/-- Both handles belong to columns. -/
def HandlesName (edge : Edge) (source target : TableNode) (sourceColumn targetColumn : Str) :
    Prop :=
  columnOfHandle sourceColumnHandleId source.columns edge.sourceHandle = some sourceColumn ∧
    columnOfHandle targetColumnHandleId target.columns edge.targetHandle = some targetColumn

/-- The columns that are no key in the source, and the key of the target. -/
def KeysAre (source target : TableNode) (columns : FkColumns) : Prop :=
  (source.columns.filter fun column => !column.isPk).map Column.columnName = columns.1 ∧
    (target.columns.filter Column.isPk).map Column.columnName = columns.2 ∧
    columns.1 ≠ [] ∧ columns.1.length = columns.2.length

/-- What the nodes suggest for an edge whose data is of no use. -/
inductive Suggests (edge : Edge) (source target : TableNode) : FkColumns → Prop
  | handles (sourceColumn targetColumn : Str)
      (h : HandlesName edge source target sourceColumn targetColumn) :
      Suggests edge source target ([sourceColumn], [targetColumn])
  | keys (columns : FkColumns)
      (hno : ∀ sourceColumn targetColumn,
        ¬ HandlesName edge source target sourceColumn targetColumn)
      (h : KeysAre source target columns) : Suggests edge source target columns

theorem fkColumnsOfHandles_eq_some {edge : Edge} {source target : TableNode}
    {columns : FkColumns} :
    fkColumnsOfHandles edge source target = some columns ↔
      ∃ sourceColumn targetColumn, HandlesName edge source target sourceColumn targetColumn ∧
        columns = ([sourceColumn], [targetColumn]) := by
  unfold fkColumnsOfHandles HandlesName
  split
  · next c d hc hd =>
    rw [hc, hd]
    constructor
    · intro h
      exact ⟨c, d, ⟨rfl, rfl⟩, (Option.some.inj h).symm⟩
    · rintro ⟨_, _, ⟨hc', hd'⟩, rfl⟩
      rw [Option.some.inj hc', Option.some.inj hd']
  · next hno =>
    constructor
    · intro h
      exact absurd h (by simp)
    · rintro ⟨c, d, ⟨hc, hd⟩, -⟩
      exact absurd hd (hno c d hc)

theorem fkColumnsOfKeys_eq_some {source target : TableNode} {columns : FkColumns} :
    fkColumnsOfKeys source target = some columns ↔ KeysAre source target columns := by
  unfold fkColumnsOfKeys KeysAre
  obtain ⟨sources, targets⟩ := columns
  constructor
  · intro h
    dsimp only at h
    split_ifs at h with hfit
    obtain ⟨rfl, rfl⟩ := Prod.mk.inj (Option.some.inj h)
    exact ⟨rfl, rfl, hfit⟩
  · rintro ⟨rfl, rfl, hfit⟩
    exact if_pos hfit

theorem suggests_iff {edge : Edge} {source target : TableNode} {columns : FkColumns} :
    (fkColumnsOfHandles edge source target).or (fkColumnsOfKeys source target) = some columns ↔
      Suggests edge source target columns := by
  rw [Option.or_eq_some_iff, fkColumnsOfHandles_eq_some, fkColumnsOfKeys_eq_some]
  constructor
  · rintro (⟨c, d, h, rfl⟩ | ⟨hnone, h⟩)
    · exact .handles c d h
    · refine .keys columns (fun c d hname => ?_) h
      rw [fkColumnsOfHandles_eq_some.mpr ⟨c, d, hname, rfl⟩] at hnone
      exact absurd hnone (by simp)
  · intro h
    cases h with
    | handles c d h => exact .inl ⟨c, d, h, rfl⟩
    | keys _ hno h =>
        refine .inr ⟨Option.eq_none_iff_forall_ne_some.mpr fun other hother => ?_, h⟩
        obtain ⟨c, d, hname, -⟩ := fkColumnsOfHandles_eq_some.mp hother
        exact hno c d hname

/-! ## The two resolutions -/

theorem fkColumnsForEdge_of_usable {edge : Edge} {sources targets : List Str}
    (hdata : edge.dataLists = some (sources, targets)) (h : Usable sources targets)
    (source target : TableNode) :
    fkColumnsForEdge edge source target =
      some (sources.filter (· ≠ []), targets.filter (· ≠ [])) := by
  unfold Edge.dataLists at hdata
  split at hdata
  · next sourceColumns targetColumns hedge =>
    obtain ⟨rfl, rfl⟩ := Prod.mk.inj (Option.some.inj hdata)
    rw [fkColumnsForEdge, fkColumnsOfData, hedge]
    simp only [Option.bind_some, Option.getD_some]
    rw [if_pos (show _ ∧ _ from h), Option.some_or]
  · exact absurd hdata (by simp)

theorem fkColumnsForEdge_of_not_usable {edge : Edge}
    (h : ∀ sources targets, edge.dataLists = some (sources, targets) → ¬ Usable sources targets)
    (source target : TableNode) :
    fkColumnsForEdge edge source target =
      (fkColumnsOfHandles edge source target).or (fkColumnsOfKeys source target) := by
  have hnone : fkColumnsOfData edge = none := by
    unfold fkColumnsOfData
    refine if_neg fun hfit => ?_
    cases hdata : edge.data with
    | none => simp [hdata] at hfit
    | some data =>
        obtain ⟨_ | sourceColumns, _ | targetColumns⟩ := data
        all_goals simp only [hdata, Option.bind_some, Option.getD_none, Option.getD_some,
          List.filter_nil] at hfit
        · exact hfit.1 rfl
        · exact hfit.1 rfl
        · exact hfit.1 (List.length_eq_zero_iff.mp hfit.2)
        · exact h sourceColumns targetColumns (by rw [Edge.dataLists, hdata]) hfit
  rw [fkColumnsForEdge, hnone, Option.none_or]

/-- The part of the lists that a `Ref` line prints. -/
def offered (sources targets : List Str) : FkColumns :=
  if sources.length = 1 then (sources, targets.take 1) else (sources, targets)

theorem refColumns_of_dataLists {edge : Edge} {sources targets : List Str}
    (hdata : edge.dataLists = some (sources, targets)) :
    refColumns edge =
      if sources = [] ∨ targets = [] then none else some (offered sources targets) := by
  have hlists : refColumnsOfEdge edge = (sources, targets) := by
    unfold Edge.dataLists at hdata
    split at hdata
    · next hedge =>
      rw [refColumnsOfEdge, hedge]
      exact Option.some.inj hdata
    · exact absurd hdata (by simp)
  rw [refColumns, hlists]
  rcases sources with _ | ⟨source, _ | ⟨next, sources⟩⟩
  · simp
  · cases targets <;> simp [offered]
  · cases targets <;> simp [offered]

/-- The text of both handles, without what marks the end of the edge. -/
def handleTexts (edge : Edge) : FkColumns :=
  ([JsStr.removeFirst "src-".toList (edge.sourceHandle.getD [])],
    [JsStr.removeFirst "tgt-".toList (edge.targetHandle.getD [])])

/-- The edge has both handles. -/
def HasHandles (edge : Edge) : Prop :=
  edge.sourceHandle.getD [] ≠ [] ∧ edge.targetHandle.getD [] ≠ []

instance (edge : Edge) : Decidable (HasHandles edge) := inferInstanceAs (Decidable (_ ∧ _))

theorem refColumns_of_no_dataLists {edge : Edge} (hdata : edge.dataLists = none) :
    refColumns edge = if HasHandles edge then some (handleTexts edge) else none := by
  have hlists : refColumnsOfEdge edge =
      if HasHandles edge then handleTexts edge else ([], []) := by
    unfold Edge.dataLists at hdata
    rw [refColumnsOfEdge]
    cases hedge : edge.data with
    | none => rfl
    | some data =>
        obtain ⟨_ | sourceColumns, _ | targetColumns⟩ := data
        · rfl
        · rfl
        · rfl
        · simp [hedge] at hdata
  rw [refColumns, hlists]
  split_ifs <;> rfl

/-- Handles that belong to columns do not have the names of these as their text. -/
theorem handleTexts_ne {edge : Edge} {source target : TableNode} {sourceColumn targetColumn : Str}
    (h : HandlesName edge source target sourceColumn targetColumn) :
    handleTexts edge ≠ ([sourceColumn], [targetColumn]) := by
  obtain ⟨hsource, -⟩ := h
  rw [columnOfHandle, Option.filter_eq_some_iff, Option.map_eq_some_iff] at hsource
  obtain ⟨⟨column, hfind, rfl⟩, -⟩ := hsource
  have hhandle : some (sourceColumnHandleId column.columnName) = edge.sourceHandle := by
    simpa using List.find?_some hfind
  intro he
  have htext := List.singleton_inj.mp (Prod.mk.inj he).1
  rw [← hhandle, Option.getD_some, sourceColumnHandleId, JsStr.removeFirst_append _ (by decide)]
    at htext
  exact sanitizeHandleId_ne _ htext

/-! ## Agreement -/

/-- When the two exports name the same columns for an edge. The first case is the one of edges
    of a snapshot and of inferred edges. -/
inductive SameColumns (edge : Edge) (source target : TableNode) : Prop
  /-- As many names on both sides, none of them empty. -/
  | data (sources targets : List Str) (hdata : edge.dataLists = some (sources, targets))
      (hne : sources ≠ []) (hlen : sources.length = targets.length) (hsources : [] ∉ sources)
      (htargets : [] ∉ targets)
  /-- One name, and on the other side nothing but empty names after the first. -/
  | first (sourceColumn targetColumn : Str) (rest : List Str)
      (hdata : edge.dataLists = some ([sourceColumn], targetColumn :: rest))
      (hsource : sourceColumn ≠ []) (htarget : targetColumn ≠ []) (hrest : ∀ name ∈ rest, name = [])
  /-- The data is of no use for the SQL export, and says what the nodes suggest. -/
  | suggested (sources targets : List Str) (hdata : edge.dataLists = some (sources, targets))
      (hno : ¬ Usable sources targets) (hsources : sources ≠ []) (htargets : targets ≠ [])
      (h : Suggests edge source target (offered sources targets))
  /-- No column has the handles, and the keys are named like their text. -/
  | texts (hdata : edge.dataLists = none) (hhandles : HasHandles edge)
      (hno : ∀ sourceColumn targetColumn,
        ¬ HandlesName edge source target sourceColumn targetColumn)
      (h : KeysAre source target (handleTexts edge))
  /-- There is nothing to go by. -/
  | nothing
      (hdata : ∀ sources targets, edge.dataLists = some (sources, targets) →
        sources = [] ∨ targets = [])
      (hhandles : edge.dataLists = none → ¬ HasHandles edge)
      (h : ∀ columns, ¬ Suggests edge source target columns)

theorem filter_ne_nil_eq_self {names : List Str} :
    names.filter (· ≠ []) = names ↔ [] ∉ names := by
  rw [List.filter_eq_self]
  constructor
  · intro h hm
    exact absurd (h [] hm) (by decide)
  · intro h name hname
    exact decide_eq_true fun he => h (he ▸ hname)

theorem filter_first {name : Str} {rest : List Str} (hname : name ≠ [])
    (hrest : ∀ other ∈ rest, other = []) : (name :: rest).filter (· ≠ []) = [name] := by
  rw [List.filter_cons_of_pos (by simp [hname]), List.cons.injEq, List.filter_eq_nil_iff]
  exact ⟨rfl, fun other hother => by simp [hrest other hother]⟩

theorem usable_first {s t : Str} {rest : List Str} (hs : s ≠ []) (ht : t ≠ [])
    (hrest : ∀ name ∈ rest, name = []) : Usable [s] (t :: rest) := by
  rw [Usable, filter_first ht hrest, filter_first hs (by simp)]
  exact ⟨by simp, rfl⟩

/-- With usable data the two agree when no name is dropped but those after the first target. -/
theorem offered_eq_filter_iff {sources targets : List Str} (husable : Usable sources targets) :
    (offered sources targets = (sources.filter (· ≠ []), targets.filter (· ≠ []))) ↔
      ([] ∉ sources ∧ [] ∉ targets ∧ sources.length = targets.length) ∨
        ∃ sourceColumn targetColumn rest, sources = [sourceColumn] ∧
          targets = targetColumn :: rest ∧ sourceColumn ≠ [] ∧ targetColumn ≠ [] ∧
          ∀ name ∈ rest, name = [] := by
  obtain ⟨hne, hlen⟩ := husable
  constructor
  · intro h
    unfold offered at h
    split_ifs at h with hone
    · obtain ⟨sourceColumn, rfl⟩ := List.length_eq_one_iff.mp hone
      obtain ⟨hsources, htargets⟩ := Prod.mk.inj h
      rw [← hsources] at hlen
      have hsource : sourceColumn ≠ [] := by
        intro he
        exact filter_ne_nil_eq_self.mp hsources.symm (he ▸ List.mem_singleton_self _)
      cases targets with
      | nil => exact absurd hlen (by simp)
      | cons targetColumn rest =>
          right
          refine ⟨sourceColumn, targetColumn, rest, rfl, rfl, hsource, ?_⟩
          rw [List.take_succ_cons, List.take_zero] at htargets
          by_cases htarget : targetColumn = []
          · rw [List.filter_cons_of_neg (by simp [htarget])] at htargets
            have hm : targetColumn ∈ rest.filter (· ≠ []) := htargets ▸ List.mem_singleton_self _
            exact absurd htarget (of_decide_eq_true (List.mem_filter.mp hm).2)
          · rw [List.filter_cons_of_pos (by simp [htarget]), List.cons.injEq] at htargets
            refine ⟨htarget, fun name hname => ?_⟩
            have hnot := List.filter_eq_nil_iff.mp htargets.2.symm name hname
            simpa using hnot
    · obtain ⟨hsources, htargets⟩ := Prod.mk.inj h
      rw [← hsources, ← htargets] at hlen
      exact .inl ⟨filter_ne_nil_eq_self.mp hsources.symm, filter_ne_nil_eq_self.mp htargets.symm,
        hlen⟩
  · rintro (⟨hsources, htargets, hsame⟩ | ⟨s, t, rest, rfl, rfl, hs, ht, hrest⟩)
    · rw [filter_ne_nil_eq_self.mpr hsources, filter_ne_nil_eq_self.mpr htargets, offered]
      split_ifs with hone
      · rw [List.take_of_length_le (by omega)]
      · rfl
    · rw [filter_first ht hrest, filter_first hs (by simp)]
      rfl

theorem unusable_of_dataLists {edge : Edge} {sources targets : List Str}
    (hdata : edge.dataLists = some (sources, targets)) (hno : ¬ Usable sources targets) :
    ∀ sources' targets', edge.dataLists = some (sources', targets') →
      ¬ Usable sources' targets' := by
  intro sources' targets' hdata'
  rw [hdata] at hdata'
  obtain ⟨rfl, rfl⟩ := Prod.mk.inj (Option.some.inj hdata')
  exact hno

theorem not_usable_of_empty {sources targets : List Str} (h : sources = [] ∨ targets = []) :
    ¬ Usable sources targets := by
  rintro ⟨hne, hlen⟩
  rcases h with rfl | rfl
  · exact hne rfl
  · exact hne (List.length_eq_zero_iff.mp hlen)

theorem sameColumns_of_eq {edge : Edge} {source target : TableNode}
    (h : refColumns edge = fkColumnsForEdge edge source target) :
    SameColumns edge source target := by
  cases hdata : edge.dataLists with
  | none =>
      rw [refColumns_of_no_dataLists hdata, fkColumnsForEdge_of_not_usable (by simp [hdata])] at h
      split_ifs at h with hhandles
      · have hsuggests := suggests_iff.mp h.symm
        generalize hcolumns : handleTexts edge = columns at hsuggests
        cases hsuggests with
        | handles c d hname => exact absurd hcolumns (handleTexts_ne hname)
        | keys _ hno hkeys => exact .texts hdata hhandles hno (hcolumns ▸ hkeys)
      · refine .nothing (by simp [hdata]) (fun _ => hhandles) fun columns hsuggests => ?_
        rw [suggests_iff.mpr hsuggests] at h
        exact absurd h (by simp)
  | some lists =>
      obtain ⟨sources, targets⟩ := lists
      rw [refColumns_of_dataLists hdata] at h
      by_cases husable : Usable sources targets
      · rw [fkColumnsForEdge_of_usable hdata husable] at h
        split_ifs at h with hempty
        rcases (offered_eq_filter_iff husable).mp (Option.some.inj h) with
          ⟨hsources, htargets, hlen⟩ | ⟨s, t, rest, rfl, rfl, hs, ht, hrest⟩
        · exact .data sources targets hdata (fun he => hempty (.inl he)) hlen hsources htargets
        · exact .first s t rest hdata hs ht hrest
      · rw [fkColumnsForEdge_of_not_usable (unusable_of_dataLists hdata husable)] at h
        split_ifs at h with hempty
        · refine .nothing ?_ (by simp [hdata]) fun columns hsuggests => ?_
          · intro sources' targets' hdata'
            rw [hdata] at hdata'
            obtain ⟨rfl, rfl⟩ := Prod.mk.inj (Option.some.inj hdata')
            exact hempty
          · rw [suggests_iff.mpr hsuggests] at h
            exact absurd h (by simp)
        · obtain ⟨hsources, htargets⟩ := not_or.mp hempty
          exact .suggested sources targets hdata husable hsources htargets
            (suggests_iff.mp h.symm)

theorem eq_of_sameColumns {edge : Edge} {source target : TableNode}
    (h : SameColumns edge source target) :
    refColumns edge = fkColumnsForEdge edge source target := by
  cases h with
  | data sources targets hdata hne hlen hsources htargets =>
      have husable : Usable sources targets := by
        rw [Usable, filter_ne_nil_eq_self.mpr hsources, filter_ne_nil_eq_self.mpr htargets]
        exact ⟨hne, hlen⟩
      have htargets' : targets ≠ [] := by
        intro he
        exact hne (List.length_eq_zero_iff.mp (by rw [hlen, he]; rfl))
      rw [refColumns_of_dataLists hdata, fkColumnsForEdge_of_usable hdata husable,
        if_neg (not_or.mpr ⟨hne, htargets'⟩),
        (offered_eq_filter_iff husable).mpr (.inl ⟨hsources, htargets, hlen⟩)]
  | first s t rest hdata hs ht hrest =>
      have husable := usable_first hs ht hrest
      rw [refColumns_of_dataLists hdata, fkColumnsForEdge_of_usable hdata husable,
        if_neg (by simp),
        (offered_eq_filter_iff husable).mpr (.inr ⟨s, t, rest, rfl, rfl, hs, ht, hrest⟩)]
  | suggested sources targets hdata hno hsources htargets hsuggests =>
      rw [refColumns_of_dataLists hdata,
        fkColumnsForEdge_of_not_usable (unusable_of_dataLists hdata hno),
        if_neg (not_or.mpr ⟨hsources, htargets⟩), suggests_iff.mpr hsuggests]
  | texts hdata hhandles hno hkeys =>
      rw [refColumns_of_no_dataLists hdata, fkColumnsForEdge_of_not_usable (by simp [hdata]),
        if_pos hhandles, suggests_iff.mpr (.keys _ hno hkeys)]
  | nothing hdata hhandles hnone =>
      have hsuggests : (fkColumnsOfHandles edge source target).or
          (fkColumnsOfKeys source target) = none :=
        Option.eq_none_iff_forall_ne_some.mpr fun columns hcolumns =>
          hnone columns (suggests_iff.mp hcolumns)
      rw [fkColumnsForEdge_of_not_usable fun sources targets h =>
        not_usable_of_empty (hdata sources targets h), hsuggests]
      cases hlists : edge.dataLists with
      | none => rw [refColumns_of_no_dataLists hlists, if_neg (hhandles hlists)]
      | some lists => rw [refColumns_of_dataLists hlists, if_pos (hdata _ _ hlists)]

/-! ## Graphs -/

/-- **The two exports name the same columns for every foreign key of a graph exactly when each
    edge is one of the kinds on which they do.** -/
theorem exports_agree_iff (graph : Graph) :
    (∀ edge ∈ graph.edges, ∀ source target, nodeById graph.nodes edge.source = some source →
      nodeById graph.nodes edge.target = some target →
        refColumns edge = fkColumnsForEdge edge source target) ↔
      ∀ edge ∈ graph.edges, ∀ source target, nodeById graph.nodes edge.source = some source →
        nodeById graph.nodes edge.target = some target → SameColumns edge source target := by
  constructor
  · intro h edge hedge source target hsource htarget
    exact sameColumns_of_eq (h edge hedge source target hsource htarget)
  · intro h edge hedge source target hsource htarget
    exact eq_of_sameColumns (h edge hedge source target hsource htarget)

/-- **On an edge without data whose handles belong to columns, as one that is drawn by hand, the
    two never agree.** -/
theorem not_sameColumns_of_handles {edge : Edge} {source target : TableNode}
    {sourceColumn targetColumn : Str} (hdata : edge.dataLists = none)
    (h : HandlesName edge source target sourceColumn targetColumn) :
    ¬ SameColumns edge source target := by
  intro hsame
  cases hsame with
  | data _ _ hlists | first _ _ _ hlists | suggested _ _ hlists =>
      rw [hdata] at hlists
      exact absurd hlists (by simp)
  | texts _ _ hno => exact hno _ _ h
  | nothing _ _ hnone => exact hnone _ (.handles _ _ h)

/-- `public.users` with its key. -/
def usersNode : TableNode :=
  ⟨"1".toList, "public.users".toList, none, [⟨"id".toList, "integer".toList, true, true, none⟩], [],
    ⟨true, false⟩⟩

/-- `public.posts`, with a column for its user. -/
def postsNode : TableNode :=
  ⟨"2".toList, "public.posts".toList, none,
    [⟨"id".toList, "integer".toList, true, true, none⟩,
      ⟨"user_id".toList, "integer".toList, true, false, none⟩], [], ⟨true, false⟩⟩

/-- An edge drawn by hand from `posts.user_id` to `users.id`. -/
def drawnEdge : Edge :=
  { id := "edge_1".toList
    source := "2".toList
    target := "1".toList
    sourceHandle := some (sourceColumnHandleId "user_id".toList)
    targetHandle := some (targetColumnHandleId "id".toList)
    label := some "fk_new_relation".toList
    data := none }

/-- The `Ref` line names the code points of the columns. -/
theorem drawn_edge_differs :
    ¬ ∀ graph : Graph, ∀ edge ∈ graph.edges, ∀ source target,
      nodeById graph.nodes edge.source = some source →
        nodeById graph.nodes edge.target = some target →
          refColumns edge = fkColumnsForEdge edge source target := by
  intro hall
  have hagree := hall ⟨[usersNode, postsNode], [drawnEdge]⟩ drawnEdge (List.mem_singleton_self _)
    postsNode usersNode rfl rfl
  have hname : HandlesName drawnEdge postsNode usersNode "user_id".toList "id".toList := by
    constructor <;> decide
  exact not_sameColumns_of_handles rfl hname (sameColumns_of_eq hagree)

end PgErdCloud.Canvas
