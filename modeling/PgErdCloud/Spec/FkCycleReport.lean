/-
  The report of `detect_fk_cycles`. The graph is that of the foreign keys between two tables, its
  components are those of `_sccs`, and an order of the tables exists where each has one table.

  `detectFkCycles_correct` is about every snapshot: there is a report, it has no cycle exactly
  when the tables can be ordered, and its cycles are the components of two tables or more.
-/
import PgErdCloud.Spec.Tarjan

namespace PgErdCloud.Spec

open Lib Lib.PyStr

/-! ## The graph -/

/-- A foreign key leads from the table to its parent. -/
def RefersBy (relations : List RelationRow) (edge : FkEdgeRow) (child parent : Str) : Prop :=
  qname relations edge.childRelationOid = some child ∧
    qname relations edge.parentRelationOid = some parent

/-- A table refers to another with some foreign key of the snapshot. -/
def Refers (snapshot : FkSnapshot) (child parent : Str) : Prop :=
  ∃ edge ∈ snapshot.fkEdges, RefersBy snapshot.relations edge child parent

/-- The graph has the edges of the relation, but those from a table to itself. -/
structure FkGraph.Shows (graph : FkGraph) (R : Str → Str → Prop) : Prop where
  mem_nodes : ∀ v, v ∈ graph.nodes ↔ ∃ w, R v w ∨ R w v
  mem_adj : ∀ v w, w ∈ (graph.adj.get? v).getD [] ↔ R v w ∧ v ≠ w

theorem FkGraph.Shows.of_iff {graph : FkGraph} {R R' : Str → Str → Prop} (h : graph.Shows R)
    (hiff : ∀ v w, R v w ↔ R' v w) : graph.Shows R' := by
  have heq : R = R' := funext fun v => funext fun w => propext (hiff v w)
  rwa [← heq]

theorem shows_addEdge {relations : List RelationRow} {graph : FkGraph} {R : Str → Str → Prop}
    (h : graph.Shows R) (edge : FkEdgeRow) :
    (addEdge relations graph edge).Shows fun v w => R v w ∨ RefersBy relations edge v w := by
  rw [addEdge]
  split
  case h_1 child parent hchild hparent =>
    have hrefers (v w : Str) : RefersBy relations edge v w ↔ v = child ∧ w = parent := by
      rw [RefersBy, hchild, hparent, Option.some_inj, Option.some_inj, eq_comm,
        @eq_comm _ parent]
    have hnodes (v : Str) : v ∈ setAdd parent (setAdd child graph.nodes) ↔
        ∃ w, (R v w ∨ RefersBy relations edge v w) ∨ (R w v ∨ RefersBy relations edge w v) := by
      simp only [mem_setAdd, h.mem_nodes, hrefers]
      constructor
      · rintro (rfl | rfl | ⟨w, hw | hw⟩)
        · exact ⟨child, .inr (.inr ⟨rfl, rfl⟩)⟩
        · exact ⟨parent, .inl (.inr ⟨rfl, rfl⟩)⟩
        · exact ⟨w, .inl (.inl hw)⟩
        · exact ⟨w, .inr (.inl hw)⟩
      · rintro ⟨w, (hw | ⟨rfl, -⟩) | (hw | ⟨-, rfl⟩)⟩
        · exact .inr (.inr ⟨w, .inl hw⟩)
        · exact .inr (.inl rfl)
        · exact .inr (.inr ⟨w, .inr hw⟩)
        · exact .inl rfl
    split_ifs with hself
    · refine ⟨hnodes, fun v w => ?_⟩
      rw [h.mem_adj, hrefers]
      constructor
      · exact fun hvw => ⟨.inl hvw.1, hvw.2⟩
      · rintro ⟨hvw | ⟨rfl, rfl⟩, hne⟩
        · exact ⟨hvw, hne⟩
        · exact absurd hself hne
    · refine ⟨hnodes, fun v w => ?_⟩
      rw [hrefers, Dict.get?_set]
      split_ifs with hv
      · rw [Option.getD_some, mem_setAdd, h.mem_adj, ← hv]
        constructor
        · rintro (rfl | hvw)
          · exact ⟨.inr ⟨rfl, rfl⟩, fun he => hself (hv ▸ he)⟩
          · exact ⟨.inl hvw.1, hvw.2⟩
        · rintro ⟨hvw | ⟨-, rfl⟩, hne⟩
          · exact .inr ⟨hvw, hne⟩
          · exact .inl rfl
      · rw [h.mem_adj]
        constructor
        · exact fun hvw => ⟨.inl hvw.1, hvw.2⟩
        · rintro ⟨hvw | ⟨rfl, -⟩, hne⟩
          · exact ⟨hvw, hne⟩
          · exact absurd rfl hv
  case h_2 hnone =>
    refine h.of_iff fun v w => ⟨.inl, fun hvw => hvw.resolve_right fun hrefers => ?_⟩
    exact hnone v w hrefers.1 hrefers.2

theorem shows_foldl_addEdge {relations : List RelationRow} (edges : List FkEdgeRow)
    {graph : FkGraph} {R : Str → Str → Prop} (h : graph.Shows R) :
    (edges.foldl (addEdge relations) graph).Shows fun v w =>
      R v w ∨ ∃ edge ∈ edges, RefersBy relations edge v w := by
  induction edges generalizing graph R with
  | nil =>
      refine h.of_iff fun v w => ⟨.inl, fun hvw => hvw.resolve_right ?_⟩
      rintro ⟨edge, hedge, -⟩
      exact absurd hedge List.not_mem_nil
  | cons edge edges ih =>
      refine (ih (shows_addEdge h edge)).of_iff fun v w => ?_
      rw [List.exists_mem_cons_iff, or_assoc]

theorem shows_fkGraph (snapshot : FkSnapshot) : (fkGraph snapshot).Shows (Refers snapshot) := by
  have hempty : (⟨.empty, [], []⟩ : FkGraph).Shows fun _ _ => False :=
    ⟨fun v => by simp, fun v w => by simp⟩
  refine (shows_foldl_addEdge snapshot.fkEdges hempty).of_iff fun v w => ?_
  rw [false_or, Refers]

theorem mem_labels_of_qname {relations : List RelationRow} {oid : Option Int} {v : Str}
    (h : qname relations oid = some v) : v ∈ relations.map RelationRow.label := by
  obtain ⟨rel, hrel, rfl⟩ := Option.map_eq_some_iff.mp h
  exact List.mem_map_of_mem (List.mem_reverse.mp (List.mem_of_find?_eq_some hrel))

theorem mem_sortedNames {names : List Str} {v : Str} : v ∈ sortedNames names ↔ v ∈ names :=
  List.mem_insertionSort _

theorem edge_successors_iff (snapshot : FkSnapshot) (v w : Str) :
    Edge (fkGraph snapshot).successors v w ↔ Refers snapshot v w ∧ v ≠ w := by
  rw [Edge, FkGraph.successors, mem_sortedNames, (shows_fkGraph snapshot).mem_adj]

theorem mutual_successors_iff (snapshot : FkSnapshot) (v w : Str) :
    Mutual (Edge (fkGraph snapshot).successors) v w ↔ Mutual (Refers snapshot) v w := by
  have heq : Edge (fkGraph snapshot).successors = fun v w => Refers snapshot v w ∧ v ≠ w :=
    funext fun v => funext fun w => propext (edge_successors_iff snapshot v w)
  rw [heq, mutual_ne_iff]

/-! ## The items -/

/-- `detect_fk_cycles` returns a report, and its circular items are the components of at least
    two tables. -/
theorem exists_detectFkCycles (snapshot : FkSnapshot) : ∃ report comps,
    detectFkCycles snapshot = some report ∧
    Components (fkGraph snapshot).successors (sortedNames (fkGraph snapshot).nodes) comps ∧
    ∀ item, item ∈ report.items ∧ item.category = .circularDependency ↔
      ∃ comp ∈ comps, 2 ≤ comp.length ∧ item = circularItem comp := by
  have hadj : ∀ v ∈ sortedNames (fkGraph snapshot).nodes, ∀ w ∈ (fkGraph snapshot).successors v,
      w ∈ sortedNames (fkGraph snapshot).nodes := by
    intro v _ w hw
    have hrefers := ((edge_successors_iff snapshot v w).mp hw).1
    exact mem_sortedNames.mpr (((shows_fkGraph snapshot).mem_nodes w).mpr ⟨v, .inr hrefers⟩)
  obtain ⟨comps, hcomps, hcomponents⟩ := exists_components hadj
  refine ⟨_, comps, by rw [detectFkCycles, hcomps]; rfl, hcomponents, fun item => ?_⟩
  rw [List.mem_insertionSort, List.mem_append, List.mem_map, List.mem_map]
  constructor
  · rintro ⟨⟨comp, hcomp, rfl⟩ | ⟨table, -, rfl⟩, hcategory⟩
    · obtain ⟨hcomp, hlength⟩ := List.mem_filter.mp hcomp
      exact ⟨comp, hcomp, of_decide_eq_true hlength, rfl⟩
    · exact CycleCategory.noConfusion hcategory
  · rintro ⟨comp, hcomp, hlength, rfl⟩
    exact ⟨.inl ⟨comp, List.mem_filter.mpr ⟨hcomp, decide_eq_true hlength⟩, rfl⟩, rfl⟩

theorem nontrivial_iff_of_nodup {α : Type} {xs : List α} (h : xs.Nodup) :
    {x | x ∈ xs}.Nontrivial ↔ 2 ≤ xs.length := by
  constructor
  · rintro ⟨x, hx, y, hy, hne⟩
    match xs, hx, hy with
    | [z], hx, hy =>
        exact absurd ((List.mem_singleton.mp hx).trans (List.mem_singleton.mp hy).symm) hne
    | _ :: _ :: xs, _, _ => exact Nat.le_add_left 2 xs.length
  · intro hlength
    match xs, h, hlength with
    | x :: y :: xs, h, _ =>
        refine ⟨x, List.mem_cons_self, y, List.mem_cons_of_mem _ List.mem_cons_self, fun he => ?_⟩
        exact (List.nodup_cons.mp h).1 (he ▸ List.mem_cons_self)

/-- A class of tables that lead to each other. -/
def IsComponent (R : Str → Str → Prop) (tables : Set Str) : Prop :=
  ∃ v, tables = {w | Mutual R v w}

section
variable {snapshot : FkSnapshot} {comps : List (List Str)}
  (h : Components (fkGraph snapshot).successors (sortedNames (fkGraph snapshot).nodes) comps)
include h

theorem Components.eq_class {comp : List Str} (hcomp : comp ∈ comps) {v : Str} (hv : v ∈ comp) :
    {w | w ∈ comp} = {w | Mutual (Refers snapshot) v w} := by
  ext w
  exact (h.mem_iff comp hcomp v hv w).trans (mutual_successors_iff snapshot v w)

theorem Components.nontrivial_iff {comp : List Str} (hcomp : comp ∈ comps) :
    {w | w ∈ comp}.Nontrivial ↔ 2 ≤ comp.length :=
  nontrivial_iff_of_nodup ((List.nodup_flatten.mp h.nodup).1 comp hcomp)

/-- Two tables that lead to each other are in a component. -/
theorem Components.exists_of_mutual {v w : Str} (hmutual : Mutual (Refers snapshot) v w)
    (hne : v ≠ w) : ∃ comp ∈ comps, v ∈ comp := by
  obtain ⟨x, hx⟩ := exists_step_of_reach hmutual.1 hne
  have hnodes := ((shows_fkGraph snapshot).mem_nodes v).mpr ⟨x, .inl hx⟩
  exact List.mem_flatten.mp ((h.mem_flatten v).mpr (mem_sortedNames.mpr hnodes))

/-- The components of at least two tables are those of the relation. -/
theorem Components.exists_iff (tables : Set Str) :
    (∃ comp ∈ comps, 2 ≤ comp.length ∧ tables = {w | w ∈ comp}) ↔
      IsComponent (Refers snapshot) tables ∧ tables.Nontrivial := by
  constructor
  · rintro ⟨comp, hcomp, hlength, rfl⟩
    obtain ⟨v, hv⟩ := List.exists_mem_of_ne_nil comp (h.ne_nil comp hcomp)
    exact ⟨⟨v, h.eq_class hcomp hv⟩, (h.nontrivial_iff hcomp).mpr hlength⟩
  · rintro ⟨⟨v, rfl⟩, hnontrivial⟩
    obtain ⟨w, hw, hne⟩ := hnontrivial.exists_ne v
    obtain ⟨comp, hcomp, hv⟩ := h.exists_of_mutual hw hne.symm
    have heq := h.eq_class hcomp hv
    exact ⟨comp, hcomp, (h.nontrivial_iff hcomp).mp (heq ▸ hnontrivial), heq.symm⟩

end

/-- **The tables have an order in which every parent stands before its child exactly where no
    circular dependency is reported, and what is reported are the strongly connected components
    of at least two tables.** -/
theorem detectFkCycles_correct (snapshot : FkSnapshot) :
    ∃ report, detectFkCycles snapshot = some report ∧
      ((∃ order : List Str, order.Perm (snapshot.relations.map RelationRow.label) ∧
          TargetsFirst (Refers snapshot) order) ↔
        ∀ item ∈ report.items, item.category ≠ .circularDependency) ∧
      ∀ tables : Set Str,
        (∃ item ∈ report.items, item.category = .circularDependency ∧
          tables = {t | t ∈ item.tables}) ↔
        IsComponent (Refers snapshot) tables ∧ tables.Nontrivial := by
  obtain ⟨report, comps, hreport, hcomponents, hitems⟩ := exists_detectFkCycles snapshot
  have htables (tables : Set Str) :
      (∃ item ∈ report.items, item.category = .circularDependency ∧
        tables = {t | t ∈ item.tables}) ↔
      IsComponent (Refers snapshot) tables ∧ tables.Nontrivial := by
    rw [← hcomponents.exists_iff]
    constructor
    · rintro ⟨item, hitem, hcategory, rfl⟩
      obtain ⟨comp, hcomp, hlength, rfl⟩ := (hitems item).mp ⟨hitem, hcategory⟩
      exact ⟨comp, hcomp, hlength, Set.ext fun t => mem_sortedNames⟩
    · rintro ⟨comp, hcomp, hlength, rfl⟩
      obtain ⟨hitem, hcategory⟩ := (hitems _).mpr ⟨comp, hcomp, hlength, rfl⟩
      exact ⟨_, hitem, hcategory, Set.ext fun t => mem_sortedNames.symm⟩
  have hlabels : ∀ v w, Refers snapshot v w → v ∈ snapshot.relations.map RelationRow.label ∧
      w ∈ snapshot.relations.map RelationRow.label := by
    rintro v w ⟨edge, -, hv, hw⟩
    exact ⟨mem_labels_of_qname hv, mem_labels_of_qname hw⟩
  refine ⟨report, hreport, (exists_targetsFirst_iff hlabels).trans ⟨?_, ?_⟩, htables⟩
  · intro hmutual item hitem hcategory
    obtain ⟨⟨v, hv⟩, hnontrivial⟩ := (htables _).mp ⟨item, hitem, hcategory, rfl⟩
    obtain ⟨w, hw, hne⟩ := hnontrivial.exists_ne v
    rw [hv] at hw
    exact hne (hmutual v w hw).symm
  · intro hnone v w hmutual
    by_contra hne
    obtain ⟨item, hitem, hcategory, -⟩ := (htables {x | Mutual (Refers snapshot) v x}).mpr
      ⟨⟨v, rfl⟩, v, .refl v, w, hmutual, hne⟩
    exact hnone item hitem hcategory

end PgErdCloud.Spec
