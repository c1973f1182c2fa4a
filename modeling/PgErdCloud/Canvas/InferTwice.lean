/-
  Inferring relationships more than one time (App.tsx, erd/autoInfer.ts). What is inferred
  depends on the nodes only, and is put behind the edges that are there, so that a second time
  adds it again, under the ids of the first.

  `infersOnce_iff_everyStep` is about every run: inferring is idempotent in all its states exactly
  when nothing is ever inferred. The function that draws an edge is a parameter with its
  documented behaviour (`AddsEdges`).
-/
import PgErdCloud.Canvas.InferTargets
import PgErdCloud.Canvas.SnapshotEdges

namespace PgErdCloud.Canvas

open Lib Lib.PyStr

/-! ## The machine -/

/-- The actions that bring edges. -/
inductive CanvasAction
  | load (snapshot : SnapshotJson)
  | connect (source target : Str) (sourceHandle targetHandle : Option Str) (now : Nat)
  | infer

/-- Such an action as one of all. -/
def CanvasAction.action : CanvasAction → Action
  | .load snapshot => .loadSnapshot snapshot
  | .connect source target sourceHandle targetHandle now =>
      .connect source target sourceHandle targetHandle now
  | .infer => .inferRelationships

variable (addEdge : Edge → List Edge → List Edge)

/-- A step of the editor that brings edges. -/
def canvasStep (s : Editor) (a : CanvasAction) : Option Editor := step addEdge s a.action

/-! ## What is claimed of a state -/

/-- The edge is drawn between the two columns. -/
def Edge.joins (edge : Edge) (source sourceCol target targetCol : Str) : Prop :=
  edge.source = source ∧ edge.target = target ∧
    (edge.data = some ⟨some [sourceCol], some [targetCol]⟩ ∨
      (edge.sourceHandle = some (sourceColumnHandleId sourceCol) ∧
        edge.targetHandle = some (targetColumnHandleId targetCol)))

/-- Ids of edges are different, a second inference changes nothing after a first, and what is
    inferred is not there yet. -/
structure InfersOnce (s : Editor) : Prop where
  ids : (s.edges.map Edge.id).Nodup
  again : ∀ t u, canvasStep addEdge s .infer = some t → canvasStep addEdge t .infer = some u →
    u.edges = t.edges
  pairs : ∀ source sourceCol target targetCol,
    (∃ edge ∈ inferRelationships s.nodes, edge.joins source sourceCol target targetCol) →
      ∀ other ∈ s.edges, ¬ other.joins source sourceCol target targetCol

variable {addEdge}

/-- No column of a node leads to another table. -/
def Quiet (nodes : List TableNode) : Prop :=
  ∀ source ∈ nodes, ∀ column ∈ source.columns, Matches nodes source column.columnName →
    ∀ target, nodeByTableName nodes
        (sanitizeTableName (inferTargetTableName nodes column.columnName)) = some target →
      inferTargetColumn target.columns = []

theorem inferRelationships_eq_nil_iff {nodes : List TableNode} :
    inferRelationships nodes = [] ↔ Quiet nodes := by
  have hcolumn : ∀ source column, inferEdge nodes source column = none ↔
      (Matches nodes source column.columnName → ∀ target, nodeByTableName nodes
        (sanitizeTableName (inferTargetTableName nodes column.columnName)) = some target →
          inferTargetColumn target.columns = []) := by
    intro source column
    rw [inferEdge_eq, Option.map_eq_none_iff, Option.eq_none_iff_forall_not_mem]
    constructor
    · intro h hmatches target htarget
      by_contra hcol
      exact h target (inferTarget_eq_some.mpr ⟨hmatches, htarget, hcol⟩)
    · intro h target htarget
      obtain ⟨hmatches, hfound, hcol⟩ := inferTarget_eq_some.mp htarget
      exact hcol (h hmatches target hfound)
  rw [inferRelationships, List.flatMap_eq_nil_iff]
  refine forall₂_congr fun source _ => ?_
  rw [List.filterMap_eq_nil_iff]
  exact forall₂_congr fun column _ => hcolumn source column

theorem infersOnce_iff {s : Editor} :
    InfersOnce addEdge s ↔ (s.edges.map Edge.id).Nodup ∧ Quiet s.nodes := by
  rw [← inferRelationships_eq_nil_iff]
  constructor
  · intro h
    refine ⟨h.ids, ?_⟩
    have hagain := h.again _ _ rfl rfl
    exact List.append_cancel_left (hagain.trans (List.append_nil _).symm)
  · rintro ⟨hids, hnone⟩
    refine ⟨hids, ?_, ?_⟩
    · rintro t u ht hu
      obtain rfl : _ = t := Option.some.inj ht
      obtain rfl : _ = u := Option.some.inj hu
      exact (congrArg (s.edges ++ inferRelationships s.nodes ++ ·) hnone).trans
        (List.append_nil _)
    · rintro source sourceCol target targetCol ⟨edge, hedge, -⟩
      rw [hnone] at hedge
      exact absurd hedge List.not_mem_nil

/-! ## Steps -/

/-- What keeps ids different and leaves nothing to infer: a snapshot whose columns lead to no
    other table, with constraints of different oids where these make the edges, and a
    connection at a time whose id no edge has. -/
def KeepsQuiet (s : Editor) : CanvasAction → Prop
  | .load snapshot => Quiet (snapshotToGraph snapshot).nodes ∧
      (snapshot.fkEdges = [] → ((snapshot.constraints.filter fun con =>
        con.constraintType = "f".toList).map ConstraintRow.constraintOid).Nodup)
  | .connect source target sourceHandle targetHandle now =>
      NotDrawn s.edges (connectedEdge source target sourceHandle targetHandle now) ∨
        ∀ other ∈ s.edges, other.id ≠ "edge_".toList ++ showNat now
  | .infer => True

theorem nodup_ids_snapshot {snapshot : SnapshotJson} (hwf : WellFormed snapshot) :
    ((snapshotToGraph snapshot).edges.map Edge.id).Nodup ↔
      (snapshot.fkEdges = [] → ((snapshot.constraints.filter fun con =>
        con.constraintType = "f".toList).map ConstraintRow.constraintOid).Nodup) := by
  by_cases hrows : snapshot.fkEdges = []
  · have hids : (snapshotToGraph snapshot).edges.map Edge.id =
        ((snapshot.constraints.filter fun con =>
          con.constraintType = "f".toList).map ConstraintRow.constraintOid).map showNat := by
      rw [snapshotToGraph, snapshotEdges, if_neg (not_not.mpr hrows), List.map_map, List.map_map]
      rfl
    rw [hids, List.nodup_map_iff fun _ _ => showNat_injective]
    exact ⟨fun hnodup _ => hnodup, fun hnodup => hnodup hrows⟩
  · obtain ⟨-, -, -, -, hnodup⟩ := snapshotEdges_carry snapshot hrows hwf.foreignKeys
    exact iff_of_true hnodup fun hnone => absurd hnone hrows

theorem infersOnce_step_iff (hadds : AddsEdges addEdge) {s t : Editor} {a : CanvasAction}
    (hs : InfersOnce addEdge s) (h : canvasStep addEdge s a = some t) :
    InfersOnce addEdge t ↔ KeepsQuiet s a := by
  obtain ⟨hids, hquiet⟩ := infersOnce_iff.mp hs
  rw [infersOnce_iff]
  cases a with
  | load snapshot =>
      simp only [canvasStep, CanvasAction.action, step] at h
      split_ifs at h with hwf
      obtain rfl := Option.some.inj h
      exact and_comm.trans (and_congr_right fun _ => nodup_ids_snapshot hwf)
  | connect source target sourceHandle targetHandle now =>
      simp only [canvasStep, CanvasAction.action, step] at h
      split_ifs at h with hoffered
      obtain rfl := Option.some.inj h
      by_cases hdrawn : NotDrawn s.edges
          (connectedEdge source target sourceHandle targetHandle now)
      · refine iff_of_true ⟨?_, hquiet⟩ (Or.inl hdrawn)
        rw [hadds.refused _ _ hdrawn]
        exact hids
      · rw [KeepsQuiet, or_iff_right hdrawn, hadds.added _ _ hdrawn, and_iff_left hquiet,
          List.map_append, List.nodup_append]
        constructor
        · rintro ⟨-, -, hne⟩ other hother he
          exact hne _ (List.mem_map_of_mem hother) _ (List.mem_singleton_self _) he
        · intro hnew
          refine ⟨hids, List.nodup_singleton _, ?_⟩
          intro id hid id' hid'
          obtain ⟨other, hother, rfl⟩ := List.mem_map.mp hid
          rw [List.mem_singleton.mp hid']
          exact hnew other hother
  | infer =>
      obtain rfl := Option.some.inj h
      refine iff_of_true ⟨?_, hquiet⟩ trivial
      rw [inferRelationships_eq_nil_iff.mpr hquiet, List.append_nil]
      exact hids

/-- **Inferring once is enough** in every state of a run exactly when each of its steps leaves
    nothing to infer and each new edge has a new id. -/
theorem infersOnce_iff_everyStep (hadds : AddsEdges addEdge) {actions : List CanvasAction}
    {t : Editor} (h : run (canvasStep addEdge) Editor.initial actions = some t) :
    (∀ before after u, actions = before ++ after →
      run (canvasStep addEdge) Editor.initial before = some u → InfersOnce addEdge u) ↔
        EveryStep (canvasStep addEdge) KeepsQuiet Editor.initial actions := by
  have hinitial : InfersOnce addEdge Editor.initial :=
    infersOnce_iff.mpr ⟨List.nodup_nil, fun _ hsource => absurd hsource List.not_mem_nil⟩
  have hiff : ∀ s a t, True → InfersOnce addEdge s → canvasStep addEdge s a = some t →
      (InfersOnce addEdge t ↔ KeepsQuiet s a) :=
    fun _ _ _ _ hs hst => infersOnce_step_iff hadds hs hst
  exact forall_state_iff_everyStep (fun _ _ _ _ _ => trivial) hiff trivial hinitial h

/-- A table without references, and an edge that is drawn from it to itself. -/
def loneTable : SnapshotJson where
  relations := [⟨1, "r".toList, "public".toList, "nodes".toList, none⟩]
  columns := [⟨1, "id".toList, "integer".toList, true, none⟩]
  pkColumns := [⟨1, "id".toList⟩]
  fkEdges := []
  constraints := []

/-- A table, an edge to itself that is drawn by hand, and an inference. -/
def drawAndInfer : List CanvasAction :=
  [.load loneTable, .connect "1".toList "1".toList none none 5, .infer]

theorem infersOnce_iff_at_drawAndInfer :
    ∃ t, run (canvasStep appendNewEdge) Editor.initial drawAndInfer = some t ∧
      t.edges.length = 1 ∧ ∀ before after u, drawAndInfer = before ++ after →
        run (canvasStep appendNewEdge) Editor.initial before = some u →
          InfersOnce appendNewEdge u := by
  obtain ⟨t, ht, hedges⟩ : ∃ t, run (canvasStep appendNewEdge) Editor.initial drawAndInfer =
      some t ∧ t.edges.length = 1 :=
    ⟨_, rfl, rfl⟩
  refine ⟨t, ht, hedges, (infersOnce_iff_everyStep addsEdges_appendNewEdge ht).mpr
    fun before a after u he hu => ?_⟩
  rcases before with _ | ⟨b, _ | ⟨c, _ | ⟨d, before⟩⟩⟩
  · obtain ⟨rfl, -⟩ := List.cons.inj he
    refine ⟨fun source hsource column hcolumn hmatches => ?_, fun _ => List.nodup_nil⟩
    obtain rfl := List.mem_singleton.mp hsource
    obtain rfl := List.mem_singleton.mp hcolumn
    exact absurd hmatches.1 (by decide)
  · obtain ⟨rfl, htail⟩ := List.cons.inj he
    obtain ⟨rfl, -⟩ := List.cons.inj htail
    obtain rfl := Option.some.inj hu
    exact Or.inr fun other hother => absurd hother List.not_mem_nil
  · obtain ⟨-, htail⟩ := List.cons.inj he
    obtain ⟨-, htail⟩ := List.cons.inj htail
    obtain ⟨rfl, -⟩ := List.cons.inj htail
    trivial
  · exact absurd (congrArg List.length he) (by simp [drawAndInfer])

/-- The foreign key of a post to its user is declared; inferring draws a second edge, and a
    third one when it is done again. -/
theorem not_infersOnce_postsSnapshot :
    ¬ ∀ u, run (canvasStep appendNewEdge) Editor.initial [.load postsSnapshot] = some u →
      InfersOnce appendNewEdge u := by
  intro h
  have hagain := (h _ rfl).again _ _ rfl rfl
  exact absurd (congrArg List.length hagain) (by decide)

end PgErdCloud.Canvas
