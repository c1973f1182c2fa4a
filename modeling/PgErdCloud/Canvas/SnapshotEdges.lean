/-
  The foreign keys of a snapshot as edges of the diagram (`snapshotToGraph` of erd/convert.ts).
  The rows of a key come in any order and mixed with those of other keys. They are grouped by
  the oid of the constraint and sorted by ordinal, so that each key is one edge with all its
  rows.

  `snapshotEdges_carry` says so of every snapshot with such rows, where the rows of an oid agree
  on what they say of the whole key.
-/
import PgErdCloud.Canvas.Integrity

namespace PgErdCloud.Canvas

open Lib Lib.PyStr

/-- The rows of a foreign key. -/
def constraintRows (rows : List FkEdge) (oid : Nat) : List FkEdge :=
  rows.filter fun row => row.fkConstraintOid = oid

/-- The edge joins the child and the parent of the foreign key, and carries all of its rows in
    the order of their ordinals. -/
structure Carries (rows : List FkEdge) (oid : Nat) (edge : Edge) : Prop where
  id : edge.id = showNat oid
  ends : ∀ row ∈ constraintRows rows oid,
    edge.source = showNat row.childRelationOid ∧ edge.target = showNat row.parentRelationOid
  columns : ∃ ordered : List FkEdge, ordered.Perm (constraintRows rows oid) ∧
    ordered.Pairwise (fun a b => a.columnOrdinal ≤ b.columnOrdinal) ∧
    edge.data = some ⟨some (ordered.map FkEdge.childColumnName),
      some (ordered.map FkEdge.parentColumnName)⟩

/-- Rows of one foreign key have one child and one parent. -/
def OneKey (rows : List FkEdge) : Prop :=
  ∀ row ∈ rows, ∀ other ∈ rows, row.fkConstraintOid = other.fkConstraintOid →
    row.childRelationOid = other.childRelationOid ∧
      row.parentRelationOid = other.parentRelationOid

/-- A group is all rows of its key, and there is one. -/
theorem mem_groupByConstraint {rows : List FkEdge} {e : Nat × List FkEdge} :
    e ∈ (groupByConstraint rows).items ↔
      constraintRows rows e.1 ≠ [] ∧ e.2 = constraintRows rows e.1 := by
  have h := @Dict.mem_foldl_groupAt Nat _ FkEdge FkEdge (fun row => some row.fkConstraintOid) id
    rows e
  simpa [constraintRows, groupByConstraint, Dict.groupAt] using h

/-- A key with rows has an edge, and it carries them. -/
theorem exists_groupEdge {rows : List FkEdge} (hkey : OneKey rows) {oid : Nat}
    (hne : constraintRows rows oid ≠ []) :
    ∃ edge, groupEdge (constraintRows rows oid) = some edge ∧ Carries rows oid edge := by
  have hperm : (sortRows (constraintRows rows oid)).Perm (constraintRows rows oid) :=
    List.perm_insertionSort _ _
  have hsorted : (sortRows (constraintRows rows oid)).Pairwise
      fun a b => a.columnOrdinal ≤ b.columnOrdinal :=
    List.pairwise_insertionSort (fun a b : FkEdge => a.columnOrdinal ≤ b.columnOrdinal) _
  cases hrows : sortRows (constraintRows rows oid) with
  | nil =>
      rw [hrows] at hperm
      exact absurd hperm.nil_eq.symm hne
  | cons first rest =>
      rw [hrows] at hperm hsorted
      have hfirst : first ∈ constraintRows rows oid := hperm.mem_iff.mp List.mem_cons_self
      obtain ⟨hmem, hoid⟩ := List.mem_filter.mp hfirst
      have hoid : first.fkConstraintOid = oid := of_decide_eq_true hoid
      refine ⟨foreignKeyEdge first rest, by rw [groupEdge, hrows], ?_⟩
      refine ⟨by rw [← hoid]; rfl, ?_, first :: rest, hperm, hsorted, rfl⟩
      intro row hrow
      obtain ⟨hrow, hrowOid⟩ := List.mem_filter.mp hrow
      have hsame := hkey first hmem row hrow (hoid.trans (of_decide_eq_true hrowOid).symm)
      exact ⟨congrArg showNat hsame.1, congrArg showNat hsame.2⟩

/-- Entry by entry, the groups become the edges. -/
theorem forall₂_filterMap_values {rows : List FkEdge} (hkey : OneKey rows)
    {items : List (Nat × List FkEdge)}
    (h : ∀ e ∈ items, constraintRows rows e.1 ≠ [] ∧ e.2 = constraintRows rows e.1) :
    List.Forall₂ (Carries rows) (items.map Prod.fst)
      ((items.map Prod.snd).filterMap groupEdge) := by
  induction items with
  | nil => exact .nil
  | cons e items ih =>
      obtain ⟨hne, hgroup⟩ := h e List.mem_cons_self
      obtain ⟨edge, hedge, hcarries⟩ := exists_groupEdge hkey hne
      rw [← hgroup] at hedge
      rw [List.map_cons, List.map_cons, List.filterMap_cons_some hedge]
      exact .cons hcarries (ih fun d hd => h d (List.mem_cons_of_mem e hd))

theorem map_id_of_carries {rows : List FkEdge} {oids : List Nat} {edges : List Edge}
    (h : List.Forall₂ (Carries rows) oids edges) : edges.map Edge.id = oids.map showNat := by
  induction h with
  | nil => rfl
  | cons hedge _ ih => rw [List.map_cons, List.map_cons, hedge.id, ih]

/-- **One edge for each foreign key**: the edges of a snapshot correspond to the oids of its
    foreign keys, have different ids, join child and parent, and each carries the rows of its
    key in order. -/
theorem snapshotEdges_carry (snapshot : SnapshotJson) (hrows : snapshot.fkEdges ≠ [])
    (hkey : OneKey snapshot.fkEdges) :
    ∃ oids : List Nat, oids.Nodup ∧
      (∀ oid, oid ∈ oids ↔ ∃ row ∈ snapshot.fkEdges, row.fkConstraintOid = oid) ∧
      List.Forall₂ (Carries snapshot.fkEdges) oids (snapshotToGraph snapshot).edges ∧
      ((snapshotToGraph snapshot).edges.map Edge.id).Nodup := by
  have hedges : (snapshotToGraph snapshot).edges =
      (groupByConstraint snapshot.fkEdges).values.filterMap groupEdge := by
    rw [snapshotToGraph, snapshotEdges, if_pos hrows]
  have hcarry : List.Forall₂ (Carries snapshot.fkEdges) (groupByConstraint snapshot.fkEdges).keys
      (snapshotToGraph snapshot).edges := by
    rw [hedges]
    exact forall₂_filterMap_values hkey fun e he => mem_groupByConstraint.mp he
  have hnodup : (groupByConstraint snapshot.fkEdges).keys.Nodup :=
    (groupByConstraint snapshot.fkEdges).nodup
  refine ⟨_, hnodup, ?_, hcarry, ?_⟩
  · intro oid
    rw [Dict.mem_keys_iff]
    constructor
    · rintro ⟨group, hgroup⟩
      obtain ⟨hne, -⟩ := mem_groupByConstraint.mp (Dict.mem_items_iff.mpr hgroup)
      obtain ⟨row, hrow⟩ := List.exists_mem_of_ne_nil _ hne
      obtain ⟨hmem, hoid⟩ := List.mem_filter.mp hrow
      exact ⟨row, hmem, of_decide_eq_true hoid⟩
    · rintro ⟨row, hrow, rfl⟩
      have hmem : row ∈ constraintRows snapshot.fkEdges row.fkConstraintOid :=
        List.mem_filter.mpr ⟨hrow, decide_eq_true rfl⟩
      have hgroup : (row.fkConstraintOid, constraintRows snapshot.fkEdges row.fkConstraintOid) ∈
          (groupByConstraint snapshot.fkEdges).items :=
        mem_groupByConstraint.mpr ⟨List.ne_nil_of_mem hmem, rfl⟩
      exact ⟨_, Dict.mem_items_iff.mp hgroup⟩
  · rw [map_id_of_carries hcarry]
    exact hnodup.map fun _ _ => showNat_injective

/-- Two foreign keys of two columns each, with their rows mixed and out of order. -/
def mixedKeys : SnapshotJson where
  relations := []
  columns := []
  pkColumns := []
  fkEdges :=
    [⟨7, "line_item".toList, 3, 4, "item_no".toList, "no".toList, 2⟩,
      ⟨9, "line_order".toList, 3, 5, "order_id".toList, "id".toList, 1⟩,
      ⟨7, "line_item".toList, 3, 4, "item_kind".toList, "kind".toList, 1⟩,
      ⟨9, "line_order".toList, 3, 5, "order_year".toList, "year".toList, 2⟩]
  constraints := []

theorem snapshotEdges_carry_mixedKeys :
    ∃ oids : List Nat, oids.Nodup ∧
      (∀ oid, oid ∈ oids ↔ ∃ row ∈ mixedKeys.fkEdges, row.fkConstraintOid = oid) ∧
      List.Forall₂ (Carries mixedKeys.fkEdges) oids (snapshotToGraph mixedKeys).edges ∧
      ((snapshotToGraph mixedKeys).edges.map Edge.id).Nodup :=
  snapshotEdges_carry mixedKeys (by decide) (by unfold OneKey; decide)

end PgErdCloud.Canvas
