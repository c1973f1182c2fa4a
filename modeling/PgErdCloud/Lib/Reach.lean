/-
  Reachability over a relation. The elements of a finite list can be put in an order in which
  every one comes behind those that it leads to exactly when no two of them lead to each other.
  Nothing here belongs to one program.
-/
import Mathlib

namespace PgErdCloud.Lib

open Relation

variable {α : Type} {R : α → α → Prop} {v w x : α}

/-! ## Mutual reachability -/

/-- Each leads to the other. -/
def Mutual (R : α → α → Prop) (v w : α) : Prop := ReflTransGen R v w ∧ ReflTransGen R w v

theorem Mutual.refl (v : α) : Mutual R v v := ⟨.refl, .refl⟩

theorem Mutual.symm (h : Mutual R v w) : Mutual R w v := ⟨h.2, h.1⟩

theorem Mutual.trans (h : Mutual R v w) (h' : Mutual R w x) : Mutual R v x :=
  ⟨h.1.trans h'.1, h'.2.trans h.2⟩

/-- The steps from an element to itself do not matter. -/
theorem reach_ne_iff : ReflTransGen (fun v w => R v w ∧ v ≠ w) v w ↔ ReflTransGen R v w := by
  constructor
  · exact ReflTransGen.mono (fun v w h => h.1) v w
  · intro h
    induction h with
    | refl => exact .refl
    | @tail w x _ hstep ih =>
        by_cases hne : w = x
        · rwa [← hne]
        · exact ih.tail ⟨hstep, hne⟩

theorem mutual_ne_iff : Mutual (fun v w => R v w ∧ v ≠ w) v w ↔ Mutual R v w :=
  and_congr reach_ne_iff reach_ne_iff

/-- What leads to another element has a step. -/
theorem exists_step_of_reach (h : ReflTransGen R v w) (hne : v ≠ w) : ∃ x, R v x := by
  rcases ReflTransGen.cases_head h with rfl | ⟨x, hx, -⟩
  · exact absurd rfl hne
  · exact ⟨x, hx⟩

/-! ## Orders -/

variable [DecidableEq α] {nodes order : List α}

/-- Every element comes behind those it has a step to. -/
def TargetsFirst (R : α → α → Prop) (order : List α) : Prop :=
  ∀ v w, R v w → v ≠ w → order.idxOf w < order.idxOf v

theorem TargetsFirst.idxOf_le (h : TargetsFirst R order) (hreach : ReflTransGen R v w) :
    order.idxOf w ≤ order.idxOf v := by
  induction hreach with
  | refl => exact Nat.le_refl _
  | @tail w x _ hstep ih =>
      by_cases hne : w = x
      · rwa [← hne]
      · exact Nat.le_of_lt (Nat.lt_of_lt_of_le (h w x hstep hne) ih)

theorem eq_of_targetsFirst (h : TargetsFirst R order) (hsteps : ∀ v w, R v w → v ∈ order)
    (hmutual : Mutual R v w) : v = w := by
  by_contra hne
  obtain ⟨x, hx⟩ := exists_step_of_reach hmutual.1 hne
  have heq := Nat.le_antisymm (h.idxOf_le hmutual.2) (h.idxOf_le hmutual.1)
  exact hne ((List.idxOf_inj (hsteps v x hx)).mp heq)

/-- Reachability is extended to a linear order, and the elements are sorted by it. -/
theorem exists_targetsFirst (hsteps : ∀ v w, R v w → v ∈ nodes ∧ w ∈ nodes)
    (hmutual : ∀ v w, Mutual R v w → v = w) : ∃ order, order.Perm nodes ∧ TargetsFirst R order := by
  classical
  have hpartial : IsPartialOrder α (ReflTransGen R) :=
    { refl := fun _ => .refl
      trans := fun _ _ _ => ReflTransGen.trans
      antisymm := fun v w h h' => hmutual v w ⟨h, h'⟩ }
  obtain ⟨le, hle, hextends⟩ := extend_partialOrder (ReflTransGen R)
  have htotal : Std.Total fun v w => le w v := ⟨fun v w => hle.total w v⟩
  have htrans : IsTrans α fun v w => le w v := ⟨fun v w x h h' => hle.trans x w v h' h⟩
  let order := nodes.insertionSort fun v w => le w v
  have hperm : order.Perm nodes := List.perm_insertionSort _ nodes
  have hsorted : order.Pairwise fun v w => le w v := List.pairwise_insertionSort _ nodes
  refine ⟨order, hperm, fun v w hstep hne => ?_⟩
  obtain ⟨hv, hw⟩ := hsteps v w hstep
  have hv : v ∈ order := hperm.mem_iff.mpr hv
  have hw : w ∈ order := hperm.mem_iff.mpr hw
  by_contra hnot
  have hlt : order.idxOf v < order.idxOf w :=
    Nat.lt_of_le_of_ne (Nat.not_lt.mp hnot) fun heq => hne ((List.idxOf_inj hv).mp heq)
  have hback := List.pairwise_iff_getElem.mp hsorted _ _ (List.idxOf_lt_length_of_mem hv)
    (List.idxOf_lt_length_of_mem hw) hlt
  rw [List.getElem_idxOf, List.getElem_idxOf] at hback
  exact hne (hle.antisymm v w (hextends v w (.single hstep)) hback)

/-- **An order with the targets first exists exactly where no two elements lead to each other.** -/
theorem exists_targetsFirst_iff (hsteps : ∀ v w, R v w → v ∈ nodes ∧ w ∈ nodes) :
    (∃ order, order.Perm nodes ∧ TargetsFirst R order) ↔ ∀ v w, Mutual R v w → v = w := by
  constructor
  · rintro ⟨order, hperm, horder⟩ v w
    exact eq_of_targetsFirst horder fun v w h => hperm.mem_iff.mpr (hsteps v w h).1
  · exact exists_targetsFirst hsteps

end PgErdCloud.Lib
