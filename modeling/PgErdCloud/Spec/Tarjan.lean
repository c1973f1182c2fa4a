/-
  `_sccs` comes to an end and returns the strongly connected components. A step keeps the
  invariant of the search and leaves less to do: the nodes that were not seen count with their
  edges, the open ones with what their iterators still yield.

  `sccs_correct` is about every finite graph whose edges lead to its nodes.
-/
import PgErdCloud.Spec.SearchInvariant

namespace PgErdCloud.Spec

open Lib Relation

variable {α : Type} [DecidableEq α] {adj : α → List α} {nodes : List α} {s : Search α} {v w p : α}

namespace Search

/-! ## Steps -/

theorem Inv.get?_low (h : Inv adj nodes s) (hv : v ∈ s.stack) :
    s.low.get? v = some (s.lowOf v) := by
  obtain ⟨l, hl⟩ := Option.isSome_iff_exists.mp (h.low_isSome v hv)
  rw [lowOf, hl, Option.getD_some]

theorem get?_index (hv : s.Seen v) : s.index.get? v = some (s.num v) := by
  obtain ⟨i, hi⟩ := Option.isSome_iff_exists.mp hv
  rw [num, hi, Option.getD_some]

theorem popRoot_eq {front under : List α}
    (hpop : popComponent v s.stack = some (front ++ [v], under)) :
    s.popRoot v = some { s with
      stack := under
      onStack := s.onStack.filter (· ∉ front ++ [v])
      result := s.result ++ [front ++ [v]] } := by
  rw [popRoot, hpop]
  rfl

/-- The last node that is open is a root. -/
theorem Inv.low_eq_of_last (h : Inv adj nodes s) (hwork : s.work = [(v, [])]) :
    s.lowOf v = s.num v := by
  have hactive : s.active = [v] := by rw [active, hwork]; rfl
  have hv : v ∈ s.stack := h.active_mem v (hactive ▸ List.mem_cons_self)
  obtain ⟨w, hw, hnum, -⟩ := h.low_reach v hv
  obtain ⟨e, he, hle⟩ := h.covered w hw
  rw [hactive, List.mem_singleton] at he
  rw [he, hnum] at hle
  exact Nat.le_antisymm (h.low_le v hv) hle

/-- A node whose iterator is at its end is closed. -/
theorem Inv.close (h : Inv adj nodes s) {below : List (α × List α)}
    (hwork : s.work = (v, []) :: below) :
    ∃ t, s.close v below = some t ∧ Inv adj nodes t ∧ t.work = below ∧ t.index = s.index := by
  have hactive : v ∈ s.active := by rw [active, hwork]; exact List.mem_cons_self
  have hv : v ∈ s.stack := h.active_mem v hactive
  have hlow := h.get?_low hv
  have hindex := get?_index (h.stack_seen v hv)
  obtain ⟨front, under, hstack, hpop⟩ := popComponent_eq hv
  rw [Search.close, hlow, hindex, Option.bind_eq_bind, Option.bind_some, Option.bind_eq_bind,
    Option.bind_some]
  cases below with
  | nil =>
      have hroot : s.lowOf v = s.num v := h.low_eq_of_last hwork
      rw [if_pos hroot, popRoot_eq hpop]
      exact ⟨_, rfl, h.pop hwork hroot hstack, rfl, rfl⟩
  | cons e below =>
      obtain ⟨p, rest⟩ := e
      have hp : p ∈ s.active := by rw [active, hwork]; simp
      have hpstack : p ∈ s.stack := h.active_mem p hp
      have hnum : s.num p < s.num v := h.num_lt_of_below hwork List.mem_cons_self
      have hne : v ≠ p := fun he => absurd hnum (by rw [he]; exact Nat.lt_irrefl _)
      have hlowp := h.get?_low hpstack
      have hreach : ∃ w ∈ s.stack, s.num w = min (s.lowOf p) (s.lowOf v) ∧ Reach adj p w := by
        rcases Nat.le_total (s.lowOf p) (s.lowOf v) with hle | hle
        · rw [Nat.min_eq_left hle]
          exact h.low_reach p hpstack
        · obtain ⟨w, hw, hnumw, hvw⟩ := h.low_reach v hv
          rw [Nat.min_eq_right hle]
          exact ⟨w, hw, hnumw, (h.reach p hp v hv (Nat.le_of_lt hnum)).trans hvw⟩
      have hset := h.setLow hp (Nat.min_le_left _ _) hreach
      have hlowv : ({ s with low := s.low.set p (min (s.lowOf p) (s.lowOf v)) } : Search α).lowOf v
          = s.lowOf v := by
        rw [lowOf, Dict.get?_set_ne _ _ hne, lowOf]
      by_cases hroot : s.lowOf v = s.num v
      · rw [if_pos hroot, popRoot_eq hpop]
        have hpopped := hset.pop hwork (hlowv.trans hroot) hstack
        refine ⟨_, ?_, hpopped, rfl, rfl⟩
        simp only [Option.bind_some, Search.lower, hlowp, Option.map_some]
      · rw [if_neg hroot]
        have hlt : s.lowOf v < s.num v := Nat.lt_of_le_of_ne (h.low_le v hv) hroot
        have hdropped := hset.drop hwork (hlowv.trans_lt hlt) (by
          rw [hlowv, lowOf, Dict.get?_set_self]
          exact Nat.min_le_right _ _)
        refine ⟨_, ?_, hdropped, rfl, rfl⟩
        simp only [Option.bind_some, Search.lower, hlowp, Option.map_some]

/-- What a step over an edge leaves: the invariant, a shorter iterator, and what was seen. -/
theorem Inv.follow (h : Inv adj nodes s) (hadj : ∀ v ∈ nodes, ∀ w ∈ adj v, w ∈ nodes)
    {rest : List α} {below : List (α × List α)} (hwork : s.work = (v, w :: rest) :: below) :
    ∃ t, s.step adj = some t ∧ Inv adj nodes t ∧
      (s.Seen w ∧ t.work = (v, rest) :: below ∧ t.index = s.index ∨
        ¬ s.Seen w ∧ w ∈ nodes ∧ t.work = (w, adj w) :: (v, rest) :: below ∧
          t.index = s.index.set w s.counter) := by
  have hactive : v ∈ s.active := by rw [active, hwork]; exact List.mem_cons_self
  have hv : v ∈ s.stack := h.active_mem v hactive
  have hvw : w ∈ adj v := h.rest_mem (v, w :: rest) (hwork ▸ List.mem_cons_self) w
    List.mem_cons_self
  have htop : s.work = [] ++ (v, w :: rest) :: below := hwork
  by_cases hseen : s.Seen w
  · have hindex := get?_index hseen
    by_cases hstack : w ∈ s.stack
    · have hreach : ∃ x ∈ s.stack, s.num x = min (s.lowOf v) (s.num w) ∧ Reach adj v x := by
        rcases Nat.le_total (s.lowOf v) (s.num w) with hle | hle
        · rw [Nat.min_eq_left hle]
          exact h.low_reach v hv
        · rw [Nat.min_eq_right hle]
          exact ⟨w, hstack, rfl, .single hvw⟩
      have htaken := (h.setLow hactive (Nat.min_le_left _ _) hreach).take htop hseen
        fun _ => ⟨v, hactive, Nat.le_refl _, by
          rw [lowOf, Dict.get?_set_self]
          exact Nat.min_le_right _ _⟩
      refine ⟨_, ?_, htaken, .inl ⟨hseen, rfl, rfl⟩⟩
      simp only [Search.step, hwork, hindex, if_pos ((h.mem_onStack w).mpr hstack), Search.lower,
        h.get?_low hv, Option.map_some, List.nil_append]
    · have htaken := h.take htop hseen fun hw => absurd hw hstack
      refine ⟨_, ?_, htaken, .inl ⟨hseen, rfl, rfl⟩⟩
      simp only [Search.step, hwork, hindex, if_neg fun hw => hstack ((h.mem_onStack w).mp hw),
        List.nil_append]
  · have hw : w ∈ nodes := hadj v (h.seen_mem v (h.stack_seen v hv)) w hvw
    have hreach : ∀ e ∈ s.active, Reach adj e w := fun e he =>
      (h.reach e he v hv (h.num_le_of_active hwork he)).tail hvw
    have hvisited := h.visit hw hseen hreach
    have hvnum : (s.visit adj w).num v ≤ (s.visit adj w).num w := by
      have hne : v ≠ w := fun he => hseen (by rw [← he]; exact h.stack_seen v hv)
      rw [num_visit_of_ne hne, num_visit_self]
      exact Nat.le_of_lt (h.num_lt v (h.stack_seen v hv))
    have hvisitwork : (s.visit adj w).work = [(w, adj w)] ++ (v, w :: rest) :: below := by
      rw [Search.visit, hwork]
      rfl
    have htaken := hvisited.take hvisitwork (seen_visit.mpr (.inl rfl)) fun _ =>
      ⟨w, List.mem_cons_self, hvnum, by rw [lowOf_visit_self, num_visit_self]⟩
    refine ⟨_, ?_, htaken, .inr ⟨hseen, hw, rfl, rfl⟩⟩
    have hindex : s.index.get? w = none := Option.not_isSome_iff_eq_none.mp hseen
    simp only [Search.step, hwork, hindex]
    rfl

/-! ## Runs -/

/-- What the nodes that were not seen will still take. -/
def unseenCost (adj : α → List α) (nodes : List α) (s : Search α) : Nat :=
  ((nodes.filter fun v => (s.index.get? v).isNone).map fun v => (adj v).length + 2).sum

/-- The steps that are left, at most. -/
def todo (adj : α → List α) (nodes : List α) (s : Search α) : Nat :=
  unseenCost adj nodes s + (s.work.map fun e => e.2.length + 1).sum

theorem unseenCost_le (adj : α → List α) (nodes : List α) (s : Search α) :
    unseenCost adj nodes s ≤ searchFuel adj nodes :=
  List.Sublist.sum_le_sum (List.filter_sublist.map _) fun _ _ => Nat.zero_le _

theorem unseenCost_set (hw : w ∈ nodes) (hnew : ¬ s.Seen w) {t : Search α} {i : Nat}
    (ht : t.index = s.index.set w i) :
    unseenCost adj nodes t + ((adj w).length + 2) ≤ unseenCost adj nodes s := by
  have hnone : s.index.get? w = none := Option.not_isSome_iff_eq_none.mp hnew
  have hmem : w ∈ nodes.filter fun v => (s.index.get? v).isNone :=
    List.mem_filter.mpr ⟨hw, by rw [hnone]; rfl⟩
  have hnot : w ∉ nodes.filter fun v => (t.index.get? v).isNone := fun hm => by
    have hnone := (List.mem_filter.mp hm).2
    rw [ht, Dict.get?_set_self] at hnone
    exact absurd hnone Bool.false_ne_true
  have hsub : (nodes.filter fun v => (t.index.get? v).isNone).Sublist
      (nodes.filter fun v => (s.index.get? v).isNone) := by
    refine List.monotone_filter_right _ fun v hv => ?_
    by_cases hvw : v = w
    · rw [ht, hvw, Dict.get?_set_self] at hv
      exact absurd hv Bool.false_ne_true
    · rwa [ht, Dict.get?_set_ne _ _ hvw] at hv
  have herase := hsub.erase w
  rw [List.erase_of_not_mem hnot] at herase
  have hle := List.Sublist.sum_le_sum (herase.map fun v => (adj v).length + 2)
    fun _ _ => Nat.zero_le _
  have hperm := ((List.perm_cons_erase hmem).map fun v => (adj v).length + 2).sum_eq
  rw [List.map_cons, List.sum_cons] at hperm
  rw [unseenCost, unseenCost]
  omega

theorem Inv.step (h : Inv adj nodes s) (hadj : ∀ v ∈ nodes, ∀ w ∈ adj v, w ∈ nodes)
    (hwork : s.work ≠ []) : ∃ t, s.step adj = some t ∧ Inv adj nodes t ∧
      (∀ v, s.Seen v → t.Seen v) ∧ todo adj nodes t < todo adj nodes s := by
  obtain ⟨⟨v, edges⟩, below, hwork⟩ := List.exists_cons_of_ne_nil hwork
  cases edges with
  | nil =>
      obtain ⟨t, ht, hinv, hbelow, hindex⟩ := h.close hwork
      refine ⟨t, by rw [Search.step, hwork]; exact ht, hinv, fun x hx => ?_, ?_⟩
      · rwa [Seen, hindex]
      · rw [todo, todo, unseenCost, unseenCost, hindex, hbelow, hwork, List.map_cons,
          List.sum_cons]
        simp
  | cons w rest =>
      obtain ⟨t, ht, hinv, htaken⟩ := h.follow hadj hwork
      refine ⟨t, ht, hinv, fun x hx => ?_, ?_⟩
      · rcases htaken with ⟨-, -, hindex⟩ | ⟨-, -, -, hindex⟩
        · rwa [Seen, hindex]
        · rw [Seen, hindex, Dict.get?_set]
          split_ifs
          · rfl
          · exact hx
      · rcases htaken with ⟨-, htwork, hindex⟩ | ⟨hnew, hw, htwork, hindex⟩
        · rw [todo, todo, unseenCost, unseenCost, hindex, htwork, hwork]
          simp
        · have hcost : unseenCost adj nodes t + ((adj w).length + 2) ≤ unseenCost adj nodes s :=
            unseenCost_set hw hnew hindex
          rw [todo, todo, htwork, hwork]
          simp only [List.map_cons, List.sum_cons, List.length_cons]
          omega

/-- `while work` comes to an end. -/
theorem Inv.run (h : Inv adj nodes s) (hadj : ∀ v ∈ nodes, ∀ w ∈ adj v, w ∈ nodes) {fuel : Nat}
    (hfuel : todo adj nodes s ≤ fuel) : ∃ t, s.run adj fuel = some t ∧ Inv adj nodes t ∧
      t.work = [] ∧ ∀ v, s.Seen v → t.Seen v := by
  induction fuel generalizing s with
  | zero =>
      have hwork : s.work = [] := by
        cases hs : s.work with
        | nil => rfl
        | cons e below =>
            rw [todo, hs, List.map_cons, List.sum_cons] at hfuel
            omega
      exact ⟨s, by rw [Search.run, hwork]; rfl, h, hwork, fun v hv => hv⟩
  | succ fuel ih =>
      by_cases hwork : s.work = []
      · exact ⟨s, by rw [Search.run, hwork]; rfl, h, hwork, fun v hv => hv⟩
      · obtain ⟨t, ht, hinv, hseen, hlt⟩ := h.step hadj hwork
        obtain ⟨u, hu, hinv, huwork, huseen⟩ := ih hinv (by omega)
        refine ⟨u, ?_, hinv, huwork, fun v hv => huseen v (hseen v hv)⟩
        rw [Search.run, if_neg (by rwa [List.isEmpty_iff]), ht]
        exact hu

theorem Inv.explore (h : Inv adj nodes s) (hadj : ∀ v ∈ nodes, ∀ w ∈ adj v, w ∈ nodes)
    (hwork : s.work = []) (hv : v ∈ nodes) :
    ∃ t, s.explore adj (searchFuel adj nodes) v = some t ∧ Inv adj nodes t ∧ t.work = [] ∧
      t.Seen v ∧ ∀ x, s.Seen x → t.Seen x := by
  by_cases hseen : s.Seen v
  · exact ⟨s, by rw [Search.explore]; exact if_pos hseen, h, hwork, hseen, fun x hx => hx⟩
  · have hactive : s.active = [] := by rw [active, hwork]; rfl
    have hvisited := h.visit hv hseen fun e he => by
      rw [hactive] at he
      exact absurd he List.not_mem_nil
    have hfuel : todo adj nodes (s.visit adj v) ≤ searchFuel adj nodes := by
      have hcost : unseenCost adj nodes (s.visit adj v) + ((adj v).length + 2) ≤
          unseenCost adj nodes s := unseenCost_set hv hseen rfl
      have hle := unseenCost_le adj nodes s
      rw [todo, Search.visit, hwork] at *
      simp only [List.map_cons, List.map_nil, List.sum_cons, List.sum_nil] at *
      omega
    obtain ⟨t, ht, hinv, htwork, htseen⟩ := hvisited.run hadj hfuel
    refine ⟨t, by rw [Search.explore, ← ht]; exact if_neg hseen, hinv, htwork, ?_, fun x hx => ?_⟩
    · exact htseen v (seen_visit.mpr (.inl rfl))
    · exact htseen x (seen_visit.mpr (.inr hx))

theorem Inv.exploreAll (h : Inv adj nodes s) (hadj : ∀ v ∈ nodes, ∀ w ∈ adj v, w ∈ nodes)
    (hwork : s.work = []) {roots : List α} (hroots : ∀ v ∈ roots, v ∈ nodes) :
    ∃ t, roots.foldlM (Search.explore adj (searchFuel adj nodes)) s = some t ∧
      Inv adj nodes t ∧ t.work = [] ∧ (∀ v ∈ roots, t.Seen v) ∧ ∀ x, s.Seen x → t.Seen x := by
  induction roots generalizing s with
  | nil => exact ⟨s, rfl, h, hwork, fun v hv => absurd hv List.not_mem_nil, fun x hx => hx⟩
  | cons root roots ih =>
      obtain ⟨hroot, hroots⟩ := List.forall_mem_cons.mp hroots
      obtain ⟨t, ht, hinv, htwork, htroot, htseen⟩ := h.explore hadj hwork hroot
      obtain ⟨u, hu, hinv, huwork, huroots, huseen⟩ := ih hinv htwork hroots
      refine ⟨u, ?_, hinv, huwork, ?_, fun x hx => huseen x (htseen x hx)⟩
      · rw [List.foldlM_cons, ht]
        exact hu
      · exact List.forall_mem_cons.mpr ⟨huseen root htroot, huroots⟩

/-- Where no iterator is open the stack is empty. -/
theorem Inv.stack_eq_nil (h : Inv adj nodes s) (hwork : s.work = []) : s.stack = [] := by
  refine List.eq_nil_iff_forall_not_mem.mpr fun v hv => ?_
  obtain ⟨e, he, -⟩ := h.covered v hv
  rw [active, hwork] at he
  exact absurd he List.not_mem_nil

end Search

/-! ## The components -/

/-- The nodes are parted into the classes of those that lead to each other. -/
structure Components (adj : α → List α) (nodes : List α) (comps : List (List α)) : Prop where
  mem_flatten : ∀ v, v ∈ comps.flatten ↔ v ∈ nodes
  nodup : comps.flatten.Nodup
  ne_nil : ∀ comp ∈ comps, comp ≠ []
  mem_iff : ∀ comp ∈ comps, ∀ v ∈ comp, ∀ w, w ∈ comp ↔ Mutual (Edge adj) v w

theorem exists_components (hadj : ∀ v ∈ nodes, ∀ w ∈ adj v, w ∈ nodes) :
    ∃ comps, sccs adj (searchFuel adj nodes) nodes = some comps ∧ Components adj nodes comps := by
  obtain ⟨t, ht, hinv, hwork, hseen, -⟩ :=
    (Search.inv_empty adj nodes).exploreAll hadj rfl fun v hv => hv
  have hstack := hinv.stack_eq_nil hwork
  refine ⟨t.result, by rw [sccs, ht, Option.map_some], ?_⟩
  exact {
    mem_flatten := fun v => by
      rw [hinv.mem_result, hstack]
      exact ⟨fun hv => hinv.seen_mem v hv.1, fun hv => ⟨hseen v hv, List.not_mem_nil⟩⟩
    nodup := hinv.result_nodup
    ne_nil := fun comp hcomp => (hinv.result_class comp hcomp).1
    mem_iff := fun comp hcomp => (hinv.result_class comp hcomp).2 }

/-- **`_sccs` comes to an end and returns the strongly connected components: each node is in one
    of them, once.** -/
theorem sccs_correct (hnodup : nodes.Nodup) (hadj : ∀ v ∈ nodes, ∀ w ∈ adj v, w ∈ nodes) :
    ∃ comps, sccs adj (searchFuel adj nodes) nodes = some comps ∧ comps.flatten.Perm nodes ∧
      ∀ comp ∈ comps, comp ≠ [] ∧ ∀ v ∈ comp, ∀ w, w ∈ comp ↔ Mutual (Edge adj) v w := by
  obtain ⟨comps, hcomps, hcomponents⟩ := exists_components hadj
  refine ⟨comps, hcomps, ?_, fun comp hcomp => ?_⟩
  · exact (List.perm_ext_iff_of_nodup hcomponents.nodup hnodup).mpr hcomponents.mem_flatten
  · exact ⟨hcomponents.ne_nil comp hcomp, hcomponents.mem_iff comp hcomp⟩

/-- A ring of the nodes 0, 1 and 2, and a node 3 that leads to itself. -/
def triangle : Nat → List Nat
  | 0 => [1]
  | 1 => [2, 3]
  | 2 => [0]
  | 3 => [3]
  | _ => []

/-- Three nodes in a circle, and one that they lead to. -/
theorem sccs_triangle : ∃ comps, sccs triangle (searchFuel triangle [0, 1, 2, 3]) [0, 1, 2, 3] =
    some comps ∧ comps.flatten.Perm [0, 1, 2, 3] ∧
      ∀ comp ∈ comps, comp ≠ [] ∧ ∀ v ∈ comp, ∀ w, w ∈ comp ↔ Mutual (Edge triangle) v w :=
  sccs_correct (by decide) (by decide)

end PgErdCloud.Spec
