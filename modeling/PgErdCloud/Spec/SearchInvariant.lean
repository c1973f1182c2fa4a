/-
  The invariant of the search of `_sccs`: what the numbers and the low links say about the stack,
  and what is known of the nodes that have left it. A step of the search is made of five moves (a
  link is lowered, an edge is taken, a node is visited, a node is closed, a component is popped),
  and each keeps the invariant.
-/
import PgErdCloud.Lib.Reach
import PgErdCloud.Spec.FkCycles

namespace PgErdCloud.Spec

open Lib Relation

variable {α : Type}

/-- There is an edge. -/
def Edge (adj : α → List α) (v w : α) : Prop := w ∈ adj v

/-- There is a path in the graph. -/
abbrev Reach (adj : α → List α) : α → α → Prop := ReflTransGen (Edge adj)

variable [DecidableEq α] {adj : α → List α} {nodes : List α} {s : Search α} {v w p : α}

theorem mem_setAdd {xs : List α} : w ∈ setAdd v xs ↔ w = v ∨ w ∈ xs := by
  rw [setAdd]
  split_ifs with h
  · exact ⟨.inr, fun hw => hw.elim (fun hw => hw ▸ h) id⟩
  · rw [List.mem_append, List.mem_singleton, or_comm]

namespace Search

/-! ## The invariant -/

/-- The search has come to the node and has numbered it. -/
def Seen (s : Search α) (v : α) : Prop := (s.index.get? v).isSome = true

/-- The number of a node. -/
def num (s : Search α) (v : α) : Nat := (s.index.get? v).getD 0

/-- The lowest number that is known to be reached from a node. -/
def lowOf (s : Search α) (v : α) : Nat := (s.low.get? v).getD 0

/-- The nodes whose iterators are open, the last one opened first. -/
def active (s : Search α) : List α := s.work.map Prod.fst

/-- The iterator of the node has yielded the edge. -/
def Explored (adj : α → List α) (s : Search α) (v w : α) : Prop :=
  w ∈ adj v ∧ ∀ rest, (v, rest) ∈ s.work → w ∉ rest

/-- What the search keeps between two of its steps: numbers grow along the stack, what has left it
    is complete, and components are what can reach each other. -/
structure Inv (adj : α → List α) (nodes : List α) (s : Search α) : Prop where
  seen_mem : ∀ v, s.Seen v → v ∈ nodes
  num_lt : ∀ v, s.Seen v → s.num v < s.counter
  stack_seen : ∀ v ∈ s.stack, s.Seen v
  low_isSome : ∀ v ∈ s.stack, (s.low.get? v).isSome = true
  mem_onStack : ∀ v, v ∈ s.onStack ↔ v ∈ s.stack
  stack_sorted : s.stack.Pairwise fun v w => s.num w < s.num v
  active_mem : ∀ v ∈ s.active, v ∈ s.stack
  active_sorted : s.active.Pairwise fun v w => s.num w < s.num v
  rest_mem : ∀ e ∈ s.work, ∀ w ∈ e.2, w ∈ adj e.1
  explored_seen : ∀ v ∈ s.stack, ∀ w, s.Explored adj v w → s.Seen w
  /-- The part of the stack above an active node was reached from it. -/
  covered : ∀ v ∈ s.stack, ∃ e ∈ s.active, s.num e ≤ s.num v
  reach : ∀ e ∈ s.active, ∀ v ∈ s.stack, s.num e ≤ s.num v → Reach adj e v
  /-- The low link of a node on the stack is the number of one that it reaches. -/
  low_le : ∀ v ∈ s.stack, s.lowOf v ≤ s.num v
  low_lt : ∀ v ∈ s.stack, v ∉ s.active → s.lowOf v < s.num v
  low_reach : ∀ v ∈ s.stack, ∃ w ∈ s.stack, s.num w = s.lowOf v ∧ Reach adj v w
  /-- An edge down the stack shows in the low link of an active node. -/
  low_back : ∀ e ∈ s.active, ∀ v ∈ s.stack, s.num e ≤ s.num v → ∀ w ∈ s.stack,
    s.Explored adj v w → ∃ q ∈ s.active, s.num e ≤ s.num q ∧ s.lowOf q ≤ s.num w
  mem_result : ∀ v, v ∈ s.result.flatten ↔ s.Seen v ∧ v ∉ s.stack
  result_closed : ∀ v ∈ s.result.flatten, ∀ w ∈ adj v, w ∈ s.result.flatten
  result_nodup : s.result.flatten.Nodup
  result_class : ∀ comp ∈ s.result, comp ≠ [] ∧
    ∀ v ∈ comp, ∀ w, w ∈ comp ↔ Mutual (Edge adj) v w

theorem inv_empty (adj : α → List α) (nodes : List α) : Inv adj nodes (.empty : Search α) where
  seen_mem _ h := absurd h Bool.false_ne_true
  num_lt _ h := absurd h Bool.false_ne_true
  stack_seen _ h := absurd h List.not_mem_nil
  low_isSome _ h := absurd h List.not_mem_nil
  mem_onStack _ := Iff.rfl
  stack_sorted := .nil
  active_mem _ h := absurd h List.not_mem_nil
  active_sorted := .nil
  rest_mem _ h := absurd h List.not_mem_nil
  explored_seen _ h := absurd h List.not_mem_nil
  covered _ h := absurd h List.not_mem_nil
  reach _ h := absurd h List.not_mem_nil
  low_le _ h := absurd h List.not_mem_nil
  low_lt _ h := absurd h List.not_mem_nil
  low_reach _ h := absurd h List.not_mem_nil
  low_back _ h := absurd h List.not_mem_nil
  mem_result _ := iff_of_false List.not_mem_nil fun h => absurd h.1 Bool.false_ne_true
  result_closed _ h := absurd h List.not_mem_nil
  result_nodup := .nil
  result_class _ h := absurd h List.not_mem_nil

namespace Inv

/-- Two nodes on the stack have different numbers. -/
theorem eq_of_num_eq (h : Inv adj nodes s) (hv : v ∈ s.stack) (hw : w ∈ s.stack)
    (heq : s.num v = s.num w) : v = w := by
  by_contra hne
  have hdistinct : s.stack.Pairwise fun v w => s.num v ≠ s.num w :=
    h.stack_sorted.imp fun hlt heq => absurd hlt (by omega)
  have hsymm : Std.Symm fun v w => s.num v ≠ s.num w := ⟨fun _ _ hne heq => hne heq.symm⟩
  exact hdistinct.forall hv hw hne heq

theorem stack_nodup (h : Inv adj nodes s) : s.stack.Nodup :=
  h.stack_sorted.imp fun hlt heq => absurd hlt (by rw [heq]; exact Nat.lt_irrefl _)

/-- The numbers of the active nodes go down. -/
theorem num_le_of_active (h : Inv adj nodes s) {e : α × List α} {below : List (α × List α)}
    (hwork : s.work = e :: below) (hw : w ∈ s.active) : s.num w ≤ s.num e.1 := by
  have hsorted := h.active_sorted
  rw [active, hwork, List.map_cons] at hsorted hw
  rcases List.mem_cons.mp hw with rfl | hw
  · exact Nat.le_refl _
  · exact Nat.le_of_lt (List.rel_of_pairwise_cons hsorted hw)

theorem num_lt_of_below (h : Inv adj nodes s) {e : α × List α} {below : List (α × List α)}
    (hwork : s.work = e :: below) (hw : w ∈ below.map Prod.fst) : s.num w < s.num e.1 := by
  have hsorted := h.active_sorted
  rw [active, hwork, List.map_cons] at hsorted
  exact List.rel_of_pairwise_cons hsorted hw

end Inv

/-! ## Moves -/

/-- The low link of an active node is lowered. -/
theorem Inv.setLow (h : Inv adj nodes s) (hv : v ∈ s.active) {l : Nat} (hle : l ≤ s.lowOf v)
    (hreach : ∃ w ∈ s.stack, s.num w = l ∧ Reach adj v w) :
    Inv adj nodes { s with low := s.low.set v l } := by
  have hlow (x : α) : ({ s with low := s.low.set v l } : Search α).lowOf x ≤ s.lowOf x ∧
      (x = v ∧ ({ s with low := s.low.set v l } : Search α).lowOf x = l ∨
        ({ s with low := s.low.set v l } : Search α).lowOf x = s.lowOf x) := by
    simp only [lowOf, Dict.get?_set]
    split_ifs with hx
    · subst hx
      exact ⟨hle, .inl ⟨rfl, rfl⟩⟩
    · exact ⟨Nat.le_refl _, .inr rfl⟩
  refine { h with low_isSome := ?_, low_le := ?_, low_lt := ?_, low_reach := ?_, low_back := ?_ }
  · intro x hx
    rw [Dict.get?_set]
    split_ifs
    · rfl
    · exact h.low_isSome x hx
  · exact fun x hx => (hlow x).1.trans (h.low_le x hx)
  · exact fun x hx hactive => (hlow x).1.trans_lt (h.low_lt x hx hactive)
  · intro x hx
    rcases (hlow x).2 with ⟨rfl, hl⟩ | hl
    · rw [hl]
      exact hreach
    · rw [hl]
      exact h.low_reach x hx
  · intro e he x hx hnum w hw hexplored
    obtain ⟨q, hq, hnumq, hlowq⟩ := h.low_back e he x hx hnum w hw hexplored
    exact ⟨q, hq, hnumq, (hlow q).1.trans hlowq⟩

/-- An edge to a node that was seen is taken. -/
theorem Inv.take (h : Inv adj nodes s) {above below : List (α × List α)} {rest : List α}
    (hwork : s.work = above ++ (v, w :: rest) :: below) (hseen : s.Seen w)
    (hback : w ∈ s.stack → ∃ q ∈ s.active, s.num v ≤ s.num q ∧ s.lowOf q ≤ s.num w) :
    Inv adj nodes { s with work := above ++ (v, rest) :: below } := by
  have hactive : ({ s with work := above ++ (v, rest) :: below } : Search α).active = s.active := by
    simp [active, hwork]
  have hexplored {x y : α}
      (hx : Explored adj { s with work := above ++ (v, rest) :: below } x y) :
      s.Explored adj x y ∨ x = v ∧ y = w := by
    by_cases hxy : x = v ∧ y = w
    · exact .inr hxy
    · refine .inl ⟨hx.1, fun r hr => ?_⟩
      rw [hwork, List.mem_append, List.mem_cons] at hr
      rcases hr with hr | hr | hr
      · exact hx.2 r (List.mem_append_left _ hr)
      · obtain ⟨rfl, rfl⟩ := Prod.mk.inj hr
        have hrest := hx.2 rest (List.mem_append_right _ List.mem_cons_self)
        exact fun hy => (List.mem_cons.mp hy).elim (fun hy => hxy ⟨rfl, hy⟩) hrest
      · exact hx.2 r (List.mem_append_right _ (List.mem_cons_of_mem _ hr))
  refine { h with active_mem := ?_, active_sorted := ?_, rest_mem := ?_, explored_seen := ?_,
                  covered := ?_, reach := ?_, low_lt := ?_, low_back := ?_ }
  · rw [hactive]
    exact h.active_mem
  · rw [hactive]
    exact h.active_sorted
  · intro e he y hy
    rcases List.mem_append.mp he with he | he
    · exact h.rest_mem e (hwork ▸ List.mem_append_left _ he) y hy
    · rcases List.mem_cons.mp he with rfl | he
      · have hold : (v, w :: rest) ∈ s.work := by rw [hwork]; simp
        exact h.rest_mem _ hold y (List.mem_cons_of_mem _ hy)
      · have hold : e ∈ s.work := by rw [hwork]; simp [he]
        exact h.rest_mem e hold y hy
  · intro x hx y hy
    rcases hexplored hy with hy | ⟨-, rfl⟩
    · exact h.explored_seen x hx y hy
    · exact hseen
  · rw [hactive]
    exact h.covered
  · rw [hactive]
    exact h.reach
  · rw [hactive]
    exact h.low_lt
  · rw [hactive]
    intro e he x hx hnum y hy hxy
    rcases hexplored hxy with hxy | ⟨rfl, rfl⟩
    · exact h.low_back e he x hx hnum y hy hxy
    · obtain ⟨q, hq, hnumq, hlowq⟩ := hback hy
      exact ⟨q, hq, Nat.le_trans hnum hnumq, hlowq⟩

theorem seen_visit {x : α} : (s.visit adj v).Seen x ↔ x = v ∨ s.Seen x := by
  rw [Seen, visit, Dict.get?_set]
  split_ifs with hx
  · exact iff_of_true rfl (.inl hx)
  · exact ⟨.inr, fun h => h.resolve_left hx⟩

theorem num_visit_self : (s.visit adj v).num v = s.counter := by
  rw [num, visit, Dict.get?_set_self, Option.getD_some]

theorem num_visit_of_ne {x : α} (h : x ≠ v) : (s.visit adj v).num x = s.num x := by
  rw [num, visit, Dict.get?_set_ne _ _ h, num]

theorem lowOf_visit_self : (s.visit adj v).lowOf v = s.counter := by
  rw [lowOf, visit, Dict.get?_set_self, Option.getD_some]

theorem lowOf_visit_of_ne {x : α} (h : x ≠ v) : (s.visit adj v).lowOf x = s.lowOf x := by
  rw [lowOf, visit, Dict.get?_set_ne _ _ h, lowOf]

/-- No edge of a node that is visited has been taken. -/
theorem not_explored_visit : ¬ (s.visit adj v).Explored adj v w := fun h =>
  h.2 (adj v) List.mem_cons_self h.1

theorem Explored.of_visit {x : α} (h : (s.visit adj v).Explored adj x w) :
    s.Explored adj x w :=
  ⟨h.1, fun rest hrest => h.2 rest (List.mem_cons_of_mem _ hrest)⟩

/-- A node that was not seen is visited. -/
theorem Inv.visit (h : Inv adj nodes s) (hv : v ∈ nodes) (hnew : ¬ s.Seen v)
    (hreach : ∀ e ∈ s.active, Reach adj e v) : Inv adj nodes (s.visit adj v) := by
  have hne {x : α} (hx : x ∈ s.stack) : x ≠ v := fun he => hnew (he ▸ h.stack_seen x hx)
  have hnum {x : α} (hx : x ∈ s.stack) : (s.visit adj v).num x = s.num x :=
    num_visit_of_ne (hne hx)
  have hlow {x : α} (hx : x ∈ s.stack) : (s.visit adj v).lowOf x = s.lowOf x :=
    lowOf_visit_of_ne (hne hx)
  have hlt {x : α} (hx : x ∈ s.stack) : s.num x < s.counter := h.num_lt x (h.stack_seen x hx)
  have hactive {x : α} (hx : x ∈ s.active) : x ∈ s.stack := h.active_mem x hx
  refine {
    seen_mem := ?_, num_lt := ?_, stack_seen := ?_, low_isSome := ?_, mem_onStack := ?_
    stack_sorted := ?_, active_mem := ?_, active_sorted := ?_, rest_mem := ?_
    explored_seen := ?_, covered := ?_, reach := ?_, low_le := ?_, low_lt := ?_
    low_reach := ?_, low_back := ?_, mem_result := ?_, result_closed := h.result_closed
    result_nodup := h.result_nodup, result_class := h.result_class }
  · intro x hx
    rcases seen_visit.mp hx with rfl | hx
    · exact hv
    · exact h.seen_mem x hx
  · intro x hx
    by_cases hxv : x = v
    · subst hxv
      rw [num_visit_self]
      exact Nat.lt_succ_self _
    · rw [num_visit_of_ne hxv]
      exact Nat.lt_succ_of_lt (h.num_lt x ((seen_visit.mp hx).resolve_left hxv))
  · intro x hx
    rcases List.mem_cons.mp hx with rfl | hx
    · exact seen_visit.mpr (.inl rfl)
    · exact seen_visit.mpr (.inr (h.stack_seen x hx))
  · intro x hx
    rcases List.mem_cons.mp hx with rfl | hx
    · rw [Search.visit, Dict.get?_set_self]
      rfl
    · rw [Search.visit, Dict.get?_set_ne _ _ (hne hx)]
      exact h.low_isSome x hx
  · intro x
    exact mem_setAdd.trans ((or_congr_right (h.mem_onStack x)).trans List.mem_cons.symm)
  · refine List.pairwise_cons.mpr ⟨fun x hx => ?_, ?_⟩
    · rw [hnum hx, num_visit_self]
      exact hlt hx
    · refine h.stack_sorted.imp_of_mem fun {x y} hx hy hxy => ?_
      rwa [hnum hx, hnum hy]
  · intro x hx
    rcases List.mem_cons.mp hx with rfl | hx
    · exact List.mem_cons_self
    · exact List.mem_cons_of_mem _ (hactive hx)
  · refine List.pairwise_cons.mpr ⟨fun x hx => ?_, ?_⟩
    · rw [hnum (hactive hx), num_visit_self]
      exact hlt (hactive hx)
    · refine h.active_sorted.imp_of_mem fun {x y} hx hy hxy => ?_
      rwa [hnum (hactive hx), hnum (hactive hy)]
  · intro e he y hy
    rcases List.mem_cons.mp he with rfl | he
    · exact hy
    · exact h.rest_mem e he y hy
  · intro x hx y hy
    rcases List.mem_cons.mp hx with rfl | hx
    · exact absurd hy not_explored_visit
    · exact seen_visit.mpr (.inr (h.explored_seen x hx y hy.of_visit))
  · intro x hx
    rcases List.mem_cons.mp hx with rfl | hx
    · exact ⟨x, List.mem_cons_self, Nat.le_refl _⟩
    · obtain ⟨e, he, hle⟩ := h.covered x hx
      exact ⟨e, List.mem_cons_of_mem _ he, by rwa [hnum hx, hnum (hactive he)]⟩
  · intro e he x hx hle
    rcases List.mem_cons.mp he with rfl | hold
    · rcases List.mem_cons.mp hx with rfl | hx
      · exact .refl
      · rw [num_visit_self, hnum hx] at hle
        exact absurd (hlt hx) (Nat.not_lt.mpr hle)
    · rcases List.mem_cons.mp hx with rfl | hx
      · exact hreach e hold
      · rw [hnum hx, hnum (hactive hold)] at hle
        exact h.reach e hold x hx hle
  · intro x hx
    rcases List.mem_cons.mp hx with rfl | hx
    · rw [lowOf_visit_self, num_visit_self]
    · rw [hlow hx, hnum hx]
      exact h.low_le x hx
  · intro x hx hinactive
    rcases List.mem_cons.mp hx with rfl | hx
    · exact absurd List.mem_cons_self hinactive
    · rw [hlow hx, hnum hx]
      exact h.low_lt x hx fun hm => hinactive (List.mem_cons_of_mem _ hm)
  · intro x hx
    rcases List.mem_cons.mp hx with rfl | hx
    · exact ⟨x, List.mem_cons_self, by rw [lowOf_visit_self, num_visit_self], .refl⟩
    · obtain ⟨y, hy, hnumy, hxy⟩ := h.low_reach x hx
      exact ⟨y, List.mem_cons_of_mem _ hy, by rw [hlow hx, hnum hy, hnumy], hxy⟩
  · intro e he x hx hle y hy hxy
    rcases List.mem_cons.mp hx with rfl | hx
    · exact absurd hxy not_explored_visit
    · have hseen : s.Seen y := h.explored_seen x hx y hxy.of_visit
      have hy : y ∈ s.stack := (List.mem_cons.mp hy).resolve_left fun he => hnew (he ▸ hseen)
      have he : e ∈ s.active := by
        refine (List.mem_cons.mp he).resolve_left fun heq => ?_
        rw [heq, num_visit_self, hnum hx] at hle
        exact absurd (hlt hx) (Nat.not_lt.mpr hle)
      rw [hnum hx, hnum (hactive he)] at hle
      obtain ⟨q, hq, hnumq, hlowq⟩ := h.low_back e he x hx hle y hy hxy.of_visit
      refine ⟨q, List.mem_cons_of_mem _ hq, ?_, ?_⟩
      · rwa [hnum (hactive he), hnum (hactive hq)]
      · rwa [hlow (hactive hq), hnum hy]
  · intro x
    refine (h.mem_result x).trans ?_
    constructor
    · rintro ⟨hseen, hx⟩
      refine ⟨seen_visit.mpr (.inr hseen), fun hm => ?_⟩
      exact (List.mem_cons.mp hm).elim (fun he => hnew (he ▸ hseen)) hx
    · rintro ⟨hseen, hx⟩
      have hxv : x ≠ v := fun he => hx (he ▸ List.mem_cons_self)
      exact ⟨(seen_visit.mp hseen).resolve_left hxv, fun hm => hx (List.mem_cons_of_mem _ hm)⟩

omit [DecidableEq α] in
/-- An edge of a node whose iterator is at its end, or closed, has been taken. -/
theorem explored_of_done (hdone : ∀ rest, (v, rest) ∈ s.work → rest = []) (hw : w ∈ adj v) :
    s.Explored adj v w :=
  ⟨hw, fun rest hrest => by rw [hdone rest hrest]; exact List.not_mem_nil⟩

omit [DecidableEq α] in
/-- Closing a node whose iterator is at its end leaves the edges that were taken. -/
theorem Explored.of_close {below : List (α × List α)} {t : Search α} {x : α}
    (hwork : s.work = (v, []) :: below) (ht : t.work = below) (h : t.Explored adj x w) :
    s.Explored adj x w := by
  refine ⟨h.1, fun rest hrest => ?_⟩
  rw [hwork] at hrest
  rcases List.mem_cons.mp hrest with he | hrest
  · rw [(Prod.mk.inj he).2]
    exact List.not_mem_nil
  · exact h.2 rest (ht ▸ hrest)

/-- A node that is no root is closed; the low link of its parent is not above its own. -/
theorem Inv.drop (h : Inv adj nodes s) {rest : List α} {below : List (α × List α)}
    (hwork : s.work = (v, []) :: (p, rest) :: below) (hlow : s.lowOf v < s.num v)
    (hparent : s.lowOf p ≤ s.lowOf v) :
    Inv adj nodes { s with work := (p, rest) :: below } := by
  set t : Search α := { s with work := (p, rest) :: below } with ht
  have hactive : s.active = v :: t.active := by rw [active, hwork]; rfl
  have hp : p ∈ t.active := List.mem_cons_self
  have hnump : s.num p < s.num v := h.num_lt_of_below hwork hp
  have hmem {x : α} (hx : x ∈ t.active) : x ∈ s.active := hactive ▸ List.mem_cons_of_mem _ hx
  have hexplored {x y : α} (hxy : t.Explored adj x y) : s.Explored adj x y :=
    hxy.of_close hwork rfl
  refine { h with active_mem := ?_, active_sorted := ?_, rest_mem := ?_, explored_seen := ?_,
                  covered := ?_, reach := ?_, low_lt := ?_, low_back := ?_ }
  · exact fun x hx => h.active_mem x (hmem hx)
  · have hsorted := h.active_sorted
    rw [hactive] at hsorted
    exact hsorted.of_cons
  · exact fun e he => h.rest_mem e (hwork ▸ List.mem_cons_of_mem _ he)
  · exact fun x hx y hxy => h.explored_seen x hx y (hexplored hxy)
  · intro x hx
    obtain ⟨e, he, hle⟩ := h.covered x hx
    rw [hactive] at he
    rcases List.mem_cons.mp he with rfl | he
    · exact ⟨p, hp, (Nat.le_of_lt hnump).trans hle⟩
    · exact ⟨e, he, hle⟩
  · exact fun e he => h.reach e (hmem he)
  · intro x hx hinactive
    by_cases hxv : x = v
    · rw [hxv]
      exact hlow
    · refine h.low_lt x hx fun hm => ?_
      rw [hactive] at hm
      exact hinactive ((List.mem_cons.mp hm).resolve_left hxv)
  · intro e he x hx hle y hy hxy
    obtain ⟨q, hq, hnumq, hlowq⟩ := h.low_back e (hmem he) x hx hle y hy (hexplored hxy)
    rw [hactive] at hq
    rcases List.mem_cons.mp hq with rfl | hq
    · refine ⟨p, hp, ?_, hparent.trans hlowq⟩
      have hsorted := h.active_sorted
      rw [hactive] at hsorted
      rcases List.mem_cons.mp he with rfl | he
      · exact Nat.le_refl _
      · exact Nat.le_of_lt (List.rel_of_pairwise_cons hsorted.of_cons he)
    · exact ⟨q, hq, hnumq, hlowq⟩

/-! ## A component -/

theorem popComponent_eq {stack : List α} (h : v ∈ stack) : ∃ front below,
    stack = front ++ v :: below ∧ popComponent v stack = some (front ++ [v], below) := by
  induction stack with
  | nil => exact absurd h List.not_mem_nil
  | cons w stack ih =>
      rw [popComponent]
      split_ifs with hw
      · exact ⟨[], stack, by rw [hw]; rfl, by rw [hw]; rfl⟩
      · have hv : v ∈ stack := (List.mem_cons.mp h).resolve_left fun he => hw he.symm
        obtain ⟨front, below, hstack, hpop⟩ := ih hv
        refine ⟨w :: front, below, by rw [hstack]; rfl, ?_⟩
        rw [hpop]
        rfl

section
variable {front under : List α} {below : List (α × List α)}

/-- What is popped is what was numbered from the root on. -/
theorem Inv.mem_front_iff (h : Inv adj nodes s) (hstack : s.stack = front ++ v :: under) {x : α}
    (hx : x ∈ s.stack) : x ∈ front ++ [v] ↔ s.num v ≤ s.num x := by
  have hsorted := h.stack_sorted
  rw [hstack, List.pairwise_append, List.pairwise_cons] at hsorted
  obtain ⟨-, ⟨hunder, -⟩, hfront⟩ := hsorted
  constructor
  · intro hm
    rcases List.mem_append.mp hm with hm | hm
    · exact Nat.le_of_lt (hfront x hm v List.mem_cons_self)
    · rw [List.mem_singleton.mp hm]
  · intro hle
    rw [hstack] at hx
    rcases List.mem_append.mp hx with hx | hx
    · exact List.mem_append_left _ hx
    · rcases List.mem_cons.mp hx with rfl | hx
      · exact List.mem_append_right _ List.mem_cons_self
      · exact absurd (hunder x hx) (Nat.not_lt.mpr hle)

theorem Inv.num_lt_of_under (h : Inv adj nodes s) (hstack : s.stack = front ++ v :: under) {x : α}
    (hx : x ∈ under) : s.num x < s.num v := by
  have hsorted := h.stack_sorted
  rw [hstack, List.pairwise_append, List.pairwise_cons] at hsorted
  exact hsorted.2.1.1 x hx

/-- The edges of what is popped stay in it, or lead to what was popped before. -/
theorem Inv.edge_of_root (h : Inv adj nodes s) (hwork : s.work = (v, []) :: below)
    (hroot : s.lowOf v = s.num v) {x y : α} (hx : x ∈ s.stack) (hle : s.num v ≤ s.num x)
    (hy : y ∈ adj x) : (y ∈ s.stack ∧ s.num v ≤ s.num y) ∨ y ∈ s.result.flatten := by
  have hv : v ∈ s.active := by rw [active, hwork]; exact List.mem_cons_self
  have hexplored : s.Explored adj x y := by
    refine explored_of_done (fun rest hrest => ?_) hy
    rw [hwork] at hrest
    rcases List.mem_cons.mp hrest with he | hrest
    · exact (Prod.mk.inj he).2
    · have hbelow : x ∈ below.map Prod.fst := List.mem_map_of_mem hrest
      exact absurd (h.num_lt_of_below hwork hbelow) (Nat.not_lt.mpr hle)
  have hseen : s.Seen y := h.explored_seen x hx y hexplored
  by_cases hystack : y ∈ s.stack
  · obtain ⟨q, hq, hnumq, hlowq⟩ := h.low_back v hv x hx hle y hystack hexplored
    have heq : q = v := h.eq_of_num_eq (h.active_mem q hq) (h.active_mem v hv)
      (Nat.le_antisymm (h.num_le_of_active hwork hq) hnumq)
    rw [heq, hroot] at hlowq
    exact .inl ⟨hystack, hlowq⟩
  · exact .inr ((h.mem_result y).mpr ⟨hseen, hystack⟩)

theorem Inv.result_reach (h : Inv adj nodes s) {x y : α} (hx : x ∈ s.result.flatten)
    (hxy : Reach adj x y) : y ∈ s.result.flatten := by
  induction hxy with
  | refl => exact hx
  | tail _ hstep ih => exact h.result_closed _ ih _ hstep

theorem Inv.reach_of_root (h : Inv adj nodes s) (hwork : s.work = (v, []) :: below)
    (hroot : s.lowOf v = s.num v) {x y : α} (hx : x ∈ s.stack) (hle : s.num v ≤ s.num x)
    (hxy : Reach adj x y) : (y ∈ s.stack ∧ s.num v ≤ s.num y) ∨ y ∈ s.result.flatten := by
  induction hxy with
  | refl => exact .inl ⟨hx, hle⟩
  | tail _ hstep ih =>
      rcases ih with ⟨hmem, hnum⟩ | hresult
      · exact h.edge_of_root hwork hroot hmem hnum hstep
      · exact .inr (h.result_closed _ hresult _ hstep)

/-- What is popped leads to the root: a low link goes further down the stack, but not below
    the root. -/
theorem Inv.reach_root (h : Inv adj nodes s) (hwork : s.work = (v, []) :: below)
    (hroot : s.lowOf v = s.num v) {x : α} (hx : x ∈ s.stack) (hle : s.num v ≤ s.num x) :
    Reach adj x v := by
  have hv : v ∈ s.active := by rw [active, hwork]; exact List.mem_cons_self
  induction hn : s.num x using Nat.strong_induction_on generalizing x with
  | _ n ih =>
      by_cases hxv : x = v
      · rw [hxv]
      · have hinactive : x ∉ s.active := fun hactive => hxv (h.eq_of_num_eq hx
          (h.active_mem v hv) (Nat.le_antisymm (h.num_le_of_active hwork hactive) hle))
        obtain ⟨w, hw, hnumw, hxw⟩ := h.low_reach x hx
        have hlt : s.num w < s.num x := hnumw ▸ h.low_lt x hx hinactive
        have hwle : s.num v ≤ s.num w := by
          rcases h.reach_of_root hwork hroot hx hle hxw with ⟨-, hle⟩ | hresult
          · exact hle
          · exact absurd hw ((h.mem_result w).mp hresult).2
        exact hxw.trans (ih _ (hn ▸ hlt) hw hwle rfl)

/-- The nodes from the root on are popped: they are the component of the root. -/
theorem Inv.pop (h : Inv adj nodes s) (hwork : s.work = (v, []) :: below)
    (hroot : s.lowOf v = s.num v) (hstack : s.stack = front ++ v :: under) :
    Inv adj nodes { s with
      stack := under
      onStack := s.onStack.filter (· ∉ front ++ [v])
      result := s.result ++ [front ++ [v]]
      work := below } := by
  set t : Search α := { s with
    stack := under
    onStack := s.onStack.filter (· ∉ front ++ [v])
    result := s.result ++ [front ++ [v]]
    work := below } with ht
  have hactive : s.active = v :: t.active := by rw [active, hwork]; rfl
  have hv : v ∈ s.active := hactive ▸ List.mem_cons_self
  have hvstack : v ∈ s.stack := h.active_mem v hv
  have hmem {x : α} (hx : x ∈ under) : x ∈ s.stack := by
    rw [hstack]
    exact List.mem_append_right _ (List.mem_cons_of_mem _ hx)
  have hunder {x : α} (hx : x ∈ s.stack) (hlt : s.num x < s.num v) : x ∈ under := by
    rw [hstack] at hx
    rcases List.mem_append.mp hx with hx' | hx'
    · have hle := (h.mem_front_iff hstack (hstack ▸ hx)).mp (List.mem_append_left _ hx')
      exact absurd hlt (Nat.not_lt.mpr hle)
    · exact (List.mem_cons.mp hx').resolve_left fun he => absurd hlt (he ▸ Nat.lt_irrefl _)
  have hlt {x : α} (hx : x ∈ under) : s.num x < s.num v := h.num_lt_of_under hstack hx
  have hcomp {x : α} : x ∈ front ++ [v] ↔ x ∈ s.stack ∧ s.num v ≤ s.num x := by
    constructor
    · intro hx
      have hxstack : x ∈ s.stack := by
        rw [hstack]
        rcases List.mem_append.mp hx with hx | hx
        · exact List.mem_append_left _ hx
        · exact List.mem_append_right _ (List.mem_singleton.mp hx ▸ List.mem_cons_self)
      exact ⟨hxstack, (h.mem_front_iff hstack hxstack).mp hx⟩
    · exact fun hx => (h.mem_front_iff hstack hx.1).mpr hx.2
  have hbelow {x : α} (hx : x ∈ t.active) : x ∈ s.active ∧ s.num x < s.num v :=
    ⟨hactive ▸ List.mem_cons_of_mem _ hx, h.num_lt_of_below hwork hx⟩
  have hexplored {x y : α} (hxy : t.Explored adj x y) : s.Explored adj x y :=
    hxy.of_close hwork rfl
  have hflatten {x : α} : x ∈ t.result.flatten ↔ x ∈ s.result.flatten ∨ x ∈ front ++ [v] := by
    rw [ht, List.flatten_append, List.mem_append, List.flatten_singleton]
  have hclosed {x y : α} (hx : x ∈ t.result.flatten) (hxy : Reach adj x y) :
      y ∈ t.result.flatten := by
    rw [hflatten] at hx ⊢
    rcases hx with hx | hx
    · exact .inl (h.result_reach hx hxy)
    · obtain ⟨hxstack, hle⟩ := hcomp.mp hx
      rcases h.reach_of_root hwork hroot hxstack hle hxy with hy | hy
      · exact .inr (hcomp.mpr hy)
      · exact .inl hy
  refine { h with
    stack_seen := fun x hx => h.stack_seen x (hmem hx)
    low_isSome := fun x hx => h.low_isSome x (hmem hx)
    mem_onStack := ?_, stack_sorted := ?_, active_mem := ?_, active_sorted := ?_
    rest_mem := fun e he => h.rest_mem e (hwork ▸ List.mem_cons_of_mem _ he)
    explored_seen := fun x hx y hxy => h.explored_seen x (hmem hx) y (hexplored hxy)
    covered := ?_
    reach := fun e he x hx => h.reach e (hbelow he).1 x (hmem hx)
    low_le := fun x hx => h.low_le x (hmem hx)
    low_lt := ?_, low_reach := ?_, low_back := ?_, mem_result := ?_
    result_closed := fun x hx y hy => hclosed hx (.single hy)
    result_nodup := ?_, result_class := ?_ }
  · intro x
    have hfilter : x ∈ t.onStack ↔ x ∈ s.stack ∧ x ∉ front ++ [v] := by
      rw [ht, List.mem_filter, h.mem_onStack, decide_eq_true_iff]
    rw [hfilter]
    constructor
    · rintro ⟨hx, hnot⟩
      exact hunder hx (Nat.lt_of_not_le fun hle => hnot (hcomp.mpr ⟨hx, hle⟩))
    · intro hx
      exact ⟨hmem hx, fun hm => absurd (hcomp.mp hm).2 (Nat.not_le.mpr (hlt hx))⟩
  · have hsorted := h.stack_sorted
    rw [hstack, List.pairwise_append, List.pairwise_cons] at hsorted
    exact hsorted.2.1.2
  · exact fun x hx => hunder (h.active_mem x (hbelow hx).1) (hbelow hx).2
  · have hsorted := h.active_sorted
    rw [hactive] at hsorted
    exact hsorted.of_cons
  · intro x hx
    obtain ⟨e, he, hle⟩ := h.covered x (hmem hx)
    rw [hactive] at he
    rcases List.mem_cons.mp he with rfl | he
    · exact absurd (hlt hx) (Nat.not_lt.mpr hle)
    · exact ⟨e, he, hle⟩
  · intro x hx hinactive
    refine h.low_lt x (hmem hx) fun hm => ?_
    rw [hactive] at hm
    rcases List.mem_cons.mp hm with rfl | hm
    · exact absurd (hlt hx) (Nat.lt_irrefl _)
    · exact hinactive hm
  · intro x hx
    obtain ⟨w, hw, hnumw, hxw⟩ := h.low_reach x (hmem hx)
    refine ⟨w, hunder hw ?_, hnumw, hxw⟩
    exact hnumw ▸ (h.low_le x (hmem hx)).trans_lt (hlt hx)
  · intro e he x hx hle y hy hxy
    obtain ⟨q, hq, hnumq, hlowq⟩ :=
      h.low_back e (hbelow he).1 x (hmem hx) hle y (hmem hy) (hexplored hxy)
    rw [hactive] at hq
    rcases List.mem_cons.mp hq with rfl | hq
    · rw [hroot] at hlowq
      exact absurd (hlt hy) (Nat.not_lt.mpr hlowq)
    · exact ⟨q, hq, hnumq, hlowq⟩
  · intro x
    rw [hflatten, h.mem_result, hcomp]
    constructor
    · rintro (⟨hseen, hx⟩ | ⟨hx, hle⟩)
      · exact ⟨hseen, fun hm => hx (hmem hm)⟩
      · exact ⟨h.stack_seen x hx, fun hm => absurd (hlt hm) (Nat.not_lt.mpr hle)⟩
    · rintro ⟨hseen, hx⟩
      by_cases hxstack : x ∈ s.stack
      · exact .inr ⟨hxstack, Nat.le_of_not_lt fun hlt' => hx (hunder hxstack hlt')⟩
      · exact .inl ⟨hseen, hxstack⟩
  · rw [ht, List.flatten_append, List.flatten_singleton]
    refine List.Nodup.append h.result_nodup ?_ fun x hx hx' => ?_
    · have hnodup := h.stack_nodup
      rw [hstack, ← List.singleton_append, ← List.append_assoc] at hnodup
      exact hnodup.of_append_left
    · exact ((h.mem_result x).mp hx).2 (hcomp.mp hx').1
  · intro comp hcompmem
    rcases List.mem_append.mp hcompmem with hold | hnew
    · exact h.result_class comp hold
    · rw [List.mem_singleton.mp hnew]
      refine ⟨by simp, fun x hx w => ⟨fun hw => ?_, fun hmutual => ?_⟩⟩
      · obtain ⟨hxstack, hxle⟩ := hcomp.mp hx
        obtain ⟨hwstack, hwle⟩ := hcomp.mp hw
        have hxv : Mutual (Edge adj) x v := ⟨h.reach_root hwork hroot hxstack hxle,
          h.reach v hv x hxstack hxle⟩
        have hwv : Mutual (Edge adj) w v := ⟨h.reach_root hwork hroot hwstack hwle,
          h.reach v hv w hwstack hwle⟩
        exact hxv.trans hwv.symm
      · obtain ⟨hxstack, hxle⟩ := hcomp.mp hx
        rcases h.reach_of_root hwork hroot hxstack hxle hmutual.1 with hw | hw
        · exact hcomp.mpr hw
        · exact absurd hxstack ((h.mem_result x).mp (h.result_reach hw hmutual.2)).2

end

end Search

end PgErdCloud.Spec
