/-
  A loop that keeps the first element with each key and skips some elements altogether.

  `firsts_foldl` says what is kept as a set; `mem_foldl_keepFirst_iff` says which element of a
  key it is: the first one. `first_flatMap_iff` and `first_filterMap_iff` find the first element
  of nested loops, loop by loop.
-/
import Mathlib

namespace PgErdCloud.Lib

variable {α κ : Type} [DecidableEq κ] (key : α → κ) (skip : α → Prop) [DecidablePred skip]

/-- One round of the loop. -/
def keepFirst (kept : List α) (x : α) : List α :=
  if skip x ∨ kept.any fun y => key y = key x then kept else kept ++ [x]

/-- What is kept of the elements that were read: each key once, and every key of an element
    that is not skipped. -/
structure Firsts (xs kept : List α) : Prop where
  keys : (kept.map key).Nodup
  read : ∀ x ∈ kept, x ∈ xs ∧ ¬ skip x
  covered : ∀ x ∈ xs, ¬ skip x → ∃ y ∈ kept, key y = key x

variable {key skip} {xs kept : List α} {x : α}

omit [DecidableEq κ] [DecidablePred skip] in
theorem firsts_nil : Firsts key skip [] [] where
  keys := List.nodup_nil
  read := fun _ hm => absurd hm List.not_mem_nil
  covered := fun _ hm => absurd hm List.not_mem_nil

omit [DecidableEq κ] [DecidablePred skip] in
theorem Firsts.pass (h : Firsts key skip xs kept)
    (hpass : skip x ∨ ∃ y ∈ kept, key y = key x) : Firsts key skip (xs ++ [x]) kept where
  keys := h.keys
  read := fun y hy => ⟨List.mem_append_left _ (h.read y hy).1, (h.read y hy).2⟩
  covered := by
    intro y hy hskip
    rcases List.mem_append.mp hy with hy | hy
    · exact h.covered y hy hskip
    · obtain rfl := List.mem_singleton.mp hy
      exact hpass.resolve_left hskip

omit [DecidableEq κ] [DecidablePred skip] in
theorem Firsts.keep (h : Firsts key skip xs kept) (hskip : ¬ skip x)
    (hnew : ∀ y ∈ kept, key y ≠ key x) : Firsts key skip (xs ++ [x]) (kept ++ [x]) where
  keys := by
    rw [List.map_append, List.map_singleton, List.nodup_append]
    refine ⟨h.keys, List.nodup_singleton _, fun k hk k' hk' => ?_⟩
    obtain ⟨y, hy, rfl⟩ := List.mem_map.mp hk
    rw [List.mem_singleton.mp hk']
    exact hnew y hy
  read := by
    intro y hy
    rcases List.mem_append.mp hy with hy | hy
    · exact ⟨List.mem_append_left _ (h.read y hy).1, (h.read y hy).2⟩
    · obtain rfl := List.mem_singleton.mp hy
      exact ⟨List.mem_append_right _ List.mem_cons_self, hskip⟩
  covered := by
    intro y hy hy'
    rcases List.mem_append.mp hy with hy | hy
    · obtain ⟨z, hz, hkey⟩ := h.covered y hy hy'
      exact ⟨z, List.mem_append_left _ hz, hkey⟩
    · obtain rfl := List.mem_singleton.mp hy
      exact ⟨y, List.mem_append_right _ List.mem_cons_self, rfl⟩

theorem Firsts.step (h : Firsts key skip xs kept) (x : α) :
    Firsts key skip (xs ++ [x]) (keepFirst key skip kept x) := by
  unfold keepFirst
  split_ifs with hpass
  · refine h.pass (hpass.imp_right fun hany => ?_)
    obtain ⟨y, hy, hkey⟩ := List.any_eq_true.mp hany
    exact ⟨y, hy, of_decide_eq_true hkey⟩
  · rw [not_or] at hpass
    refine h.keep hpass.1 fun y hy hkey => hpass.2 ?_
    exact List.any_eq_true.mpr ⟨y, hy, decide_eq_true hkey⟩

/-- **What the loop keeps.** -/
theorem firsts_foldl (xs : List α) : Firsts key skip xs (xs.foldl (keepFirst key skip) []) := by
  induction xs using List.reverseRecOn with
  | nil => exact firsts_nil
  | append_singleton xs x ih =>
      rw [List.foldl_append]
      exact ih.step x

/-! ## The first element -/

/-- The first element of a list with a property. -/
def First {α : Type} (p : α → Prop) (xs : List α) (x : α) : Prop :=
  p x ∧ ∃ before after, xs = before ++ x :: after ∧ ∀ y ∈ before, ¬ p y

section First

variable {β : Type} {p q : α → Prop} {f : α → List β}

omit [DecidableEq κ] [DecidablePred skip]

open Classical in
theorem first_iff_find? : First p xs x ↔ xs.find? (fun y => p y) = some x := by
  rw [List.find?_eq_some_iff_append, First]
  simp

theorem First.mem (h : First p xs x) : x ∈ xs := by
  obtain ⟨-, before, after, rfl, -⟩ := h
  exact List.mem_append_right _ List.mem_cons_self

theorem First.unique {y : α} (h : First p xs x) (h' : First p xs y) : x = y :=
  Option.some.inj ((first_iff_find?.mp h).symm.trans (first_iff_find?.mp h'))

theorem exists_first (h : ∃ x ∈ xs, p x) : ∃ x, First p xs x := by
  classical
  obtain ⟨x, hx, hp⟩ := h
  have hsome : (xs.find? fun y => p y).isSome = true :=
    List.find?_isSome.mpr ⟨x, hx, decide_eq_true hp⟩
  exact (Option.isSome_iff_exists.mp hsome).imp fun y hy => first_iff_find?.mpr hy

theorem first_congr (h : ∀ y ∈ xs, p y ↔ q y) : First p xs x ↔ First q xs x := by
  refine ⟨fun hx => ?_, fun hx => ?_⟩
  · have hmem := hx.mem
    obtain ⟨hp, before, after, rfl, hbefore⟩ := hx
    exact ⟨(h x hmem).mp hp, before, after, rfl, fun y hy hq =>
      hbefore y hy ((h y (List.mem_append_left _ hy)).mpr hq)⟩
  · have hmem := hx.mem
    obtain ⟨hq, before, after, rfl, hbefore⟩ := hx
    exact ⟨(h x hmem).mpr hq, before, after, rfl, fun y hy hp =>
      hbefore y hy ((h y (List.mem_append_left _ hy)).mp hp)⟩

/-- Where one element alone can have the property, it is the first. -/
theorem first_iff_of_unique (h : ∀ y ∈ xs, p y → y = x) : First p xs x ↔ x ∈ xs ∧ p x := by
  refine ⟨fun hx => ⟨hx.mem, hx.1⟩, fun hx => ?_⟩
  obtain ⟨y, hy⟩ := exists_first ⟨x, hx.1, hx.2⟩
  exact h y hy.mem hy.1 ▸ hy

/-- **The first element of two nested loops** is the first one in the first round that has
    one. -/
theorem first_flatMap_iff {p : β → Prop} {y : β} :
    First p (xs.flatMap f) y ↔ ∃ x, First (fun x => ∃ z ∈ f x, p z) xs x ∧ First p (f x) y := by
  have hnested {x : α} {z : β} (hx : First (fun x => ∃ z ∈ f x, p z) xs x)
      (hz : First p (f x) z) : First p (xs.flatMap f) z := by
    obtain ⟨-, before, after, rfl, hbefore⟩ := hx
    obtain ⟨hp, before', after', hsplit, hbefore'⟩ := hz
    refine ⟨hp, before.flatMap f ++ before', after' ++ after.flatMap f, ?_, fun y hy => ?_⟩
    · rw [List.flatMap_append, List.flatMap_cons, hsplit]
      simp
    · rcases List.mem_append.mp hy with hy | hy
      · obtain ⟨w, hw, hyw⟩ := List.mem_flatMap.mp hy
        exact fun hpy => hbefore w hw ⟨y, hyw, hpy⟩
      · exact hbefore' y hy
  refine ⟨fun hy => ?_, fun ⟨x, hx, hz⟩ => hnested hx hz⟩
  obtain ⟨w, hw, hyw⟩ := List.mem_flatMap.mp hy.mem
  obtain ⟨x, hx⟩ := exists_first (p := fun x => ∃ z ∈ f x, p z) ⟨w, hw, y, hyw, hy.1⟩
  obtain ⟨z, hz⟩ := exists_first hx.1
  exact ⟨x, hx, (hnested hx hz).unique hy ▸ hz⟩

/-- The same where each element says in which round it is found. -/
theorem first_flatMap_iff_of_round (round : β → α) (hround : ∀ x ∈ xs, ∀ z ∈ f x, round z = x)
    {p : β → Prop} {y : β} :
    First p (xs.flatMap f) y ↔
      First (fun x => ∃ z ∈ xs.flatMap f, p z ∧ round z = x) xs (round y) ∧
        First p (f (round y)) y := by
  have hiff (x) (hx : x ∈ xs) :
      (∃ z ∈ f x, p z) ↔ ∃ z ∈ xs.flatMap f, p z ∧ round z = x := by
    constructor
    · rintro ⟨z, hz, hp⟩
      exact ⟨z, List.mem_flatMap.mpr ⟨x, hx, hz⟩, hp, hround x hx z hz⟩
    · rintro ⟨z, hz, hp, hzx⟩
      obtain ⟨w, hw, hz⟩ := List.mem_flatMap.mp hz
      obtain rfl : w = x := (hround w hw z hz).symm.trans hzx
      exact ⟨z, hz, hp⟩
  rw [first_flatMap_iff, ← first_congr hiff]
  constructor
  · rintro ⟨x, hx, hy⟩
    obtain rfl := hround x hx.mem y hy.mem
    exact ⟨hx, hy⟩
  · exact fun h => ⟨_, h⟩

theorem first_filterMap_iff {g : α → Option β} {p : β → Prop} {y : β} :
    First p (xs.filterMap g) y ↔
      ∃ x, First (fun x => ∃ z ∈ g x, p z) xs x ∧ g x = some y := by
  have hflat : xs.filterMap g = xs.flatMap fun x => (g x).toList :=
    List.filterMap_eq_flatMap_toList g xs
  have hround (x : α) : (∃ z ∈ (g x).toList, p z) ↔ ∃ z ∈ g x, p z := by
    simp only [Option.mem_toList, Option.mem_def]
  rw [hflat, first_flatMap_iff]
  refine exists_congr fun x => ?_
  rw [first_congr fun w _ => hround w]
  refine and_congr_right fun hx => ?_
  obtain ⟨z, hz, hp⟩ := hx.1
  rw [Option.mem_def.mp hz, Option.toList_some, first_iff_find?]
  simp [hp]

theorem first_filter_iff {r : α → Bool} :
    First p (xs.filter r) x ↔ First (fun y => r y = true ∧ p y) xs x := by
  classical
  rw [first_iff_find?, first_iff_find?, List.find?_filter]
  simp

/-- The first element of a list that one element is added to. -/
theorem first_concat_iff {z : α} :
    First p (xs ++ [z]) x ↔ First p xs x ∨ x = z ∧ p z ∧ ∀ y ∈ xs, ¬ p y := by
  classical
  rw [first_iff_find?, first_iff_find?, List.find?_append]
  cases hfind : xs.find? fun y => p y with
  | some y =>
      obtain ⟨hp, -⟩ := first_iff_find?.mpr hfind
      have hy : y ∈ xs := List.mem_of_find?_eq_some hfind
      rw [Option.some_or]
      exact (or_iff_left fun h => h.2.2 y hy hp).symm
  | none =>
      have hnone : ∀ y ∈ xs, ¬ p y := by simpa using hfind
      by_cases hz : p z
      · simpa [hz, eq_comm] using fun _ => hnone
      · simp [hz]

end First

/-- **The loop keeps the first element of each key** among those that are not skipped. -/
theorem mem_foldl_keepFirst_iff :
    x ∈ xs.foldl (keepFirst key skip) [] ↔ First (fun y => ¬ skip y ∧ key y = key x) xs x := by
  induction xs using List.reverseRecOn with
  | nil => exact iff_of_false List.not_mem_nil fun h => absurd h.mem List.not_mem_nil
  | append_singleton xs z ih =>
      have hfirsts : Firsts key skip xs (xs.foldl (keepFirst key skip) []) := firsts_foldl xs
      rw [List.foldl_append, List.foldl_cons, List.foldl_nil, first_concat_iff, ← ih, keepFirst]
      split_ifs with hpass
      · refine (or_iff_left ?_).symm
        rintro ⟨rfl, ⟨hskip, -⟩, hnone⟩
        obtain ⟨y, hy, hkey⟩ := List.any_eq_true.mp (hpass.resolve_left hskip)
        exact hnone y (hfirsts.read y hy).1 ⟨(hfirsts.read y hy).2, of_decide_eq_true hkey⟩
      · rw [not_or] at hpass
        rw [List.mem_append, List.mem_singleton]
        refine or_congr_right ⟨?_, And.left⟩
        rintro rfl
        refine ⟨rfl, ⟨hpass.1, rfl⟩, fun y hy hkey => hpass.2 ?_⟩
        obtain ⟨w, hw, hwkey⟩ := hfirsts.covered y hy hkey.1
        exact List.any_eq_true.mpr ⟨w, hw, decide_eq_true (hwkey.trans hkey.2)⟩

end PgErdCloud.Lib
