/-
  Loops that fill a dictionary: with one element for each key the entries are the elements, in
  their order, and there are fewer entries than elements otherwise.
-/
import PgErdCloud.Lib.Dict
import Mathlib.Data.List.Dedup

namespace PgErdCloud.Lib.Dict

variable {α κ ν : Type} [DecidableEq κ]

/-- A new key goes to the end. -/
theorem items_set_of_not_mem {d : Dict κ ν} {k : κ} (v : ν) (h : k ∉ d.keys) :
    (d.set k v).items = d.items ++ [(k, v)] := by
  have key : ∀ items : List (κ × ν), k ∉ items.map Prod.fst →
      setEntry k v items = items ++ [(k, v)] := by
    intro items hitems
    induction items with
    | nil => rfl
    | cons e items ih =>
        rw [List.map_cons, List.mem_cons, not_or] at hitems
        rw [setEntry, if_neg (Ne.symm hitems.1), ih hitems.2, List.cons_append]
  exact key d.items h

variable {key : α → κ} {v₀ : ν} {f : α → ν → ν} {xs : List α}

theorem items_foldl_upsertAt_from {d : Dict κ ν} (hnodup : (xs.map key).Nodup)
    (hnew : ∀ x ∈ xs, key x ∉ d.keys) :
    (xs.foldl (upsertAt (fun x => some (key x)) v₀ f) d).items =
      d.items ++ xs.map fun x => (key x, f x v₀) := by
  induction xs generalizing d with
  | nil => simp
  | cons x xs ih =>
      obtain ⟨hx, hxs⟩ := List.nodup_cons.mp hnodup
      have hkey : key x ∉ d.keys := hnew x List.mem_cons_self
      have hstep : upsertAt (fun x => some (key x)) v₀ f d x = d.set (key x) (f x v₀) := by
        have hnone := get?_eq_none_iff.mpr hkey
        simp only [upsertAt, hnone, Option.getD_none]
      rw [List.foldl_cons, hstep, ih hxs, items_set_of_not_mem _ hkey, List.append_assoc]
      · rfl
      · intro y hy
        rw [keys_set, if_neg hkey, List.mem_append, List.mem_singleton, not_or]
        refine ⟨hnew y (List.mem_cons_of_mem x hy), fun he => hx ?_⟩
        exact he ▸ List.mem_map_of_mem hy

/-- **One element for each key.** -/
theorem items_foldl_upsertAt (hnodup : (xs.map key).Nodup) :
    (xs.foldl (upsertAt (fun x => some (key x)) v₀ f) empty).items =
      xs.map fun x => (key x, f x v₀) :=
  items_foldl_upsertAt_from hnodup fun _ _ hm => absurd hm List.not_mem_nil

theorem mem_keys_foldl_upsertAt {k : κ} :
    k ∈ (xs.foldl (upsertAt (fun x => some (key x)) v₀ f) empty).keys ↔ k ∈ xs.map key := by
  rw [mem_keys_iff, get?_foldl_upsertAt, List.mem_map]
  have hfilter : xs.filter (fun x => some (key x) = some k) ≠ [] ↔ ∃ x ∈ xs, key x = k := by
    rw [ne_eq, List.filter_eq_nil_iff]
    simp
  split_ifs with hnone
  · refine iff_of_false (by simp) fun hx => hfilter.mpr hx hnone
  · exact iff_of_true ⟨_, rfl⟩ (hfilter.mp hnone)

theorem length_foldl_upsertAt :
    (xs.foldl (upsertAt (fun x => some (key x)) v₀ f) empty).items.length =
      (xs.map key).dedup.length := by
  have hperm : (xs.foldl (upsertAt (fun x => some (key x)) v₀ f) empty).keys.Perm
      (xs.map key).dedup := by
    refine (List.perm_ext_iff_of_nodup (Dict.nodup _) (List.nodup_dedup _)).mpr fun k => ?_
    exact mem_keys_foldl_upsertAt.trans List.mem_dedup.symm
  have hlength := hperm.length_eq
  rwa [keys, List.length_map] at hlength

theorem length_foldl_upsertAt_le :
    (xs.foldl (upsertAt (fun x => some (key x)) v₀ f) empty).items.length ≤ xs.length := by
  rw [length_foldl_upsertAt]
  have hle := (List.dedup_sublist (xs.map key)).length_le
  rwa [List.length_map] at hle

/-- **As many entries as elements** are there only for different keys. -/
theorem nodup_of_length_foldl_upsertAt
    (h : (xs.foldl (upsertAt (fun x => some (key x)) v₀ f) empty).items.length = xs.length) :
    (xs.map key).Nodup := by
  rw [length_foldl_upsertAt] at h
  have hself : (xs.map key).dedup = xs.map key :=
    (List.dedup_sublist _).eq_of_length (h.trans (List.length_map key).symm)
  exact List.dedup_eq_self.mp hself

/-- A group is what was read under its key, and nothing for a key that was not read. -/
theorem getD_get?_foldl_groupAt {β : Type} (key : α → Option κ) (val : α → β) (xs : List α)
    (k : κ) :
    (((xs.foldl (groupAt key val) empty).get? k).getD []) =
      (xs.filter (key · = some k)).map val := by
  cases hget : (xs.foldl (groupAt key val) empty).get? k with
  | some vs => exact (mem_foldl_groupAt.mp (mem_items_iff.mpr hget)).2
  | none =>
      have hnil : xs.filter (key · = some k) = [] := by
        by_contra hne
        have hmem : (k, (xs.filter (key · = some k)).map val) ∈
            (xs.foldl (groupAt key val) empty).items := mem_foldl_groupAt.mpr ⟨hne, rfl⟩
        rw [mem_items_iff, hget] at hmem
        exact absurd hmem nofun
      rw [hnil, Option.getD_none, List.map_nil]

end PgErdCloud.Lib.Dict
