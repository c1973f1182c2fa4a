/-
  Insertion-ordered dictionaries: entries in the order their keys were first set, one entry
  for each key. Setting a key that is present replaces its value in place; a new key goes to
  the end. This is the order Python dictionaries iterate in, and it serves for a database
  table whose rows are found by their primary key as well.
-/
import Mathlib

namespace PgErdCloud.Lib

variable {κ ν : Type} [DecidableEq κ]

/-! ## Entries -/

/-- `entries` with the value at `k` replaced, or with a new entry at the end. -/
def setEntry (k : κ) (v : ν) : List (κ × ν) → List (κ × ν)
  | [] => [(k, v)]
  | (k', v') :: rest => if k' = k then (k', v) :: rest else (k', v') :: setEntry k v rest

theorem map_fst_setEntry (k : κ) (v : ν) (entries : List (κ × ν)) :
    (setEntry k v entries).map Prod.fst =
      if k ∈ entries.map Prod.fst then entries.map Prod.fst
      else entries.map Prod.fst ++ [k] := by
  induction entries with
  | nil => simp [setEntry]
  | cons e rest ih =>
      obtain ⟨k', v'⟩ := e
      by_cases h : k' = k
      · simp [setEntry, h]
      · have h' : k ≠ k' := Ne.symm h
        by_cases hm : k ∈ rest.map Prod.fst
        · rw [if_pos hm] at ih
          simp [setEntry, h, ih, hm]
        · rw [if_neg hm] at ih
          rw [if_neg (by simp [h', hm]), setEntry, if_neg h, List.map_cons, ih]
          rfl

theorem lookup_setEntry (k k' : κ) (v : ν) (entries : List (κ × ν)) :
    (setEntry k v entries).lookup k' = if k' = k then some v else entries.lookup k' := by
  induction entries with
  | nil =>
      by_cases h : k' = k
      · simp [setEntry, h]
      · have hb : (k' == k) = false := beq_false_of_ne h
        simp [setEntry, h, List.lookup, hb]
  | cons e rest ih =>
      obtain ⟨a, b⟩ := e
      by_cases ha : a = k
      · subst ha
        by_cases h : k' = a
        · simp [setEntry, h]
        · have hb : (k' == a) = false := beq_false_of_ne h
          simp [setEntry, h, List.lookup, hb]
      · rw [setEntry, if_neg ha]
        by_cases h : k' = a
        · subst h
          simp [ha]
        · have hb : (k' == a) = false := beq_false_of_ne h
          simp only [List.lookup, hb]
          exact ih

/-! ## Dictionaries -/

/-- A dictionary: its entries in insertion order, no key twice. -/
structure Dict (κ ν : Type) where
  items : List (κ × ν)
  nodup : (items.map Prod.fst).Nodup

namespace Dict

omit [DecidableEq κ] in
/-- Dictionaries with the same entries are equal. -/
@[ext] theorem ext {d e : Dict κ ν} (h : d.items = e.items) : d = e := by
  cases d
  cases e
  subst h
  rfl

instance [DecidableEq ν] : DecidableEq (Dict κ ν) :=
  fun d e => decidable_of_iff (d.items = e.items) ⟨ext, fun h => h ▸ rfl⟩

/-- The dictionary without entries. -/
def empty : Dict κ ν := ⟨[], List.nodup_nil⟩

/-- The keys, in insertion order. -/
def keys (d : Dict κ ν) : List κ := d.items.map Prod.fst

/-- The values, in the order of their keys. -/
def values (d : Dict κ ν) : List ν := d.items.map Prod.snd

/-- The value at `k`, if there is one. -/
def get? (d : Dict κ ν) (k : κ) : Option ν := d.items.lookup k

/-- `d[k] = v`. -/
def set (d : Dict κ ν) (k : κ) (v : ν) : Dict κ ν where
  items := setEntry k v d.items
  nodup := by
    rw [map_fst_setEntry]
    by_cases h : k ∈ d.items.map Prod.fst
    · rw [if_pos h]
      exact d.nodup
    · rw [if_neg h, List.nodup_append]
      refine ⟨d.nodup, List.nodup_singleton k, ?_⟩
      rintro a ha b hb rfl
      exact h (List.mem_singleton.mp hb ▸ ha)

/-- The entries that satisfy `p`, in the same order. -/
def filter (d : Dict κ ν) (p : κ → ν → Bool) : Dict κ ν where
  items := d.items.filter fun e => p e.1 e.2
  nodup := d.nodup.sublist (List.filter_sublist.map _)

/-- The value at `k` changed by `f`; nothing when `k` is absent. -/
def modify (d : Dict κ ν) (k : κ) (f : ν → ν) : Dict κ ν :=
  match d.get? k with
  | none => d
  | some v => d.set k (f v)

/-! ## Reading back -/

@[simp] theorem get?_empty (k : κ) : (empty : Dict κ ν).get? k = none := rfl

theorem get?_set (d : Dict κ ν) (k k' : κ) (v : ν) :
    (d.set k v).get? k' = if k' = k then some v else d.get? k' :=
  lookup_setEntry k k' v d.items

@[simp] theorem get?_set_self (d : Dict κ ν) (k : κ) (v : ν) : (d.set k v).get? k = some v := by
  rw [get?_set, if_pos rfl]

theorem get?_set_ne (d : Dict κ ν) {k k' : κ} (v : ν) (h : k' ≠ k) :
    (d.set k v).get? k' = d.get? k' := by
  rw [get?_set, if_neg h]

theorem keys_set (d : Dict κ ν) (k : κ) (v : ν) :
    (d.set k v).keys = if k ∈ d.keys then d.keys else d.keys ++ [k] :=
  map_fst_setEntry k v d.items

theorem mem_items_iff {d : Dict κ ν} {k : κ} {v : ν} : (k, v) ∈ d.items ↔ d.get? k = some v := by
  obtain ⟨items, nodup⟩ := d
  simp only [get?]
  induction items with
  | nil => simp
  | cons e rest ih =>
      obtain ⟨a, b⟩ := e
      rw [List.map_cons, List.nodup_cons] at nodup
      by_cases h : k = a
      · subst h
        have hrest : (k, v) ∉ rest := fun hm =>
          nodup.1 (List.mem_map.mpr ⟨(k, v), hm, rfl⟩)
        simp [hrest, eq_comm]
      · have hb : (k == a) = false := beq_false_of_ne h
        simp only [List.mem_cons, Prod.mk.injEq, h, false_and, false_or, List.lookup, hb]
        exact ih nodup.2

theorem mem_keys_iff {d : Dict κ ν} {k : κ} : k ∈ d.keys ↔ ∃ v, d.get? k = some v := by
  simp only [keys, List.mem_map, Prod.exists, exists_and_right, exists_eq_right, mem_items_iff]

theorem get?_eq_none_iff {d : Dict κ ν} {k : κ} : d.get? k = none ↔ k ∉ d.keys := by
  rw [mem_keys_iff, Option.eq_none_iff_forall_ne_some, not_exists]

theorem get?_filter (d : Dict κ ν) (p : κ → ν → Bool) (k : κ) :
    (d.filter p).get? k = (d.get? k).filter (p k) := by
  rw [Option.ext_iff]
  intro v
  rw [← mem_items_iff, Option.filter_eq_some_iff, ← mem_items_iff]
  simp [filter, List.mem_filter]

theorem get?_modify (d : Dict κ ν) (k k' : κ) (f : ν → ν) :
    (d.modify k f).get? k' = if k' = k then (d.get? k).map f else d.get? k' := by
  rw [modify]
  cases hd : d.get? k with
  | none =>
      by_cases h : k' = k
      · rw [if_pos h, h]
        simp [hd]
      · simp [h]
  | some v =>
      simp only [get?_set]
      rfl

theorem filter_items_key (d : Dict κ ν) (k : κ) :
    d.items.filter (fun e => e.1 = k) = ((d.get? k).map fun v => (k, v)).toList := by
  obtain ⟨items, nodup⟩ := d
  simp only [get?]
  induction items with
  | nil => rfl
  | cons e rest ih =>
      obtain ⟨a, b⟩ := e
      rw [List.map_cons, List.nodup_cons] at nodup
      by_cases h : a = k
      · subst h
        have hrest : rest.filter (fun e => e.1 = a) = [] := by
          rw [List.filter_eq_nil_iff]
          intro e he
          simp only [decide_eq_true_eq]
          rintro rfl
          exact nodup.1 (List.mem_map.mpr ⟨e, he, rfl⟩)
        simp [hrest]
      · have hb : (k == a) = false := beq_false_of_ne fun he => h he.symm
        simp only [List.filter_cons, decide_eq_true_eq, h, if_false, ih nodup.2, List.lookup, hb]

/-- Of a loop over the entries, what the entry of one key adds. -/
theorem flatMap_items {α : Type} (d : Dict κ ν) (k : κ) (f : κ × ν → List α)
    (hne : ∀ e ∈ d.items, e.1 ≠ k → f e = []) :
    d.items.flatMap f = ((d.get? k).map fun v => f (k, v)).getD [] := by
  have hfilter : d.items.flatMap f = (d.items.filter fun e => e.1 = k).flatMap f := by
    generalize d.items = items at hne ⊢
    induction items with
    | nil => rfl
    | cons e rest ih =>
        have hrest := ih fun e he => hne e (List.mem_cons_of_mem _ he)
        by_cases h : e.1 = k
        · simp [h, hrest]
        · simp [h, hrest, hne e List.mem_cons_self h]
  rw [hfilter, filter_items_key]
  cases d.get? k with
  | none => rfl
  | some v => simp

theorem keys_modify (d : Dict κ ν) (k : κ) (f : ν → ν) : (d.modify k f).keys = d.keys := by
  rw [modify]
  cases hd : d.get? k with
  | none => rfl
  | some v =>
      have hk : k ∈ d.keys := mem_keys_iff.mpr ⟨v, hd⟩
      simp only [keys_set, if_pos hk]

/-! ## Loops

What a loop leaves at a key depends on the elements with that key only. In `modifyAt` and
`upsertAt` an element without a key (`none`) is skipped. -/

section
variable {α : Type}

/-- Change the value at the element's key. -/
def modifyAt (key : α → Option κ) (f : α → ν → ν) (d : Dict κ ν) (x : α) : Dict κ ν :=
  match key x with
  | some k => d.modify k (f x)
  | none => d

/-- Change the value at the element's key, or insert it, starting from `v₀`. -/
def upsertAt (key : α → Option κ) (v₀ : ν) (f : α → ν → ν) (d : Dict κ ν) (x : α) : Dict κ ν :=
  match key x with
  | some k => d.set k (f x ((d.get? k).getD v₀))
  | none => d

theorem mem_keys_foldl_set (key : α → κ) (val : α → ν) (xs : List α) (d : Dict κ ν) (k : κ) :
    k ∈ (xs.foldl (fun d x => d.set (key x) (val x)) d).keys ↔
      k ∈ d.keys ∨ ∃ x ∈ xs, key x = k := by
  induction xs generalizing d with
  | nil => simp
  | cons x xs ih =>
      have hset : k ∈ (d.set (key x) (val x)).keys ↔ k ∈ d.keys ∨ key x = k := by
        rw [mem_keys_iff, get?_set]
        by_cases h : k = key x
        · simp [h]
        · simp [h, Ne.symm h, mem_keys_iff]
      rw [List.foldl_cons, ih, hset, or_assoc]
      simp

/-- What the loop stores is the value of one of the elements. -/
theorem exists_of_get?_foldl_set {key : α → κ} {val : α → ν} {xs : List α} {k : κ} {v : ν}
    (h : (xs.foldl (fun d x => d.set (key x) (val x)) (empty : Dict κ ν)).get? k = some v) :
    ∃ x ∈ xs, key x = k ∧ val x = v := by
  have hall : ∀ k v,
      (xs.foldl (fun d x => d.set (key x) (val x)) (empty : Dict κ ν)).get? k = some v →
        ∃ x ∈ xs, key x = k ∧ val x = v := by
    refine List.foldlRecOn (motive := fun d : Dict κ ν =>
      ∀ k v, d.get? k = some v → ∃ x ∈ xs, key x = k ∧ val x = v) xs _ ?_ ?_
    · intro k v hget
      exact absurd hget (by simp)
    · intro d ih x hx k v hget
      rw [get?_set] at hget
      split_ifs at hget with he
      · exact ⟨x, hx, he.symm, Option.some.inj hget⟩
      · exact ih k v hget
  exact hall k v h

/-- With one element for each key, the loop stores each element's value. -/
theorem get?_foldl_set {key : α → κ} {xs : List α} (hkeys : (xs.map key).Nodup) (val : α → ν)
    {x : α} (hx : x ∈ xs) (d : Dict κ ν) :
    (xs.foldl (fun d x => d.set (key x) (val x)) d).get? (key x) = some (val x) := by
  induction xs generalizing d with
  | nil => exact absurd hx List.not_mem_nil
  | cons y xs ih =>
      rw [List.map_cons, List.nodup_cons] at hkeys
      rcases List.mem_cons.mp hx with rfl | hx
      · have hkeep : ∀ d : Dict κ ν,
            (xs.foldl (fun d x => d.set (key x) (val x)) d).get? (key x) = d.get? (key x) := by
          have hne : ∀ z ∈ xs, key x ≠ key z := fun z hz he =>
            hkeys.1 (he ▸ List.mem_map_of_mem hz)
          intro d
          refine List.foldlRecOn (motive := fun e : Dict κ ν => e.get? (key x) = d.get? (key x))
            xs _ rfl fun e he z hz => ?_
          rw [get?_set_ne _ _ (hne z hz), he]
        rw [List.foldl_cons, hkeep, get?_set_self]
      · exact ih hkeys.2 hx _

theorem get?_foldl_set_find {key : α → κ} {xs : List α} (hkeys : (xs.map key).Nodup)
    (val : α → ν) (k : κ) :
    (xs.foldl (fun d x => d.set (key x) (val x)) empty).get? k =
      (xs.find? fun x => key x = k).map val := by
  cases hx : xs.find? fun x => key x = k with
  | none =>
      rw [List.find?_eq_none] at hx
      rw [Option.map_none, get?_eq_none_iff, mem_keys_foldl_set]
      rintro (h | ⟨x, hm, he⟩)
      · exact absurd h List.not_mem_nil
      · exact hx x hm (decide_eq_true he)
  | some x =>
      have he : key x = k := by simpa using List.find?_some hx
      rw [← he]
      exact get?_foldl_set hkeys val (List.mem_of_find?_eq_some hx) empty

/-- The loop leaves the value of the last element with the key. -/
theorem get?_foldl_set_getLast? (key : α → κ) (val : α → ν) (xs : List α) (k : κ) :
    (xs.foldl (fun d x => d.set (key x) (val x)) empty).get? k =
      ((xs.filter (key · = k)).getLast?).map val := by
  induction xs using List.reverseRecOn with
  | nil => rfl
  | append_singleton xs x ih =>
      rw [List.foldl_append, List.foldl_cons, List.foldl_nil, get?_set, ih, List.filter_append]
      by_cases h : k = key x
      · simp [h]
      · have h' : ¬ key x = k := fun he => h he.symm
        simp [h, h']

theorem keys_foldl_modifyAt (key : α → Option κ) (f : α → ν → ν) (xs : List α) (d : Dict κ ν) :
    (xs.foldl (modifyAt key f) d).keys = d.keys := by
  refine List.foldlRecOn (motive := fun e : Dict κ ν => e.keys = d.keys) xs _ rfl
    fun e he x _ => ?_
  rw [modifyAt]
  cases key x with
  | none => exact he
  | some k => exact (keys_modify e k (f x)).trans he

theorem get?_foldl_modifyAt (key : α → Option κ) (f : α → ν → ν) (xs : List α) (d : Dict κ ν)
    (k : κ) :
    (xs.foldl (modifyAt key f) d).get? k =
      (d.get? k).map fun v => (xs.filter (key · = some k)).foldl (fun v x => f x v) v := by
  induction xs generalizing d with
  | nil => simp
  | cons x xs ih =>
      rw [List.foldl_cons, ih, modifyAt]
      cases hx : key x with
      | none => simp [hx]
      | some k' =>
          by_cases h : k = k'
          · subst h
            simp [hx, get?_modify, Function.comp_def]
          · have h' : ¬ k' = k := fun he => h he.symm
            simp [hx, get?_modify, h, h']

theorem get?_foldl_upsertAt (key : α → Option κ) (v₀ : ν) (f : α → ν → ν) (xs : List α)
    (d : Dict κ ν) (k : κ) :
    (xs.foldl (upsertAt key v₀ f) d).get? k =
      if xs.filter (key · = some k) = [] then d.get? k
      else some ((xs.filter (key · = some k)).foldl (fun v x => f x v) ((d.get? k).getD v₀)) := by
  induction xs generalizing d with
  | nil => simp
  | cons x xs ih =>
      rw [List.foldl_cons, ih, upsertAt]
      cases hx : key x with
      | none => simp [hx]
      | some k' =>
          by_cases h : k' = k
          · subst h
            by_cases hxs : xs.filter (key · = some k') = []
            · simp [hx, hxs]
            · simp [hx, hxs]
          · have h' : ¬ k = k' := fun he => h he.symm
            simp [hx, h, get?_set, h']

/-- Collect the element's value at its key. -/
def groupAt {β : Type} (key : α → Option κ) (val : α → β) : Dict κ (List β) → α → Dict κ (List β) :=
  upsertAt key [] fun x vs => vs ++ [val x]

/-- The groups are the values with their keys, and none is empty. -/
theorem mem_foldl_groupAt {β : Type} {key : α → Option κ} {val : α → β} {xs : List α}
    {e : κ × List β} :
    e ∈ (xs.foldl (groupAt key val) empty).items ↔
      xs.filter (key · = some e.1) ≠ [] ∧ e.2 = (xs.filter (key · = some e.1)).map val := by
  obtain ⟨k, vs⟩ := e
  have hfold : ∀ (ys : List α) (vs : List β),
      ys.foldl (fun vs x => vs ++ [val x]) vs = vs ++ ys.map val := by
    intro ys
    induction ys with
    | nil => simp
    | cons y ys ih => simp [ih]
  rw [mem_items_iff, groupAt, get?_foldl_upsertAt]
  split_ifs with h
  · simp [h]
  · simp [h, hfold, eq_comm]

/-- A property of the groups is one of the elements. -/
theorem forall_mem_foldl_groupAt {β : Type} {key : α → Option κ} {val : α → β} {xs : List α}
    {P : κ → β → Prop} :
    (∀ e ∈ (xs.foldl (groupAt key val) empty).items, ∀ v ∈ e.2, P e.1 v) ↔
      ∀ x ∈ xs, ∀ k, key x = some k → P k (val x) := by
  constructor
  · intro h x hx k hk
    have hm : x ∈ xs.filter (key · = some k) := List.mem_filter.mpr ⟨hx, decide_eq_true hk⟩
    exact h (k, (xs.filter (key · = some k)).map val)
      (mem_foldl_groupAt.mpr ⟨List.ne_nil_of_mem hm, rfl⟩) (val x) (List.mem_map_of_mem hm)
  · intro h e he v hv
    rw [(mem_foldl_groupAt.mp he).2] at hv
    obtain ⟨x, hm, rfl⟩ := List.mem_map.mp hv
    obtain ⟨hx, hk⟩ := List.mem_filter.mp hm
    exact h x hx e.1 (of_decide_eq_true hk)

end

end Dict

end PgErdCloud.Lib
