/-
  Scripts whose statements create things and need things: a script is in order when each
  statement needs only what is there before the script or is created by an earlier statement.
  A script that is written block by block from a list of rows is in order exactly when the
  rows are; and sorted rows are in order exactly when what a row needs sorts before it.
-/
import Mathlib.Data.Set.Lattice
import Mathlib.Order.Basic

namespace PgErdCloud.Lib

variable {α β ρ : Type}

/-- Each statement needs only what is in `seen` or is created by an earlier one. -/
def Ordered (creates needs : α → Set β) : Set β → List α → Prop
  | _, [] => True
  | seen, x :: xs => needs x ⊆ seen ∧ Ordered creates needs (seen ∪ creates x) xs

/-- What a script creates. -/
def created (creates : α → Set β) (xs : List α) : Set β := {b | ∃ x ∈ xs, b ∈ creates x}

section
variable (creates needs : α → Set β) (seen : Set β)

@[simp] theorem created_nil : created creates [] = ∅ := by
  simp [created]

@[simp] theorem created_cons (x : α) (xs : List α) :
    created creates (x :: xs) = creates x ∪ created creates xs := by
  ext b
  simp [created]

@[simp] theorem created_append (xs ys : List α) :
    created creates (xs ++ ys) = created creates xs ∪ created creates ys := by
  ext b
  simp [created, or_and_right, exists_or]

/-- A script is in order when its first part is, and its second part after the first. -/
theorem ordered_append (xs ys : List α) :
    Ordered creates needs seen (xs ++ ys) ↔
      Ordered creates needs seen xs ∧ Ordered creates needs (seen ∪ created creates xs) ys := by
  induction xs generalizing seen with
  | nil => simp [Ordered]
  | cons x xs ih =>
      rw [List.cons_append, Ordered, Ordered, ih, created_cons, Set.union_assoc, and_assoc]

/-- The order in terms of what stands before a statement. -/
theorem ordered_iff_forall_split (xs : List α) :
    Ordered creates needs seen xs ↔ ∀ before x after, xs = before ++ x :: after →
      needs x ⊆ seen ∪ created creates before := by
  constructor
  · rintro h before x after rfl
    rw [ordered_append] at h
    exact h.2.1
  · intro h
    induction xs generalizing seen with
    | nil => trivial
    | cons x xs ih =>
        constructor
        · have hx := h [] x xs rfl
          rwa [created_nil, Set.union_empty] at hx
        · apply ih
          intro before y after hxs
          have hy := h (x :: before) y after (by rw [hxs]; rfl)
          rwa [created_cons, ← Set.union_assoc] at hy

/-- Statements that find what they need at the start are in order. -/
theorem ordered_of_subset {xs : List α} (h : ∀ x ∈ xs, needs x ⊆ seen) :
    Ordered creates needs seen xs := by
  rw [ordered_iff_forall_split]
  rintro before x after rfl
  exact (h x (by simp)).trans Set.subset_union_left

/-- Statements that create nothing are in order only if they find what they need at the
    start. -/
theorem ordered_iff_of_creates_nothing {xs : List α} (hnone : ∀ x ∈ xs, creates x = ∅) :
    Ordered creates needs seen xs ↔ ∀ x ∈ xs, needs x ⊆ seen := by
  induction xs with
  | nil => simp [Ordered]
  | cons x xs ih =>
      rw [Ordered, hnone x List.mem_cons_self, Set.union_empty,
        ih fun y hy => hnone y (List.mem_cons_of_mem _ hy), List.forall_mem_cons]

/-- A script of blocks is in order when the rows that it is written from are. -/
theorem ordered_flatMap {block : ρ → List α} {rowCreates rowNeeds : ρ → Set β} {rows : List ρ}
    (hcreates : ∀ r ∈ rows, created creates (block r) = rowCreates r)
    (hneeds : ∀ r ∈ rows, ∀ seen, Ordered creates needs seen (block r) ↔ rowNeeds r ⊆ seen) :
    Ordered creates needs seen (rows.flatMap block) ↔
      Ordered rowCreates rowNeeds seen rows := by
  induction rows generalizing seen with
  | nil => simp [Ordered]
  | cons r rows ih =>
      rw [List.flatMap_cons, ordered_append, Ordered, hneeds r List.mem_cons_self,
        hcreates r List.mem_cons_self,
        ih _ (fun r hr => hcreates r (List.mem_cons_of_mem _ hr))
          (fun r hr => hneeds r (List.mem_cons_of_mem _ hr))]

/-- Sorted rows are in order exactly when each row finds what it needs in rows that sort
    before it, if no row needs what one of the same place creates. -/
theorem ordered_sorted_iff {κ : Type} [LinearOrder κ] (key : α → κ) {xs : List α}
    (hsorted : xs.Pairwise fun x y => key x ≤ key y)
    (hself : ∀ x ∈ xs, ∀ y ∈ xs, key y = key x → ∀ b ∈ needs x, b ∉ creates y) :
    Ordered creates needs ∅ xs ↔
      ∀ x ∈ xs, ∀ b ∈ needs x, ∃ y ∈ xs, b ∈ creates y ∧ key y < key x := by
  rw [ordered_iff_forall_split]
  simp only [Set.empty_union]
  constructor
  · intro h x hx b hb
    obtain ⟨before, after, rfl⟩ := List.append_of_mem hx
    obtain ⟨y, hy, hby⟩ := h before x after rfl hb
    have hmem : y ∈ before ++ x :: after := List.mem_append_left _ hy
    have hle : key y ≤ key x :=
      (List.pairwise_append.mp hsorted).2.2 y hy x List.mem_cons_self
    have hne : key y ≠ key x := fun he => hself x hx y hmem he b hb hby
    exact ⟨y, hmem, hby, lt_of_le_of_ne hle hne⟩
  · rintro h before x after rfl b hb
    obtain ⟨y, hy, hby, hlt⟩ := h x (by simp) b hb
    rw [List.pairwise_append, List.pairwise_cons] at hsorted
    obtain ⟨-, ⟨hafter, -⟩, -⟩ := hsorted
    -- a row that sorts before `x` stands before it
    rcases List.mem_append.mp hy with hy | hy
    · exact ⟨y, hy, hby⟩
    · rcases List.mem_cons.mp hy with rfl | hy
      · exact absurd hlt (lt_irrefl _)
      · exact absurd hlt (not_lt_of_ge (hafter y hy))

end

end PgErdCloud.Lib
