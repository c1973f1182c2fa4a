/-
  Bracket nesting over an arbitrary alphabet with one opening and one closing symbol.

  `depth` counts opens minus closes; `NonNeg` says no prefix closes more than it opened.
  `WellNested` is the grammar of nested sequences. The two agree:

  * `wellNested_iff`: `WellNested xs` exactly when `depth xs = 0` and `NonNeg xs`.
  * `group_closes_last_iff`: a nested sequence that starts with the opening symbol is one
    single group, closed by its last symbol, exactly when none of its proper non-empty
    prefixes is itself at depth zero.
-/
import Mathlib

namespace PgErdCloud.Lib.Nesting

variable {α : Type*} [DecidableEq α] {o c : α}

/-- `+1` for the opening symbol, `-1` for the closing one, `0` for anything else. -/
def weight (o c a : α) : Int :=
  if a = o then 1 else if a = c then -1 else 0

/-- Opens minus closes. -/
def depth (o c : α) (xs : List α) : Int :=
  (xs.map (weight o c)).sum

/-- No prefix has closed more than it opened. -/
def NonNeg (o c : α) (xs : List α) : Prop :=
  ∀ p, p <+: xs → 0 ≤ depth o c p

/-- The grammar of nested sequences. -/
inductive WellNested (o c : α) : List α → Prop where
  | nil : WellNested o c []
  | atom {a : α} {xs : List α} (ho : a ≠ o) (hc : a ≠ c) (h : WellNested o c xs) :
      WellNested o c (a :: xs)
  | group {inner rest : List α} (hi : WellNested o c inner) (hr : WellNested o c rest) :
      WellNested o c (o :: (inner ++ c :: rest))

@[simp] theorem depth_nil : depth o c ([] : List α) = 0 := rfl

@[simp] theorem depth_cons (a : α) (xs : List α) :
    depth o c (a :: xs) = weight o c a + depth o c xs := by
  simp [depth]

@[simp] theorem depth_append (xs ys : List α) :
    depth o c (xs ++ ys) = depth o c xs + depth o c ys := by
  simp [depth]

@[simp] theorem weight_open : weight o c o = 1 := by simp [weight]

theorem weight_close (h : o ≠ c) : weight o c c = -1 := by
  simp [weight, h.symm]

theorem weight_atom {a : α} (ho : a ≠ o) (hc : a ≠ c) : weight o c a = 0 := by
  simp [weight, ho, hc]

theorem nonNeg_nil : NonNeg o c ([] : List α) := by
  intro p hp
  rw [List.prefix_nil.mp hp]
  simp

theorem NonNeg.of_isPrefix {xs ys : List α} (h : NonNeg o c ys) (hp : xs <+: ys) :
    NonNeg o c xs :=
  fun p hpx => h p (hpx.trans hp)

/-- A prefix of a concatenation stops inside the first part or reaches into the second. -/
theorem prefix_append_cases {β : Type*} {p xs ys : List β} (h : p <+: xs ++ ys) :
    p <+: xs ∨ ∃ q, p = xs ++ q ∧ q <+: ys := by
  rcases le_total p.length xs.length with hle | hle
  · exact .inl (List.prefix_of_prefix_length_le h (List.prefix_append xs ys) hle)
  · obtain ⟨q, rfl⟩ := List.prefix_of_prefix_length_le (List.prefix_append xs ys) h hle
    exact .inr ⟨q, rfl, (List.prefix_append_right_inj xs).mp h⟩

/-! ## The grammar is the counting condition -/

theorem WellNested.depth_eq (hoc : o ≠ c) {xs : List α} (h : WellNested o c xs) :
    depth o c xs = 0 := by
  induction h with
  | nil => rfl
  | atom ho hc _ ih => rw [depth_cons, weight_atom ho hc, ih]; rfl
  | group _ _ ihi ihr =>
      simp only [depth_cons, depth_append, weight_open, weight_close hoc, ihi, ihr]
      omega

theorem WellNested.nonNeg (hoc : o ≠ c) {xs : List α} (h : WellNested o c xs) :
    NonNeg o c xs := by
  induction h with
  | nil => exact nonNeg_nil
  | atom ho hc _ ih =>
      intro p hp
      rcases List.prefix_cons_iff.mp hp with rfl | ⟨q, rfl, hq⟩
      · simp
      · rw [depth_cons, weight_atom ho hc, zero_add]
        exact ih q hq
  | group hi _ ihi ihr =>
      intro p hp
      rcases List.prefix_cons_iff.mp hp with rfl | ⟨q, rfl, hq⟩
      · simp
      · have hinner : 0 ≤ 1 + depth o c q := by
          rcases prefix_append_cases hq with hq | ⟨r, rfl, hr⟩
          · have := ihi q hq
            omega
          · rcases List.prefix_cons_iff.mp hr with rfl | ⟨s, rfl, hs⟩
            · simp [hi.depth_eq hoc]
            · have := ihr s hs
              simp only [depth_append, depth_cons, hi.depth_eq hoc, weight_close hoc]
              omega
        simpa using hinner

/-- The first place where a sequence goes below `-n`: a closing symbol, after a part that
    stays at or above `-n` and ends there. The induction moves `n` along with the depth. -/
theorem exists_first_close (hoc : o ≠ c) (xs : List α) (n : Nat)
    (h : depth o c xs < -(n : Int)) :
    ∃ inner rest, xs = inner ++ c :: rest ∧ depth o c inner = -(n : Int) ∧
      ∀ p, p <+: inner → -(n : Int) ≤ depth o c p := by
  induction xs generalizing n with
  | nil => simp at h; omega
  | cons a xs ih =>
      rw [depth_cons] at h
      by_cases ho : a = o
      · subst ho
        rw [weight_open] at h
        obtain ⟨inner, rest, rfl, hd, hp⟩ := ih (n + 1) (by push_cast; omega)
        refine ⟨a :: inner, rest, rfl, ?_, ?_⟩
        · rw [depth_cons, weight_open, hd]; push_cast; omega
        · intro p hpre
          rcases List.prefix_cons_iff.mp hpre with rfl | ⟨q, rfl, hq⟩
          · simp
          · have := hp q hq
            rw [depth_cons, weight_open]
            push_cast at this
            omega
      · by_cases hc : a = c
        · subst hc
          rw [weight_close hoc] at h
          cases n with
          | zero =>
              refine ⟨[], xs, rfl, rfl, ?_⟩
              intro p hpre
              rw [List.prefix_nil.mp hpre]
              simp
          | succ n =>
              obtain ⟨inner, rest, rfl, hd, hp⟩ := ih n (by push_cast at h; omega)
              refine ⟨a :: inner, rest, rfl, ?_, ?_⟩
              · rw [depth_cons, weight_close hoc, hd]; push_cast; omega
              · intro p hpre
                rcases List.prefix_cons_iff.mp hpre with rfl | ⟨q, rfl, hq⟩
                · simp
                · have := hp q hq
                  rw [depth_cons, weight_close hoc]
                  push_cast
                  omega
        · rw [weight_atom ho hc, zero_add] at h
          obtain ⟨inner, rest, rfl, hd, hp⟩ := ih n h
          refine ⟨a :: inner, rest, rfl, ?_, ?_⟩
          · rw [depth_cons, weight_atom ho hc, hd, zero_add]
          · intro p hpre
            rcases List.prefix_cons_iff.mp hpre with rfl | ⟨q, rfl, hq⟩
            · simp
            · rw [depth_cons, weight_atom ho hc, zero_add]
              exact hp q hq

theorem wellNested_of_depth (hoc : o ≠ c) (xs : List α) (hd : depth o c xs = 0)
    (hn : NonNeg o c xs) : WellNested o c xs := by
  match xs with
  | [] => exact .nil
  | a :: xs =>
      by_cases ho : a = o
      · subst a
        rw [depth_cons, weight_open] at hd
        obtain ⟨inner, rest, rfl, hdi, hpi⟩ :=
          exists_first_close hoc xs 0 (by push_cast; omega)
        have hi : WellNested o c inner := by
          refine wellNested_of_depth hoc inner (by simpa using hdi) ?_
          intro p hp
          simpa using hpi p hp
        have hr : WellNested o c rest := by
          refine wellNested_of_depth hoc rest ?_ ?_
          · simp only [depth_append, depth_cons, weight_close hoc] at hd
            simp only [Nat.cast_zero, neg_zero] at hdi
            omega
          · intro p hp
            have := hn (o :: (inner ++ c :: p)) (by simpa using hp)
            simp only [depth_cons, depth_append, weight_open, weight_close hoc] at this
            simp only [Nat.cast_zero, neg_zero] at hdi
            omega
        exact .group hi hr
      · have hc : a ≠ c := by
          rintro rfl
          have := hn [a] (by simp)
          rw [depth_cons, weight_close hoc, depth_nil] at this
          omega
        rw [depth_cons, weight_atom ho hc, zero_add] at hd
        refine .atom ho hc (wellNested_of_depth hoc xs hd ?_)
        intro p hp
        have := hn (a :: p) (by simpa using hp)
        rwa [depth_cons, weight_atom ho hc, zero_add] at this
termination_by xs.length
decreasing_by all_goals (simp_all; try omega)

/-- The grammar of nested sequences is exactly the counting condition. -/
theorem wellNested_iff (hoc : o ≠ c) (xs : List α) :
    WellNested o c xs ↔ depth o c xs = 0 ∧ NonNeg o c xs :=
  ⟨fun h => ⟨h.depth_eq hoc, h.nonNeg hoc⟩, fun h => wellNested_of_depth hoc xs h.1 h.2⟩

/-! ## One group -/

/-- A nested sequence starting with the opening symbol is a single group closed by its last
    symbol exactly when every proper non-empty prefix is still inside it. -/
theorem group_closes_last_iff (hoc : o ≠ c) (rest : List α) (h : WellNested o c (o :: rest)) :
    (∃ inner, rest = inner ++ [c] ∧ WellNested o c inner) ↔
      ∀ pre post, o :: rest = pre ++ post → pre ≠ [] → post ≠ [] → depth o c pre ≠ 0 := by
  constructor
  · rintro ⟨inner, rfl, hi⟩ pre post he hpre hpost hd
    obtain ⟨b, pre, rfl⟩ := List.exists_cons_of_ne_nil hpre
    rw [List.cons_append, List.cons.injEq] at he
    obtain ⟨rfl, he⟩ := he
    -- what follows the prefix is non-empty, so the prefix stops before the closing symbol
    have hp : pre <+: inner := by
      have hlen : pre.length ≤ inner.length := by
        have h1 := congrArg List.length he
        have h2 := List.length_pos_iff.mpr hpost
        simp only [List.length_append, List.length_singleton] at h1
        omega
      exact List.prefix_of_prefix_length_le ⟨post, he.symm⟩ ⟨[c], rfl⟩ hlen
    have := hi.nonNeg hoc pre hp
    rw [depth_cons, weight_open] at hd
    omega
  · intro hpre
    cases h with
    | atom ho _ _ => exact absurd rfl ho
    | @group inner rest hi hr =>
        have hnil : rest = [] := by
          by_contra hne
          refine hpre (o :: (inner ++ [c])) rest (by simp) (by simp) hne ?_
          simp [hi.depth_eq hoc, weight_close hoc]
        subst hnil
        exact ⟨inner, rfl, hi⟩

end PgErdCloud.Lib.Nesting
