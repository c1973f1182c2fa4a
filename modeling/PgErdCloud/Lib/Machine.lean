/-
  Machines that take one action at a time: `step s a` is the state after action `a` in state
  `s`, or `none` when `a` is not enabled there. A run is a list of actions each of which is
  enabled when its turn comes.

  Rules: a property that every step keeps holds after every run (`run_invariant`), also when
  it is kept only by the steps that meet a condition (`run_invariant_of_everyStep`), and if it is
  lost by all others, only then (`forall_state_iff_everyStep`); a change that moves the machine
  for good happens at most once in a run (`countSteps_le_one`).
-/
import Mathlib.Data.List.Basic
import Mathlib.Data.List.Induction

namespace PgErdCloud.Lib

variable {σ α : Type} (step : σ → α → Option σ)

/-! ## Runs -/

/-- The state after the actions, when all of them are enabled in their turn. -/
def run : σ → List α → Option σ
  | s, [] => some s
  | s, a :: actions => (step s a).bind fun s' => run s' actions

variable {step}

@[simp] theorem run_nil (s : σ) : run step s [] = some s := rfl

theorem run_cons {s t : σ} {a : α} {actions : List α} :
    run step s (a :: actions) = some t ↔ ∃ u, step s a = some u ∧ run step u actions = some t :=
  Option.bind_eq_some_iff

theorem run_append {s t : σ} {before after : List α} :
    run step s (before ++ after) = some t ↔
      ∃ u, run step s before = some u ∧ run step u after = some t := by
  induction before generalizing s with
  | nil => simp
  | cons a before ih =>
      rw [List.cons_append, run_cons]
      constructor
      · rintro ⟨v, hv, hr⟩
        obtain ⟨u, hu, ht⟩ := ih.mp hr
        exact ⟨u, run_cons.mpr ⟨v, hv, hu⟩, ht⟩
      · rintro ⟨u, hu, ht⟩
        obtain ⟨v, hv, hr⟩ := run_cons.mp hu
        exact ⟨v, hv, ih.mpr ⟨u, hr, ht⟩⟩

theorem run_concat {s t : σ} {actions : List α} {a : α} :
    run step s (actions ++ [a]) = some t ↔
      ∃ u, run step s actions = some u ∧ step u a = some t := by
  rw [run_append]
  simp only [run_cons, run_nil, Option.some.injEq, exists_eq_right]

/-! ## Invariants -/

/-- A property that every step keeps holds after every run. -/
theorem run_invariant {Inv : σ → Prop} (hstep : ∀ s a t, Inv s → step s a = some t → Inv t)
    {s t : σ} {actions : List α} (hs : Inv s) (h : run step s actions = some t) : Inv t := by
  induction actions generalizing s with
  | nil =>
      rw [run_nil, Option.some.injEq] at h
      exact h ▸ hs
  | cons a actions ih =>
      obtain ⟨u, hu, hr⟩ := run_cons.mp h
      exact ih (hstep s a u hs hu) hr

/-- Every step of the run from `s` is taken in a state and with an action that satisfy `P`. -/
def EveryStep (step : σ → α → Option σ) (P : σ → α → Prop) (s : σ) (actions : List α) : Prop :=
  ∀ before a after u, actions = before ++ a :: after → run step s before = some u → P u a

theorem EveryStep.of_append {P : σ → α → Prop} {s : σ} {actions rest : List α}
    (h : EveryStep step P s (actions ++ rest)) : EveryStep step P s actions := by
  intro before b after u he hu
  exact h before b (after ++ rest) u (by rw [he, List.append_assoc]; rfl) hu

theorem EveryStep.last {P : σ → α → Prop} {s u : σ} {actions : List α} {a : α}
    (h : EveryStep step P s (actions ++ [a])) (hu : run step s actions = some u) : P u a :=
  h actions a [] u rfl hu

/-- A property that is kept by the steps that satisfy `P` holds after every run of such
    steps. -/
theorem run_invariant_of_everyStep {P : σ → α → Prop} {Inv : σ → Prop}
    (hstep : ∀ s a t, Inv s → P s a → step s a = some t → Inv t)
    {s t : σ} {actions : List α} (hs : Inv s) (hall : EveryStep step P s actions)
    (h : run step s actions = some t) : Inv t := by
  induction actions using List.reverseRecOn generalizing t with
  | nil =>
      rw [run_nil, Option.some.injEq] at h
      exact h ▸ hs
  | append_singleton actions a ih =>
      obtain ⟨u, hu, ht⟩ := run_concat.mp h
      exact hstep u a t (ih hall.of_append hu) (hall.last hu) ht

/-- When a step that starts with `Inv` ends with it exactly if it satisfies `P`, where `J` is kept
    by all steps: the states of a run all satisfy `Inv` exactly if its steps all satisfy `P`. -/
theorem forall_state_iff_everyStep {P : σ → α → Prop} {Inv J : σ → Prop}
    (hJ : ∀ s a t, J s → step s a = some t → J t)
    (hiff : ∀ s a t, J s → Inv s → step s a = some t → (Inv t ↔ P s a))
    {s t : σ} {actions : List α} (hsJ : J s) (hs : Inv s) (h : run step s actions = some t) :
    (∀ before after u, actions = before ++ after → run step s before = some u → Inv u) ↔
      EveryStep step P s actions := by
  constructor
  · intro hall before a after u he hu
    rw [he] at h
    obtain ⟨u', hu', hafter⟩ := run_append.mp h
    rw [hu, Option.some.injEq] at hu'
    obtain ⟨v, hv, -⟩ := run_cons.mp (hu' ▸ hafter)
    have hv' : Inv v := hall (before ++ [a]) after v (by simp [he]) (run_concat.mpr ⟨u, hu, hv⟩)
    exact (hiff u a v (run_invariant hJ hsJ hu) (hall before (a :: after) u he hu) hv).mp hv'
  · intro hall before after u he hu
    have hboth : ∀ s a t, J s ∧ Inv s → P s a → step s a = some t → J t ∧ Inv t :=
      fun s a t ⟨hj, hi⟩ hp hst => ⟨hJ s a t hj hst, (hiff s a t hj hi hst).mpr hp⟩
    exact (run_invariant_of_everyStep hboth ⟨hsJ, hs⟩ (he ▸ hall).of_append hu).2

/-- Whether every step of the run from `s` passes the test `p`. -/
def checkSteps (step : σ → α → Option σ) (p : σ → α → Bool) : σ → List α → Bool
  | _, [] => true
  | s, a :: actions => p s a && (step s a).all fun t => checkSteps step p t actions

theorem everyStep_of_checkSteps {p : σ → α → Bool} {s : σ} {actions : List α}
    (h : checkSteps step p s actions = true) :
    EveryStep step (fun s a => p s a = true) s actions := by
  induction actions generalizing s with
  | nil =>
      intro before a after u he
      exact absurd he (by simp)
  | cons b actions ih =>
      rw [checkSteps, Bool.and_eq_true, Option.all_eq_true] at h
      intro before a after u he hu
      cases before with
      | nil =>
          rw [run_nil, Option.some.injEq] at hu
          obtain ⟨rfl, -⟩ := List.cons.inj he
          exact hu ▸ h.1
      | cons c before =>
          obtain ⟨rfl, rfl⟩ := List.cons.inj he
          obtain ⟨v, hv, hr⟩ := run_cons.mp hu
          exact ih (h.2 v hv) before a after u rfl hr

/-! ## Steps of a run -/

/-- Some step of the run from `s` goes from `u` by `a` to `v` with `P u a v`. -/
def SomeStep (step : σ → α → Option σ) (P : σ → α → σ → Prop) (s : σ) (actions : List α) :
    Prop :=
  ∃ before a after u v, actions = before ++ a :: after ∧ run step s before = some u ∧
    step u a = some v ∧ P u a v

@[simp] theorem not_someStep_nil {P : σ → α → σ → Prop} {s : σ} : ¬ SomeStep step P s [] := by
  rintro ⟨before, a, after, u, v, he, -⟩
  exact absurd he (by simp)

/-- The steps of a run are those before its last action and the last one. -/
theorem someStep_concat {P : σ → α → σ → Prop} {s u v : σ} {actions : List α} {a : α}
    (hu : run step s actions = some u) (hv : step u a = some v) :
    SomeStep step P s (actions ++ [a]) ↔ SomeStep step P s actions ∨ P u a v := by
  constructor
  · rintro ⟨before, b, after, x, y, he, hx, hy, hp⟩
    rcases List.eq_nil_or_concat after with rfl | ⟨rest, c, rfl⟩
    · obtain ⟨rfl, hb⟩ := List.append_inj' he rfl
      obtain rfl : a = b := List.singleton_inj.mp hb
      rw [hu, Option.some.injEq] at hx
      subst hx
      rw [hv, Option.some.injEq] at hy
      subst hy
      exact .inr hp
    · have he' : actions ++ [a] = (before ++ b :: rest) ++ [c] := by simpa using he
      exact .inl ⟨before, b, rest, x, y, (List.append_inj' he' rfl).1, hx, hy, hp⟩
  · rintro (⟨before, b, after, x, y, rfl, hx, hy, hp⟩ | hp)
    · exact ⟨before, b, after ++ [a], x, y, by simp, hx, hy, hp⟩
    · exact ⟨actions, a, [], u, v, rfl, hu, hv, hp⟩

/-- How many steps of the run from `s` go from a state `u` to a state `v` with `p u v`. -/
def countSteps (step : σ → α → Option σ) (p : σ → σ → Prop) [DecidableRel p] :
    σ → List α → Nat
  | _, [] => 0
  | s, a :: actions =>
      match step s a with
      | none => 0
      | some t => (if p s t then 1 else 0) + countSteps step p t actions

/-- Once `Done` holds it keeps holding, and a change that needs `¬ Done` is not made any
    more. -/
theorem countSteps_eq_zero {p : σ → σ → Prop} [DecidableRel p] {Inv Done : σ → Prop}
    (hinv : ∀ s a t, Inv s → step s a = some t → Inv t)
    (hkeep : ∀ s a t, Inv s → Done s → step s a = some t → Done t)
    (hp : ∀ s t, p s t → ¬ Done s) {s : σ} (hs : Inv s) (hd : Done s) (actions : List α) :
    countSteps step p s actions = 0 := by
  induction actions generalizing s with
  | nil => rfl
  | cons a actions ih =>
      rw [countSteps]
      cases hst : step s a with
      | none => rfl
      | some t =>
          have hno : ¬ p s t := fun h => hp s t h hd
          simp only [if_neg hno, ih (hinv s a t hs hst) (hkeep s a t hs hd hst)]

/-- A change that moves the machine from `¬ Done` to `Done`, where it stays, happens at most
    once in a run. -/
theorem countSteps_le_one {p : σ → σ → Prop} [DecidableRel p] {Inv Done : σ → Prop}
    (hinv : ∀ s a t, Inv s → step s a = some t → Inv t)
    (hkeep : ∀ s a t, Inv s → Done s → step s a = some t → Done t)
    (hp : ∀ s t, p s t → ¬ Done s) (hdone : ∀ s t, p s t → Done t) {s : σ} (hs : Inv s)
    (actions : List α) : countSteps step p s actions ≤ 1 := by
  induction actions generalizing s with
  | nil => exact Nat.zero_le 1
  | cons a actions ih =>
      rw [countSteps]
      cases hst : step s a with
      | none => exact Nat.zero_le 1
      | some t =>
          have ht := hinv s a t hs hst
          by_cases h : p s t
          · simp only [if_pos h, countSteps_eq_zero hinv hkeep hp ht (hdone s t h) actions]
            exact Nat.le_refl 1
          · simp only [if_neg h, Nat.zero_add]
            exact ih ht

end PgErdCloud.Lib
