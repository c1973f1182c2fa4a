/-
  Inversion of successful `Except` computations: a bind, a `mapM` and a `forM` succeed exactly
  when each of their steps does.
-/
import Mathlib

namespace PgErdCloud.Lib.Fallible

variable {ε α β : Type}

theorem bind_eq_ok {x : Except ε α} {f : α → Except ε β} {b : β} :
    x >>= f = .ok b ↔ ∃ a, x = .ok a ∧ f a = .ok b := by
  cases x with
  | error e => simp [bind, Except.bind]
  | ok a => simp [bind, Except.bind]

/-- `mapM` succeeds with the list of the results of its steps. -/
theorem mapM_eq_ok {f : α → Except ε β} {xs : List α} {ys : List β} :
    xs.mapM f = .ok ys ↔ List.Forall₂ (fun x y => f x = .ok y) xs ys := by
  induction xs generalizing ys with
  | nil =>
      rw [List.mapM_nil, List.forall₂_nil_left_iff]
      exact ⟨fun h => (Except.ok.inj h).symm, fun h => by rw [h]; rfl⟩
  | cons x xs ih =>
      rw [List.mapM_cons, bind_eq_ok, List.forall₂_cons_left_iff]
      constructor
      · rintro ⟨y, hy, h⟩
        obtain ⟨zs, hzs, h⟩ := bind_eq_ok.mp h
        exact ⟨y, zs, hy, ih.mp hzs, (Except.ok.inj h).symm⟩
      · rintro ⟨y, zs, hy, hzs, rfl⟩
        exact ⟨y, hy, bind_eq_ok.mpr ⟨zs, ih.mpr hzs, rfl⟩⟩

theorem exists_left_of_forall₂ {R : α → β → Prop} {xs : List α} {ys : List β}
    (h : List.Forall₂ R xs ys) {y : β} (hy : y ∈ ys) : ∃ x ∈ xs, R x y := by
  induction h with
  | nil => exact absurd hy List.not_mem_nil
  | @cons x _ xs _ hx _ ih =>
      rcases List.mem_cons.mp hy with rfl | hy
      · exact ⟨x, List.mem_cons_self, hx⟩
      · obtain ⟨w, hw, he⟩ := ih hy
        exact ⟨w, List.mem_cons_of_mem x hw, he⟩

theorem exists_right_of_forall₂ {R : α → β → Prop} {xs : List α} {ys : List β}
    (h : List.Forall₂ R xs ys) {x : α} (hx : x ∈ xs) : ∃ y ∈ ys, R x y :=
  exists_left_of_forall₂ h.flip hx

theorem exists_input_of_mapM {f : α → Except ε β} {xs : List α} {ys : List β}
    (h : xs.mapM f = .ok ys) {y : β} (hy : y ∈ ys) : ∃ x ∈ xs, f x = .ok y :=
  exists_left_of_forall₂ (mapM_eq_ok.mp h) hy

theorem exists_output_of_mapM {f : α → Except ε β} {xs : List α} {ys : List β}
    (h : xs.mapM f = .ok ys) {x : α} (hx : x ∈ xs) : ∃ y ∈ ys, f x = .ok y :=
  exists_right_of_forall₂ (mapM_eq_ok.mp h) hx

/-- A `mapM` whose step returns `g x` where it succeeds. -/
theorem eq_map_of_mapM {f : α → Except ε β} {g : α → β} (hf : ∀ x y, f x = .ok y → y = g x)
    {xs : List α} {ys : List β} (h : xs.mapM f = .ok ys) : ys = xs.map g := by
  rw [mapM_eq_ok] at h
  induction h with
  | nil => rfl
  | cons hy _ ih => rw [List.map_cons, hf _ _ hy, ih]

/-- A `mapM` whose step is a first stage, a check of its result and a rendering of it: it
    succeeds exactly when the first stage does everywhere and every result passes. -/
theorem mapM_eq_ok_of_stages {γ : Type} {f : α → Except ε γ} {g : α → Except ε β}
    {P : β → Prop} {r : β → γ}
    (hf : ∀ x z, f x = .ok z ↔ ∃ y, g x = .ok y ∧ P y ∧ z = r y) {xs : List α} {zs : List γ} :
    xs.mapM f = .ok zs ↔ ∃ ys, xs.mapM g = .ok ys ∧ (∀ y ∈ ys, P y) ∧ zs = ys.map r := by
  simp only [mapM_eq_ok]
  induction xs generalizing zs with
  | nil => simp
  | cons x xs ih =>
      constructor
      · intro h
        obtain ⟨z, zs', hz, hzs, rfl⟩ := List.forall₂_cons_left_iff.mp h
        obtain ⟨y, hy, hP, rfl⟩ := (hf x z).mp hz
        obtain ⟨ys, hys, hall, rfl⟩ := ih.mp hzs
        exact ⟨y :: ys, .cons hy hys, List.forall_mem_cons.mpr ⟨hP, hall⟩, rfl⟩
      · rintro ⟨ys, hys, hall, rfl⟩
        obtain ⟨y, ys', hy, hys', rfl⟩ := List.forall₂_cons_left_iff.mp hys
        obtain ⟨hP, hall⟩ := List.forall_mem_cons.mp hall
        exact .cons ((hf x _).mpr ⟨y, hy, hP, rfl⟩) (ih.mpr ⟨ys', hys', hall, rfl⟩)

/-- `mapM` succeeds where every step does. -/
theorem exists_mapM_eq_ok {f : α → Except ε β} {xs : List α} (h : ∀ x ∈ xs, ∃ y, f x = .ok y) :
    ∃ ys, xs.mapM f = .ok ys := by
  simp only [mapM_eq_ok]
  induction xs with
  | nil => exact ⟨[], .nil⟩
  | cons x xs ih =>
      obtain ⟨y, hy⟩ := h x List.mem_cons_self
      obtain ⟨ys, hys⟩ := ih fun x' hx' => h x' (List.mem_cons_of_mem x hx')
      exact ⟨y :: ys, .cons hy hys⟩

theorem mapM_eq_ok_map {f : α → Except ε β} {g : α → β} {xs : List α}
    (h : ∀ x ∈ xs, f x = .ok (g x)) : xs.mapM f = .ok (xs.map g) := by
  rw [mapM_eq_ok, List.forall₂_map_right_iff, List.forall₂_same]
  exact h

/-- What every step determines of its result, `mapM` determines of the results. -/
theorem map_eq_map_of_mapM {γ : Type} {f : α → Except ε β} {g : α → γ} {h : β → γ} {xs : List α}
    {ys : List β} (hf : ∀ x y, f x = .ok y → h y = g x) (hm : xs.mapM f = .ok ys) :
    ys.map h = xs.map g := by
  have hall := mapM_eq_ok.mp hm
  induction hall with
  | nil => rfl
  | cons hxy _ ih => rw [List.map_cons, List.map_cons, hf _ _ hxy, ih (mapM_eq_ok.mpr ‹_›)]

/-- `forM` succeeds exactly when every step does. -/
theorem forM_eq_ok {f : α → Except ε Unit} {xs : List α} :
    xs.forM f = .ok () ↔ ∀ x ∈ xs, f x = .ok () := by
  induction xs with
  | nil => exact ⟨fun _ _ h => absurd h List.not_mem_nil, fun _ => rfl⟩
  | cons x xs ih =>
      rw [List.forall_mem_cons, ← ih]
      have h : (x :: xs).forM f = f x >>= fun _ => xs.forM f := rfl
      rw [h, bind_eq_ok]
      exact ⟨fun ⟨_, hx, h⟩ => ⟨hx, h⟩, fun ⟨hx, h⟩ => ⟨(), hx, h⟩⟩

/-! ## Options -/

theorem mapM_eq_some {f : α → Option β} {xs : List α} {ys : List β} :
    xs.mapM f = some ys ↔ List.Forall₂ (fun x y => f x = some y) xs ys := by
  induction xs generalizing ys with
  | nil =>
      rw [List.mapM_nil, List.forall₂_nil_left_iff]
      exact ⟨fun h => (Option.some.inj h).symm, fun h => by rw [h]; rfl⟩
  | cons x xs ih =>
      rw [List.mapM_cons, Option.bind_eq_bind, Option.bind_eq_some_iff, List.forall₂_cons_left_iff]
      constructor
      · rintro ⟨y, hy, h⟩
        obtain ⟨zs, hzs, h⟩ := Option.bind_eq_some_iff.mp h
        exact ⟨y, zs, hy, ih.mp hzs, (Option.some.inj h).symm⟩
      · rintro ⟨y, zs, hy, hzs, rfl⟩
        exact ⟨y, hy, Option.bind_eq_some_iff.mpr ⟨zs, ih.mpr hzs, rfl⟩⟩

theorem mapM_eq_none {f : α → Option β} {xs : List α} {x : α} (hx : x ∈ xs) (h : f x = none) :
    xs.mapM f = none := by
  induction xs with
  | nil => exact absurd hx List.not_mem_nil
  | cons y xs ih =>
      rw [List.mapM_cons]
      rcases List.mem_cons.mp hx with rfl | hx
      · rw [h]
        rfl
      · rw [ih hx]
        cases f y <;> rfl

theorem mapM_congr {f g : α → Option β} {xs : List α} (h : ∀ x ∈ xs, f x = g x) :
    xs.mapM f = xs.mapM g := by
  induction xs with
  | nil => rfl
  | cons x xs ih =>
      rw [List.mapM_cons, List.mapM_cons, h x List.mem_cons_self,
        ih fun y hy => h y (List.mem_cons_of_mem x hy)]

theorem mapM_flatMap {γ : Type} (f : α → List β) (g : β → Option γ) (xs : List α) :
    (xs.flatMap f).mapM g = (xs.mapM fun x => (f x).mapM g).map List.flatten := by
  induction xs with
  | nil => rfl
  | cons x xs ih =>
      rw [List.flatMap_cons, List.mapM_append, ih, List.mapM_cons]
      cases (f x).mapM g with
      | none => rfl
      | some ys => cases xs.mapM fun x => (f x).mapM g <;> rfl

end PgErdCloud.Lib.Fallible
