/-
  Runs of actions that a loop writes: each round of the loop adds a list of actions, and what
  has been reached depends on the rounds that are done.
-/
import PgErdCloud.Lib.Machine

namespace PgErdCloud.Lib

variable {σ α β : Type} {step : σ → α → Option σ}

/-- **The rule for loops.** When each round leads from the invariant of the rounds before it to
    that of the rounds up to it, the loop runs to its end. -/
theorem run_flatMap {f : β → List α} {P : List β → σ → Prop} {xs : List β}
    (hround : ∀ before x after s, xs = before ++ x :: after → P before s →
      ∃ t, run step s (f x) = some t ∧ P (before ++ [x]) t)
    {s : σ} (hs : P [] s) : ∃ t, run step s (xs.flatMap f) = some t ∧ P xs t := by
  have hall : ∀ rest before s, xs = before ++ rest → P before s →
      ∃ t, run step s (rest.flatMap f) = some t ∧ P xs t := by
    intro rest
    induction rest with
    | nil =>
        intro before s hxs hp
        rw [List.append_nil] at hxs
        exact ⟨s, rfl, hxs ▸ hp⟩
    | cons x rest ih =>
        intro before s hxs hp
        obtain ⟨u, hu, hpu⟩ := hround before x rest s hxs hp
        obtain ⟨t, ht, hpt⟩ := ih (before ++ [x]) u (by simpa using hxs) hpu
        exact ⟨t, run_append.mpr ⟨u, hu, ht⟩, hpt⟩
  exact hall xs [] s rfl hs

end PgErdCloud.Lib
