/-
  Processes and one lock. Each process is at a place of its program, some places are inside of
  the block that the lock guards, and only its holder is at one of them. A process moves
  outside of the block, enters it, stays in it or leaves it.
-/
import PgErdCloud.Lib.Dict

namespace PgErdCloud.Lib

variable {κ P : Type} [DecidableEq κ]

/-- Only the holder of the lock is inside. -/
def Exclusive (inside : P → Bool) (lock : Option κ) (procs : Dict κ P) : Prop :=
  ∀ c p, procs.get? c = some p → inside p = true → lock = some c

namespace Exclusive

variable {inside : P → Bool} {lock : Option κ} {procs : Dict κ P} {c : κ} {p p' : P}

theorem empty (inside : P → Bool) (lock : Option κ) : Exclusive inside lock .empty := by
  intro c p hget
  rw [Dict.get?_empty] at hget
  exact absurd hget (by simp)

/-- Nobody else is inside. -/
theorem eq_of_inside (h : Exclusive inside lock procs) {c' : κ} (hget : procs.get? c = some p)
    (hin : inside p = true) (hget' : procs.get? c' = some p') (hin' : inside p' = true) :
    c' = c :=
  Option.some.inj ((h c' p' hget' hin').symm.trans (h c p hget hin))

/-- A process goes to a place outside. -/
theorem outside (h : Exclusive inside lock procs) (hout : inside p' = false) :
    Exclusive inside lock (procs.set c p') := by
  intro c' q hget hin
  rw [Dict.get?_set] at hget
  split_ifs at hget with heq
  · rw [← Option.some.inj hget, hout] at hin
    exact absurd hin Bool.false_ne_true
  · exact h c' q hget hin

/-- The holder leaves, and then nobody is inside. -/
theorem leave (h : Exclusive inside lock procs) (hget : procs.get? c = some p)
    (hin : inside p = true) (hout : inside p' = false) (lock' : Option κ) :
    Exclusive inside lock' (procs.set c p') := by
  intro c' q hget' hin'
  rw [Dict.get?_set] at hget'
  split_ifs at hget' with heq
  · rw [← Option.some.inj hget', hout] at hin'
    exact absurd hin' Bool.false_ne_true
  · exact absurd (h.eq_of_inside hget hin hget' hin') heq

/-- The lock is free, or the process has it already. -/
theorem enter (h : Exclusive inside lock procs) (hfree : lock = none ∨ lock = some c) :
    Exclusive inside (some c) (procs.set c p') := by
  intro c' q hget hin
  rw [Dict.get?_set] at hget
  split_ifs at hget with heq
  · rw [heq]
  · have hlock := h c' q hget hin
    rcases hfree with hnone | hmine
    · rw [hnone] at hlock
      exact absurd hlock (by simp)
    · exact absurd (Option.some.inj (hlock.symm.trans hmine)) heq

end Exclusive

end PgErdCloud.Lib
