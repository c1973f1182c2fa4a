/-
  Keys that open transactions have inserted and not committed. The unique index of a table
  lets one transaction insert a key; others that try wait. So a key is reserved by one
  transaction at most, and is not in the table yet.

  Rules: a transaction that moves on without a reservation keeps this (`Reserved.release`), one
  that inserts a free key (`Reserved.reserve`), and one that commits (`Reserved.commit`).
-/
import PgErdCloud.Lib.Dict

namespace PgErdCloud.Lib

variable {σ κ ν : Type}

/-- `pending` tells the key that a transaction in a given state has inserted. -/
structure Reserved (transactions : Dict Nat σ) (pending : σ → Option κ) (table : Dict κ ν) :
    Prop where
  free : ∀ r state k, transactions.get? r = some state → pending state = some k → k ∉ table.keys
  one : ∀ r r' state state' k, transactions.get? r = some state →
    transactions.get? r' = some state' → pending state = some k → pending state' = some k → r = r'

/-- Another transaction is in a state that `p` matches. -/
def blocked (transactions : Dict Nat σ) (r : Nat) (p : σ → Bool) : Bool :=
  transactions.items.any fun e => e.1 ≠ r && p e.2

theorem not_blocked {transactions : Dict Nat σ} {r r' : Nat} {p : σ → Bool} {state : σ}
    (h : blocked transactions r p = false) (hget : transactions.get? r' = some state)
    (hne : r' ≠ r) : p state = false := by
  unfold blocked at h
  rw [List.any_eq_false] at h
  have hpc := h (r', state) (Dict.mem_items_iff.mpr hget)
  simpa [hne] using hpc

section
variable {transactions : Dict Nat σ} {pending : σ → Option κ} {table : Dict κ ν}

theorem reserved_empty : Reserved (.empty : Dict Nat σ) pending table where
  free := fun _ _ _ h => absurd h (by simp)
  one := fun _ _ _ _ _ h => absurd h (by simp)

/-- Of the other transactions nothing changes. -/
theorem get?_of_pending {r r' : Nat} {state state' : σ} {k : κ}
    (hnone : pending state = none)
    (hget : (transactions.set r state).get? r' = some state') (hp : pending state' = some k) :
    r' ≠ r ∧ transactions.get? r' = some state' := by
  rw [Dict.get?_set] at hget
  split_ifs at hget with hr
  · obtain rfl := Option.some.inj hget
    rw [hnone] at hp
    exact absurd hp (by simp)
  · exact ⟨hr, hget⟩

theorem Reserved.release (h : Reserved transactions pending table) (r : Nat) {state : σ}
    (hnone : pending state = none) : Reserved (transactions.set r state) pending table where
  free := by
    intro r' state' k hget hp
    exact h.free r' state' k (get?_of_pending hnone hget hp).2 hp
  one := by
    intro r' r'' state' state'' k hget hget' hp hp'
    exact h.one r' r'' state' state'' k (get?_of_pending hnone hget hp).2
      (get?_of_pending hnone hget' hp').2 hp hp'

theorem Reserved.reserve [DecidableEq κ] (h : Reserved transactions pending table) {r : Nat}
    {state : σ} {k : κ}
    (hkey : pending state = some k)
    (hblocked : blocked transactions r (fun other => pending other = some k) = false)
    (hfree : k ∉ table.keys) : Reserved (transactions.set r state) pending table where
  free := by
    intro r' state' k' hget hp
    rw [Dict.get?_set] at hget
    split_ifs at hget
    · obtain rfl := Option.some.inj hget
      rw [hkey] at hp
      exact Option.some.inj hp ▸ hfree
    · exact h.free r' state' k' hget hp
  one := by
    intro r' r'' state' state'' k' hget hget' hp hp'
    rw [Dict.get?_set] at hget hget'
    split_ifs at hget hget' with hr hr' hr'
    · rw [hr, hr']
    · obtain rfl := Option.some.inj hget
      rw [hkey] at hp
      rw [← Option.some.inj hp] at hp'
      have hother := not_blocked hblocked hget' hr'
      exact absurd hp' (of_decide_eq_false hother)
    · obtain rfl := Option.some.inj hget'
      rw [hkey] at hp'
      rw [← Option.some.inj hp'] at hp
      have hother := not_blocked hblocked hget hr
      exact absurd hp (of_decide_eq_false hother)
    · exact h.one r' r'' state' state'' k' hget hget' hp hp'

/-- The table gets no key that another transaction has reserved. -/
theorem Reserved.commit (h : Reserved transactions pending table) {r : Nat}
    {state final : σ} {table' : Dict κ ν} (hget : transactions.get? r = some state)
    (hnone : pending final = none)
    (hkeys : ∀ k ∈ table'.keys, k ∈ table.keys ∨ pending state = some k) :
    Reserved (transactions.set r final) pending table' where
  free := by
    intro r' state' k hget' hp hm
    obtain ⟨hr, hget'⟩ := get?_of_pending hnone hget' hp
    rcases hkeys k hm with hm | hm
    · exact h.free r' state' k hget' hp hm
    · exact hr (h.one r' r state' state k hget' hget hp hm)
  one := (h.release r hnone).one

/-- A key that nobody has reserved is inserted from outside. -/
theorem Reserved.insert (h : Reserved transactions pending table) {table' : Dict κ ν}
    (hkeys : ∀ k ∈ table'.keys, k ∈ table.keys ∨
      ∀ r state, transactions.get? r = some state → pending state ≠ some k) :
    Reserved transactions pending table' where
  free := by
    intro r state k hget hp hm
    rcases hkeys k hm with hm | hm
    · exact h.free r state k hget hp hm
    · exact hm r state hget hp
  one := h.one

end

end PgErdCloud.Lib
