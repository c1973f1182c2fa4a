/-
  The fixed-window rate limiter (`InMemoryFixedWindowRateLimiter` of app/rate_limit.py). A hit
  is one step: the lock is held from the lookup of the bucket to its update. Times are
  rationals.
-/
import Mathlib.Data.Rat.Floor
import PgErdCloud.Lib.Dict
import PgErdCloud.Lib.PyStr

namespace PgErdCloud.RateLimit

open Lib Lib.PyStr

/-! ## The limiter -/

/-- What a hit reads of a policy. -/
structure RateLimitPolicy where
  requests : Int
  windowSeconds : ℚ

/-- The buckets: the window and the count of each key, the key that was hit last at the end. -/
structure Limiter where
  maxKeys : Nat
  positive : 0 < maxKeys
  buckets : Dict Str (Int × Nat)

/-- `__init__`; `none` for the `ValueError`. -/
def Limiter.create (maxKeys : Int) : Option Limiter :=
  if h : 0 < maxKeys then some ⟨maxKeys.toNat, by omega, .empty⟩ else none

/-- The number of the window that a time is in. -/
def windowId (policy : RateLimitPolicy) (now : ℚ) : Int := ⌊now / policy.windowSeconds⌋

/-- The seconds until the next window, rounded up. -/
def retryAfter (policy : RateLimitPolicy) (now : ℚ) : Int :=
  max 0 ⌈(windowId policy now + 1) * policy.windowSeconds - now⌉

/-- Remove the oldest buckets while there are too many; the key of the hit is not among them. -/
def evictOldest (maxKeys : Nat) : List (Str × Int × Nat) → List (Str × Int × Nat)
  | [] => []
  | bucket :: buckets =>
      if maxKeys ≤ (bucket :: buckets).length then evictOldest maxKeys buckets
      else bucket :: buckets

theorem evictOldest_suffix (maxKeys : Nat) (buckets : List (Str × Int × Nat)) :
    evictOldest maxKeys buckets <:+ buckets := by
  induction buckets with
  | nil => exact List.suffix_refl []
  | cons bucket buckets ih =>
      unfold evictOldest
      split_ifs
      · exact ih.trans (List.suffix_cons bucket buckets)
      · exact List.suffix_refl _

/-- Make room for the key: first without the buckets of other windows. -/
def evict (maxKeys : Nat) (buckets : Dict Str (Int × Nat)) (key : Str) (window : Int) :
    Dict Str (Int × Nat) :=
  if key ∉ buckets.keys ∧ maxKeys ≤ buckets.items.length then
    let live := buckets.filter fun _ bucket => bucket.1 = window
    ⟨evictOldest maxKeys live.items,
      live.nodup.sublist ((evictOldest_suffix maxKeys live.items).sublist.map _)⟩
  else buckets

/-- The count of the key with this hit. -/
def nextCount (buckets : Dict Str (Int × Nat)) (key : Str) (window : Int) : Nat :=
  match buckets.get? key with
  | none => 1
  | some (last, count) => if last ≠ window then 1 else count + 1

/-- Whether the hit is allowed, the seconds to wait, and the limiter after it. -/
def Limiter.hit (limiter : Limiter) (key : Str) (policy : RateLimitPolicy) (now : ℚ) :
    (Bool × Int) × Limiter :=
  if policy.windowSeconds ≤ 0 then ((true, 0), limiter)
  else if policy.requests ≤ 0 then ((false, ⌈policy.windowSeconds⌉), limiter)
  else
    let window := windowId policy now
    let buckets := evict limiter.maxKeys limiter.buckets key window
    let count := nextCount buckets key window
    -- the key moves to the end
    let others := buckets.filter fun other _ => other ≠ key
    ((decide ((count : Int) ≤ policy.requests), retryAfter policy now),
      { limiter with buckets := others.set key (window, count) })

/-! ## Runs -/

/-- A request under a key, at a time. -/
structure Hit where
  key : Str
  now : ℚ

/-- The decisions on the hits, and the limiter after them. -/
def runHits (policy : RateLimitPolicy) (limiter : Limiter) (hits : List Hit) :
    List (Hit × Bool) × Limiter :=
  hits.foldl (fun acc hit =>
    let r := acc.2.hit hit.key policy hit.now
    (acc.1 ++ [(hit, r.1.1)], r.2)) ([], limiter)

/-- The hits of a key in a window. -/
def hitsIn (policy : RateLimitPolicy) (window : Int) (key : Str) (hits : List Hit) : Nat :=
  hits.countP fun hit => hit.key = key ∧ windowId policy hit.now = window

/-- The allowed hits of a key in a window. -/
def allowedIn (policy : RateLimitPolicy) (window : Int) (key : Str)
    (decisions : List (Hit × Bool)) : Nat :=
  decisions.countP fun d => d.1.key = key ∧ windowId policy d.1.now = window ∧ d.2 = true

/-- The distinct keys that are hit in a window. -/
def keysIn (policy : RateLimitPolicy) (window : Int) (hits : List Hit) : List Str :=
  ((hits.filter fun hit => windowId policy hit.now = window).map Hit.key).dedup

theorem runHits_concat (policy : RateLimitPolicy) (limiter : Limiter) (hits : List Hit)
    (hit : Hit) :
    runHits policy limiter (hits ++ [hit]) =
      ((runHits policy limiter hits).1 ++
          [(hit, ((runHits policy limiter hits).2.hit hit.key policy hit.now).1.1)],
        ((runHits policy limiter hits).2.hit hit.key policy hit.now).2) := by
  unfold runHits
  rw [List.foldl_append]
  rfl

theorem hitsIn_concat (policy : RateLimitPolicy) (window : Int) (key : Str) (hits : List Hit)
    (hit : Hit) :
    hitsIn policy window key (hits ++ [hit]) =
      hitsIn policy window key hits +
        if hit.key = key ∧ windowId policy hit.now = window then 1 else 0 := by
  unfold hitsIn
  rw [List.countP_append, List.countP_singleton]
  simp

theorem mem_keysIn {policy : RateLimitPolicy} {window : Int} {hits : List Hit} {key : Str} :
    key ∈ keysIn policy window hits ↔
      ∃ hit ∈ hits, windowId policy hit.now = window ∧ hit.key = key := by
  unfold keysIn
  rw [List.mem_dedup, List.mem_map]
  constructor
  · rintro ⟨hit, hm, rfl⟩
    rw [List.mem_filter, decide_eq_true_eq] at hm
    exact ⟨hit, hm.1, hm.2, rfl⟩
  · rintro ⟨hit, hm, hw, rfl⟩
    exact ⟨hit, List.mem_filter.mpr ⟨hm, decide_eq_true hw⟩, rfl⟩

theorem mem_keysIn_of_hitsIn {policy : RateLimitPolicy} {window : Int} {hits : List Hit}
    {key : Str} (h : 0 < hitsIn policy window key hits) : key ∈ keysIn policy window hits := by
  obtain ⟨hit, hm, hp⟩ := List.countP_pos_iff.mp h
  rw [decide_eq_true_eq] at hp
  exact mem_keysIn.mpr ⟨hit, hm, hp.2, hp.1⟩

end PgErdCloud.RateLimit
