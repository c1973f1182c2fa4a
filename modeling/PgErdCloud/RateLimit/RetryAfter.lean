/-
  The time a rejected caller is told to wait (the `Retry-After` header). It is rounded up to
  whole seconds, at least one and at most the window rounded up, and it is long enough: until
  the key is hit again its bucket is either evicted or that of the window which is over.

  `retryAfter_sufficient` is about every limiter that rejects a key, and any hits of other keys in
  between; the policy allows a request and has a window.
-/
import PgErdCloud.RateLimit.Exact

namespace PgErdCloud.RateLimit

open Lib Lib.PyStr

/-! ## The number of seconds -/

section
variable {policy : RateLimitPolicy}

/-- A time lies in its window. -/
theorem windowId_mul_le (hwindow : 0 < policy.windowSeconds) (now : ℚ) :
    windowId policy now * policy.windowSeconds ≤ now := by
  have hfloor : (windowId policy now : ℚ) ≤ now / policy.windowSeconds := Int.floor_le _
  exact (le_div_iff₀ hwindow).mp hfloor

theorem lt_windowId_succ_mul (hwindow : 0 < policy.windowSeconds) (now : ℚ) :
    now < (windowId policy now + 1) * policy.windowSeconds := by
  have hfloor : now / policy.windowSeconds < (windowId policy now : ℚ) + 1 :=
    Int.lt_floor_add_one _
  exact (div_lt_iff₀ hwindow).mp hfloor

theorem one_le_retryAfter (hwindow : 0 < policy.windowSeconds) (now : ℚ) :
    1 ≤ retryAfter policy now := by
  have hleft : 0 < (windowId policy now + 1) * policy.windowSeconds - now := by
    have := lt_windowId_succ_mul hwindow now
    linarith
  have hceil : 0 < ⌈(windowId policy now + 1) * policy.windowSeconds - now⌉ :=
    Int.ceil_pos.mpr hleft
  unfold retryAfter
  omega

theorem retryAfter_le_ceil (hwindow : 0 < policy.windowSeconds) (now : ℚ) :
    retryAfter policy now ≤ ⌈policy.windowSeconds⌉ := by
  have hleft : (windowId policy now + 1) * policy.windowSeconds - now ≤
      policy.windowSeconds := by
    have := windowId_mul_le hwindow now
    linarith
  have hceil := Int.ceil_le_ceil hleft
  have hpos : 0 < ⌈policy.windowSeconds⌉ := Int.ceil_pos.mpr hwindow
  unfold retryAfter
  omega

/-- After the wait the window is over. -/
theorem windowId_lt_of_retryAfter (hwindow : 0 < policy.windowSeconds) {now later : ℚ}
    (hlater : now + retryAfter policy now ≤ later) :
    windowId policy now < windowId policy later := by
  have hceil : (windowId policy now + 1) * policy.windowSeconds - now ≤
      (retryAfter policy now : ℚ) := by
    have hle : ⌈(windowId policy now + 1) * policy.windowSeconds - now⌉ ≤
        retryAfter policy now := le_max_right _ _
    exact (Int.le_ceil _).trans (by exact_mod_cast hle)
  have hend : ((windowId policy now + 1 : Int) : ℚ) ≤ later / policy.windowSeconds := by
    rw [le_div_iff₀ hwindow]
    push_cast
    linarith
  have hfloor : windowId policy now + 1 ≤ windowId policy later := Int.le_floor.mpr hend
  omega

end

/-! ## The bucket of a key that is left alone -/

/-- The limiter after hits that each have their own policy. -/
def afterHits (limiter : Limiter) (hits : List (RateLimitPolicy × Hit)) : Limiter :=
  hits.foldl (fun limiter hit => (limiter.hit hit.2.key hit.1 hit.2.now).2) limiter

/-- The key has no bucket, or one of the given window. -/
def OnlyIn (window : Int) (key : Str) (limiter : Limiter) : Prop :=
  ∀ last count, limiter.buckets.get? key = some (last, count) → last = window

/-- The bucket of an allowed or rejected hit is that of its window. -/
theorem onlyIn_hit {policy : RateLimitPolicy} (hreq : 1 ≤ policy.requests)
    (hwindow : 0 < policy.windowSeconds) (limiter : Limiter) (key : Str) (now : ℚ) :
    OnlyIn (windowId policy now) key (limiter.hit key policy now).2 := by
  intro last count hget
  rw [hit_of_active hwindow hreq] at hget
  simp only [Dict.get?_set_self] at hget
  exact (Prod.mk.inj (Option.some.inj hget)).1.symm

/-- A hit of another key changes no bucket, it can only evict it. -/
theorem get?_of_get?_hit {policy : RateLimitPolicy} {limiter : Limiter} {key other : Str}
    {now : ℚ} (hne : key ≠ other) {bucket : Int × Nat}
    (hget : (limiter.hit other policy now).2.buckets.get? key = some bucket) :
    limiter.buckets.get? key = some bucket := by
  unfold Limiter.hit at hget
  split_ifs at hget
  · exact hget
  · exact hget
  · simp only at hget
    rw [show other = (Hit.mk other now).key from rfl, get?_afterHit,
      if_neg (show key ≠ (Hit.mk other now).key from hne)] at hget
    exact get?_of_get?_evict hget

theorem onlyIn_afterHits {window : Int} {key : Str} {hits : List (RateLimitPolicy × Hit)}
    (hother : ∀ hit ∈ hits, hit.2.key ≠ key) {limiter : Limiter}
    (h : OnlyIn window key limiter) : OnlyIn window key (afterHits limiter hits) := by
  induction hits generalizing limiter with
  | nil => exact h
  | cons hit hits ih =>
      have hne : key ≠ hit.2.key := (hother hit List.mem_cons_self).symm
      refine ih (fun hit hm => hother hit (List.mem_cons_of_mem _ hm)) ?_
      intro last count hget
      exact h last count (get?_of_get?_hit hne hget)

/-- In a new window the first hit is allowed. -/
theorem allowed_of_onlyIn {policy : RateLimitPolicy} (hreq : 1 ≤ policy.requests)
    (hwindow : 0 < policy.windowSeconds) {limiter : Limiter} {window : Int} {key : Str}
    {now : ℚ} (h : OnlyIn window key limiter) (hnew : window < windowId policy now) :
    (limiter.hit key policy now).1.1 = true := by
  rw [hit_of_active hwindow hreq]
  have hcount : nextCount (evict limiter.maxKeys limiter.buckets key (windowId policy now)) key
      (windowId policy now) = 1 := by
    unfold nextCount
    cases hget : (evict limiter.maxKeys limiter.buckets key (windowId policy now)).get? key with
    | none => rfl
    | some bucket =>
        obtain ⟨last, count⟩ := bucket
        have hlast : last = window := h last count (get?_of_get?_evict hget)
        have hne : last ≠ windowId policy now := by omega
        simp only [if_pos hne]
  simp only [hcount]
  exact decide_eq_true (by exact_mod_cast hreq)

/-! ## The wait is long enough -/

/-- **A caller that waits is served.** Whatever happened to the limiter before, and whatever
    other keys do in between under whatever policies. -/
theorem retryAfter_sufficient (policy : RateLimitPolicy) (hreq : 1 ≤ policy.requests)
    (hwindow : 0 < policy.windowSeconds) (limiter : Limiter) (key : Str) (now : ℚ)
    (seconds : Int) (hreject : (limiter.hit key policy now).1 = (false, seconds))
    (between : List (RateLimitPolicy × Hit)) (hother : ∀ hit ∈ between, hit.2.key ≠ key)
    (later : ℚ) (hlater : now + seconds ≤ later) :
    1 ≤ seconds ∧ seconds ≤ ⌈policy.windowSeconds⌉ ∧
      ((afterHits (limiter.hit key policy now).2 between).hit key policy later).1.1 = true := by
  have hseconds : retryAfter policy now = seconds := by
    rw [hit_of_active hwindow hreq] at hreject
    exact (Prod.mk.inj hreject).2
  subst hseconds
  have honly := onlyIn_afterHits hother (onlyIn_hit hreq hwindow limiter key now)
  refine ⟨one_le_retryAfter hwindow now, retryAfter_le_ceil hwindow now, ?_⟩
  exact allowed_of_onlyIn hreq hwindow honly (windowId_lt_of_retryAfter hwindow hlater)

/-- One request in two and a half seconds: the second one waits for two seconds, and another
    key is hit in between under a policy of its own. -/
theorem retryAfter_sufficient_example :
    let limiter : Limiter := ⟨1, by decide, ⟨[("ip".toList, (0, 1))], by decide⟩⟩
    let policy : RateLimitPolicy := ⟨1, 5 / 2⟩
    1 ≤ (2 : Int) ∧ 2 ≤ ⌈(5 / 2 : ℚ)⌉ ∧
      ((afterHits (limiter.hit "ip".toList policy 1).2
        [(⟨5, 60⟩, ⟨"other".toList, 2⟩)]).hit "ip".toList policy 3).1.1 = true :=
  retryAfter_sufficient ⟨1, 5 / 2⟩ (by decide) (by norm_num)
    ⟨1, by decide, ⟨[("ip".toList, (0, 1))], by decide⟩⟩ "ip".toList 1 2 (by decide +kernel)
    [(⟨5, 60⟩, ⟨"other".toList, 2⟩)] (by decide) 3 (by norm_num)

end PgErdCloud.RateLimit
