/-
  The limiter against one that forgets nothing. Buckets are removed in two ways, so it takes
  an argument for each window: while the keys hit in it fit, no bucket of the window is
  removed before the window is over, and each such bucket counts all hits of its key.

  `exact_and_bounded` is about all hits in the order of time: there are never more buckets than
  allowed, and in a window with few enough keys each key gets exactly its share.
-/
import PgErdCloud.RateLimit.Limiter

namespace PgErdCloud.RateLimit

open Lib Lib.PyStr

variable {policy : RateLimitPolicy}

/-! ## Room for a key -/

theorem length_evictOldest {maxKeys : Nat} (hpos : 0 < maxKeys)
    (buckets : List (Str × Int × Nat)) : (evictOldest maxKeys buckets).length < maxKeys := by
  induction buckets with
  | nil => exact hpos
  | cons bucket buckets ih =>
      unfold evictOldest
      split_ifs with h
      · exact ih
      · omega

theorem evictOldest_of_lt {maxKeys : Nat} {buckets : List (Str × Int × Nat)}
    (h : buckets.length < maxKeys) : evictOldest maxKeys buckets = buckets := by
  cases buckets with
  | nil => rfl
  | cons bucket buckets =>
      unfold evictOldest
      rw [if_neg (by omega)]

section
variable {maxKeys : Nat} {buckets : Dict Str (Int × Nat)} {key : Str} {window : Int}

/-- What is left was there. -/
theorem get?_of_get?_evict {other : Str} {bucket : Int × Nat}
    (h : (evict maxKeys buckets key window).get? other = some bucket) :
    buckets.get? other = some bucket := by
  unfold evict at h
  split_ifs at h
  · rw [← Dict.mem_items_iff] at h ⊢
    exact (List.mem_filter.mp ((evictOldest_suffix _ _).subset h)).1
  · exact h

/-- A bucket of the window stays if all of them leave room for the key. -/
theorem get?_evict_of_live
    (hlive : key ∉ buckets.keys →
      (buckets.filter fun _ bucket => bucket.1 = window).items.length < maxKeys)
    {other : Str} {count : Nat} (h : buckets.get? other = some (window, count)) :
    (evict maxKeys buckets key window).get? other = some (window, count) := by
  unfold evict
  split_ifs with hfull
  · rw [← Dict.mem_items_iff] at h ⊢
    show (other, window, count) ∈ evictOldest maxKeys
      (buckets.filter fun _ bucket => bucket.1 = window).items
    rw [evictOldest_of_lt (hlive hfull.1)]
    exact List.mem_filter.mpr ⟨h, decide_eq_true rfl⟩
  · exact h

end

/-! ## A bounded map -/

theorem length_moveToEnd (buckets : Dict Str (Int × Nat)) (key : Str) (bucket : Int × Nat) :
    ((buckets.filter fun other _ => other ≠ key).set key bucket).items.length =
      if key ∈ buckets.keys then buckets.items.length else buckets.items.length + 1 := by
  have hkeys : (buckets.filter fun other _ => other ≠ key).keys =
      buckets.keys.filter fun other => other ≠ key := by
    unfold Dict.keys Dict.filter
    rw [List.filter_map]
    rfl
  have hnodup : buckets.keys.Nodup := buckets.nodup
  have herase : buckets.keys.filter (fun other => other ≠ key) = buckets.keys.erase key := by
    rw [hnodup.erase_eq_filter]
    congr 1
    funext other
    simp [bne, beq_eq_decide]
  have hnot : key ∉ buckets.keys.erase key := hnodup.not_mem_erase
  have hset := congrArg List.length
    (Dict.keys_set (buckets.filter fun other _ => other ≠ key) key bucket)
  rw [hkeys, herase, if_neg hnot, List.length_append, List.length_singleton,
    List.length_erase] at hset
  have hlen : ∀ d : Dict Str (Int × Nat), d.keys.length = d.items.length := fun d =>
    List.length_map Prod.fst
  rw [hlen, hlen] at hset
  rw [hset]
  split_ifs with h
  · have hpos : 0 < buckets.keys.length := List.length_pos_of_mem h
    rw [hlen] at hpos
    omega
  · rfl

/-- **A hit keeps the map bounded.** -/
theorem bounded_hit (limiter : Limiter) (key : Str) (now : ℚ)
    (h : limiter.buckets.items.length ≤ limiter.maxKeys) :
    (limiter.hit key policy now).2.buckets.items.length ≤ limiter.maxKeys := by
  unfold Limiter.hit
  split_ifs
  · exact h
  · exact h
  · simp only
    rw [length_moveToEnd]
    unfold evict
    split_ifs with hfull hin hin
    · exact (length_evictOldest limiter.positive _).le
    · exact length_evictOldest limiter.positive _
    · exact h
    · by_contra hlen
      exact hfull ⟨hin, by omega⟩

/-! ## One window -/

/-- The buckets count the hits in the window: each bucket of the window is right, and until
    the window is over there is one for each key that was hit in it. -/
structure Tracks (policy : RateLimitPolicy) (window : Int) (past : List Hit)
    (buckets : Dict Str (Int × Nat)) : Prop where
  sound : ∀ key count, buckets.get? key = some (window, count) →
    count = hitsIn policy window key past ∧ 0 < count
  complete : (∀ hit ∈ past, windowId policy hit.now ≤ window) →
    ∀ key, 0 < hitsIn policy window key past →
      buckets.get? key = some (window, hitsIn policy window key past)

theorem windowId_mono (hpos : 0 < policy.windowSeconds) {s t : ℚ} (h : s ≤ t) :
    windowId policy s ≤ windowId policy t := by
  unfold windowId
  gcongr

theorem tracks_nil (window : Int) : Tracks policy window [] .empty where
  sound := fun key count h => absurd h (by simp)
  complete := fun _ key h => absurd h (Nat.lt_irrefl 0)

/-- While the keys of a window fit, its buckets leave room for the next key. -/
theorem live_lt {maxKeys : Nat} {buckets : Dict Str (Int × Nat)} {past : List Hit} {hit : Hit}
    (h : Tracks policy (windowId policy hit.now) past buckets)
    (hfit : (keysIn policy (windowId policy hit.now) (past ++ [hit])).length ≤ maxKeys)
    (hnew : hit.key ∉ buckets.keys) :
    (buckets.filter fun _ bucket => bucket.1 = windowId policy hit.now).items.length <
      maxKeys := by
  let live := buckets.filter fun _ bucket => bucket.1 = windowId policy hit.now
  have hsub : live.keys ⊆ buckets.keys := (List.filter_sublist.map Prod.fst).subset
  have hnodup : (hit.key :: live.keys).Nodup :=
    List.nodup_cons.mpr ⟨fun hm => hnew (hsub hm), live.nodup⟩
  have hkeys : hit.key :: live.keys ⊆ keysIn policy (windowId policy hit.now) (past ++ [hit]) := by
    intro key hm
    rw [mem_keysIn]
    rcases List.mem_cons.mp hm with rfl | hm
    · exact ⟨hit, List.mem_append_right _ (List.mem_singleton_self hit), rfl, rfl⟩
    · obtain ⟨e, he, rfl⟩ := List.mem_map.mp hm
      obtain ⟨hitem, hwindow⟩ := List.mem_filter.mp he
      have hget : buckets.get? e.1 = some (windowId policy hit.now, e.2.2) := by
        rw [← of_decide_eq_true hwindow]
        exact Dict.mem_items_iff.mp hitem
      obtain ⟨hcount, hpos⟩ := h.sound _ _ hget
      rw [hcount] at hpos
      obtain ⟨past', hpast, hw, hkey⟩ := mem_keysIn.mp (mem_keysIn_of_hitsIn hpos)
      exact ⟨past', List.mem_append_left _ hpast, hw, hkey⟩
  have hle := (hnodup.subperm hkeys).length_le
  have hlen : live.keys.length = live.items.length := List.length_map Prod.fst
  rw [List.length_cons, hlen] at hle
  show live.items.length < maxKeys
  omega

section
variable {maxKeys : Nat} {buckets : Dict Str (Int × Nat)} {past : List Hit} {hit : Hit}

/-- In its own window a hit gets the number of hits so far. -/
theorem nextCount_eq (h : Tracks policy (windowId policy hit.now) past buckets)
    (hfit : (keysIn policy (windowId policy hit.now) (past ++ [hit])).length ≤ maxKeys)
    (hpast : ∀ earlier ∈ past, windowId policy earlier.now ≤ windowId policy hit.now) :
    nextCount (evict maxKeys buckets hit.key (windowId policy hit.now)) hit.key
      (windowId policy hit.now) =
        hitsIn policy (windowId policy hit.now) hit.key past + 1 := by
  unfold nextCount
  rcases Nat.eq_zero_or_pos (hitsIn policy (windowId policy hit.now) hit.key past) with h0 | hpos
  · rw [h0]
    cases hget : (evict maxKeys buckets hit.key (windowId policy hit.now)).get? hit.key with
    | none => rfl
    | some bucket =>
        obtain ⟨last, count⟩ := bucket
        have hlast : last ≠ windowId policy hit.now := by
          rintro rfl
          obtain ⟨hcount, hpos⟩ := h.sound _ _ (get?_of_get?_evict hget)
          omega
        simp only [if_pos hlast]
  · have hget := get?_evict_of_live (live_lt h hfit) (h.complete hpast _ hpos)
    rw [hget]
    simp

/-- What a hit leaves of the other buckets. -/
theorem get?_afterHit (window : Int) (count : Nat) (other : Str) :
    (((evict maxKeys buckets hit.key window).filter fun key _ => key ≠ hit.key).set hit.key
      (window, count)).get? other =
        if other = hit.key then some (window, count)
        else (evict maxKeys buckets hit.key window).get? other := by
  rw [Dict.get?_set]
  split_ifs with h
  · rfl
  · rw [Dict.get?_filter]
    cases (evict maxKeys buckets hit.key window).get? other with
    | none => rfl
    | some bucket => simp [Option.filter, h]

/-- **A hit keeps the count of every window** whose keys fit. -/
theorem tracks_hit {window : Int} (h : Tracks policy window past buckets)
    (hfit : (keysIn policy window (past ++ [hit])).length ≤ maxKeys)
    (hpast : ∀ earlier ∈ past, windowId policy earlier.now ≤ windowId policy hit.now) :
    Tracks policy window (past ++ [hit])
      (((evict maxKeys buckets hit.key (windowId policy hit.now)).filter
        fun key _ => key ≠ hit.key).set hit.key (windowId policy hit.now,
          nextCount (evict maxKeys buckets hit.key (windowId policy hit.now)) hit.key
            (windowId policy hit.now))) := by
  by_cases hw : windowId policy hit.now = window
  · subst hw
    have hnext := nextCount_eq h hfit hpast
    have hself : hitsIn policy (windowId policy hit.now) hit.key (past ++ [hit]) =
        hitsIn policy (windowId policy hit.now) hit.key past + 1 := by
      rw [hitsIn_concat, if_pos ⟨rfl, rfl⟩]
    have hother : ∀ key, key ≠ hit.key →
        hitsIn policy (windowId policy hit.now) key (past ++ [hit]) =
          hitsIn policy (windowId policy hit.now) key past := by
      intro key hne
      rw [hitsIn_concat, if_neg fun he => hne he.1.symm, Nat.add_zero]
    constructor
    · intro key count hget
      rw [get?_afterHit] at hget
      split_ifs at hget with hkey
      · subst hkey
        obtain rfl := (Prod.mk.inj (Option.some.inj hget)).2
        rw [hself, hnext]
        exact ⟨rfl, Nat.succ_pos _⟩
      · rw [hother key hkey]
        exact h.sound key count (get?_of_get?_evict hget)
    · intro _ key hpos
      rw [get?_afterHit]
      split_ifs with hkey
      · subst hkey
        rw [hself, hnext]
      · rw [hother key hkey] at hpos ⊢
        exact get?_evict_of_live (live_lt h hfit) (h.complete hpast key hpos)
  · have hsame : ∀ key, hitsIn policy window key (past ++ [hit]) =
        hitsIn policy window key past := by
      intro key
      rw [hitsIn_concat, if_neg fun he => hw he.2, Nat.add_zero]
    constructor
    · intro key count hget
      rw [get?_afterHit] at hget
      split_ifs at hget with hkey
      · exact absurd (Prod.mk.inj (Option.some.inj hget)).1 hw
      · rw [hsame]
        exact h.sound key count (get?_of_get?_evict hget)
    · -- the hit is before the window, so nothing was hit in it yet
      intro hall key hpos
      rw [hsame] at hpos
      obtain ⟨earlier, hearlier, hwindow, -⟩ := mem_keysIn.mp (mem_keysIn_of_hitsIn hpos)
      have hle := hall hit (List.mem_append_right _ (List.mem_singleton_self hit))
      have hge := hpast earlier hearlier
      omega

end

/-! ## Runs -/

theorem hit_of_active {limiter : Limiter} {key : Str} {now : ℚ}
    (hpos : 0 < policy.windowSeconds) (hreq : 0 < policy.requests) :
    limiter.hit key policy now =
      let window := windowId policy now
      let buckets := evict limiter.maxKeys limiter.buckets key window
      ((decide ((nextCount buckets key window : Int) ≤ policy.requests),
          retryAfter policy now),
        { limiter with
          buckets := (buckets.filter fun other _ => other ≠ key).set key
            (window, nextCount buckets key window) }) := by
  unfold Limiter.hit
  rw [if_neg (not_le.mpr hpos), if_neg (not_le.mpr hreq)]

theorem maxKeys_hit (limiter : Limiter) (key : Str) (now : ℚ) :
    (limiter.hit key policy now).2.maxKeys = limiter.maxKeys := by
  unfold Limiter.hit
  split_ifs
  · rfl
  · rfl
  · rfl

theorem maxKeys_runHits (limiter : Limiter) (hits : List Hit) :
    (runHits policy limiter hits).2.maxKeys = limiter.maxKeys := by
  induction hits using List.reverseRecOn with
  | nil => rfl
  | append_singleton hits hit ih => rw [runHits_concat, maxKeys_hit, ih]

theorem bounded_runHits {limiter : Limiter} (hits : List Hit)
    (h : limiter.buckets.items.length ≤ limiter.maxKeys) :
    (runHits policy limiter hits).2.buckets.items.length ≤ limiter.maxKeys := by
  induction hits using List.reverseRecOn with
  | nil => exact h
  | append_singleton hits hit ih =>
      have hmax : (runHits policy limiter hits).2.maxKeys = limiter.maxKeys :=
        maxKeys_runHits limiter hits
      rw [runHits_concat]
      rw [← hmax] at ih ⊢
      exact bounded_hit _ _ _ ih

theorem length_keysIn_append (window : Int) (before after : List Hit) :
    (keysIn policy window before).length ≤ (keysIn policy window (before ++ after)).length := by
  have hsub : keysIn policy window before ⊆ keysIn policy window (before ++ after) := by
    intro key hm
    obtain ⟨hit, hm, hw, hkey⟩ := mem_keysIn.mp hm
    exact mem_keysIn.mpr ⟨hit, List.mem_append_left _ hm, hw, hkey⟩
  exact ((List.nodup_dedup _).subperm hsub).length_le

theorem allowedIn_concat (window : Int) (key : Str) (decisions : List (Hit × Bool)) (hit : Hit)
    (allowed : Bool) :
    allowedIn policy window key (decisions ++ [(hit, allowed)]) =
      allowedIn policy window key decisions +
        if hit.key = key ∧ windowId policy hit.now = window ∧ allowed = true then 1 else 0 := by
  unfold allowedIn
  rw [List.countP_append, List.countP_singleton]
  simp

/-- A policy without requests allows none. -/
theorem allowedIn_of_rejecting (hpos : 0 < policy.windowSeconds) (hreq : policy.requests ≤ 0)
    (limiter : Limiter) (hits : List Hit) (window : Int) (key : Str) :
    allowedIn policy window key (runHits policy limiter hits).1 = 0 := by
  induction hits using List.reverseRecOn with
  | nil => rfl
  | append_singleton hits hit ih =>
      rw [runHits_concat, allowedIn_concat, ih]
      unfold Limiter.hit
      rw [if_neg (not_le.mpr hpos), if_pos hreq]
      simp

/-- **A window whose keys fit is counted exactly.** -/
theorem tracks_runHits (hpos : 0 < policy.windowSeconds) (hreq : 0 < policy.requests)
    {limiter : Limiter} (hempty : limiter.buckets = .empty) {window : Int} {hits : List Hit}
    (hmono : hits.Pairwise fun a b => a.now ≤ b.now)
    (hfit : (keysIn policy window hits).length ≤ limiter.maxKeys) :
    Tracks policy window hits (runHits policy limiter hits).2.buckets ∧
      ∀ key, allowedIn policy window key (runHits policy limiter hits).1 =
        min (hitsIn policy window key hits) policy.requests.toNat := by
  induction hits using List.reverseRecOn with
  | nil =>
      refine ⟨?_, fun key => (Nat.zero_min _).symm⟩
      rw [show (runHits policy limiter []).2.buckets = .empty from hempty]
      exact tracks_nil window
  | append_singleton hits hit ih =>
      rw [List.pairwise_append] at hmono
      obtain ⟨htracks, hallowed⟩ := ih hmono.1 ((length_keysIn_append _ _ _).trans hfit)
      have hpast : ∀ earlier ∈ hits, windowId policy earlier.now ≤ windowId policy hit.now :=
        fun earlier hm =>
          windowId_mono hpos (hmono.2.2 earlier hm hit (List.mem_singleton_self hit))
      have hmax : (runHits policy limiter hits).2.maxKeys = limiter.maxKeys :=
        maxKeys_runHits limiter hits
      rw [← hmax] at hfit
      rw [runHits_concat, hit_of_active hpos hreq]
      refine ⟨tracks_hit htracks hfit hpast, fun key => ?_⟩
      rw [allowedIn_concat, hitsIn_concat, hallowed]
      by_cases hhit : hit.key = key ∧ windowId policy hit.now = window
      · obtain ⟨rfl, rfl⟩ := hhit
        -- the hit is allowed while fewer than the allowed number came before
        simp only [nextCount_eq htracks hfit hpast, true_and, decide_eq_true_eq, if_true]
        split_ifs
        · omega
        · omega
      · rw [if_neg hhit, if_neg fun h => hhit ⟨h.1, h.2.1⟩]
        rfl

theorem create_eq_some {maxKeys : Int} {limiter : Limiter}
    (h : Limiter.create maxKeys = some limiter) :
    (limiter.maxKeys : Int) = maxKeys ∧ limiter.buckets = .empty := by
  unfold Limiter.create at h
  split_ifs at h with hpos
  obtain rfl := Option.some.inj h
  exact ⟨Int.toNat_of_nonneg hpos.le, rfl⟩

/-- **The limiter is exact and bounded.** It never holds more keys than it may, and in a window
    whose keys fit each key is allowed its number of requests, whatever the other keys do. -/
theorem exact_and_bounded {maxKeys : Int} {limiter : Limiter}
    (hcreate : Limiter.create maxKeys = some limiter) {hits : List Hit}
    (hmono : hits.Pairwise fun a b => a.now ≤ b.now) :
    (∀ before, before <+: hits →
      ((runHits policy limiter before).2.buckets.items.length : Int) ≤ maxKeys) ∧
    (0 < policy.windowSeconds → ∀ window,
      ((keysIn policy window hits).length : Int) ≤ maxKeys → ∀ key,
        allowedIn policy window key (runHits policy limiter hits).1 =
          min (hitsIn policy window key hits) policy.requests.toNat) := by
  obtain ⟨hmax, hempty⟩ := create_eq_some hcreate
  constructor
  · intro before _
    have hstart : limiter.buckets.items.length ≤ limiter.maxKeys := by
      rw [hempty]
      exact Nat.zero_le _
    rw [← hmax]
    exact_mod_cast bounded_runHits before hstart
  · intro hpos window hfit key
    rcases lt_or_ge 0 policy.requests with hreq | hreq
    · have hfit' : (keysIn policy window hits).length ≤ limiter.maxKeys := by omega
      exact (tracks_runHits hpos hreq hempty hmono hfit').2 key
    · rw [allowedIn_of_rejecting hpos hreq, Int.toNat_of_nonpos hreq, Nat.min_zero]

/-- Two keys in two windows of a minute, one request each. -/
def minuteHits : List Hit :=
  [⟨"a".toList, 0⟩, ⟨"b".toList, 1⟩, ⟨"a".toList, 59⟩, ⟨"a".toList, 60⟩]

theorem exact_and_bounded_at_minuteHits :
    allowedIn ⟨1, 60⟩ 0 "a".toList
      (runHits ⟨1, 60⟩ ⟨2, by decide, .empty⟩ minuteHits).1 =
        min (hitsIn ⟨1, 60⟩ 0 "a".toList minuteHits) 1 := by
  have hcreate : Limiter.create 2 = some ⟨2, by decide, .empty⟩ := rfl
  exact (exact_and_bounded hcreate (by decide +kernel)).2 (by decide +kernel) 0
    (by decide +kernel) "a".toList

end PgErdCloud.RateLimit
