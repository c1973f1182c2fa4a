/-
  The cached signing keys (`_get_jwks` of app/auth.py), any number of concurrent calls in one
  process. What runs between two awaits is one step, a call may fail or be cancelled at every
  await, and the clock does not go back.

  A call checks the cache twice, the second time with the lock. The lock is held until the
  response is stored, so what the second check found is still true when the request is sent.

  `refresh_throttled` says for every run when a request is sent: a forced one no sooner than a
  minute behind the last document, another one no sooner than that document has expired.
-/
import PgErdCloud.Lib.Machine
import PgErdCloud.Auth.Tokens

namespace PgErdCloud.Auth

open Lib

namespace JwksCache

/-- How long fetched keys are used. -/
def OIDC_JWKS_CACHE_TTL : Time := seconds (5 * 60)
/-- How long no second forced fetch is made. -/
def OIDC_JWKS_MIN_REFRESH_INTERVAL : Time := seconds 60

/-! ## State -/

/-- Where a call is. -/
inductive Pc (Jwks : Type)
  /-- In `_get_oidc_config`. -/
  | called (forceRefresh : Bool)
  | waiting (forceRefresh : Bool)
  /-- With the lock, before the second check. -/
  | locked (forceRefresh : Bool)
  /-- About to send the request. -/
  | starting (forceRefresh : Bool)
  | fetching (forceRefresh : Bool)
  /-- With what it returned, or with an exception. -/
  | finished (result : Option (Option Jwks))

/-- The call is in the block of the lock. -/
def Pc.inside {Jwks : Type} : Pc Jwks → Bool
  | .locked _ | .starting _ | .fetching _ => true
  | _ => false

/-- The flag of a call that passed the second check. -/
def Pc.passed {Jwks : Type} : Pc Jwks → Option Bool
  | .starting forceRefresh | .fetching forceRefresh => some forceRefresh
  | _ => none

/-- The globals of the module, the lock with its holder, and the calls. There is no document
    before the first one is stored, and after a response `null`. -/
structure State (Jwks : Type) where
  clock : Time
  oidcJwks : Option Jwks
  oidcJwksExpiresAt : Time
  lastJwksRefreshAt : Time
  jwksLock : Option Nat
  calls : Dict Nat (Pc Jwks)

variable {Jwks : Type}

/-- A process that starts. -/
def State.initial (clock : Time) : State Jwks := ⟨clock, none, 0, 0, none, .empty⟩

/-- A call comes to another place. -/
def State.goto (s : State Jwks) (c : Nat) (pc : Pc Jwks) : State Jwks :=
  { s with calls := s.calls.set c pc }

/-- The check that is made twice: the cached document is returned. -/
def State.served (s : State Jwks) (forceRefresh : Bool) : Bool :=
  s.oidcJwks.isSome &&
    ((!forceRefresh && s.clock < s.oidcJwksExpiresAt) ||
      (forceRefresh && s.clock < s.lastJwksRefreshAt + OIDC_JWKS_MIN_REFRESH_INTERVAL))

/-- A response is stored. -/
def State.store (s : State Jwks) (jwks : Option Jwks) : State Jwks :=
  { s with
    oidcJwks := jwks
    oidcJwksExpiresAt := s.clock + OIDC_JWKS_CACHE_TTL
    lastJwksRefreshAt := s.clock }

/-- The call ends, and if it has the lock it releases it. -/
def State.finish (s : State Jwks) (c : Nat) (pc : Pc Jwks) (result : Option (Option Jwks)) :
    State Jwks :=
  { s with jwksLock := if pc.inside then none else s.jwksLock }.goto c (.finished result)

/-! ## Steps -/

/-- What happens to a call, with a clock reading where it makes one. -/
inductive Action (Jwks : Type)
  | call (c : Nat) (forceRefresh : Bool)
  /-- The configuration is there. -/
  | configured (c : Nat) (now : Time)
  | acquire (c : Nat)
  | recheck (c : Nat) (now : Time)
  | send (c : Nat) (now : Time)
  /-- The response with its JSON; `none` for the value `null`. -/
  | fetched (c : Nat) (jwks : Option Jwks) (now : Time)
  /-- An error, an unusable response or a cancellation. -/
  | fail (c : Nat)

/-- Read the clock. -/
def State.read (s : State Jwks) (now : Time) : Option (State Jwks) :=
  if now < s.clock then none else some { s with clock := now }

/-- The next part of a call. -/
def State.next (s : State Jwks) (c : Nat) : Pc Jwks → Action Jwks → Option (State Jwks)
  | .called forceRefresh, .configured _ now =>
      (s.read now).map fun s =>
        if s.served forceRefresh then s.finish c (.called forceRefresh) (some s.oidcJwks)
        else s.goto c (.waiting forceRefresh)
  | .waiting forceRefresh, .acquire _ =>
      if s.jwksLock = none then
        some ({ s with jwksLock := some c }.goto c (.locked forceRefresh))
      else none
  | .locked forceRefresh, .recheck _ now =>
      (s.read now).map fun s =>
        if s.served forceRefresh then s.finish c (.locked forceRefresh) (some s.oidcJwks)
        else s.goto c (.starting forceRefresh)
  | .starting forceRefresh, .send _ now =>
      (s.read now).map fun s => s.goto c (.fetching forceRefresh)
  | .fetching forceRefresh, .fetched _ jwks now =>
      (s.read now).map fun s =>
        (s.store jwks).finish c (.fetching forceRefresh) (some jwks)
  | .finished _, .fail _ => none
  | pc, .fail _ => some (s.finish c pc none)
  | _, _ => none

/-- The call that an action is about. -/
def Action.subject : Action Jwks → Nat
  | .call c _ | .configured c _ | .acquire c | .recheck c _ | .send c _ | .fetched c _ _
  | .fail c => c

/-- One step of one call. It is `none` where the call is not at that step. -/
def step (s : State Jwks) : Action Jwks → Option (State Jwks)
  | .call c forceRefresh =>
      if c ∈ s.calls.keys then none else some (s.goto c (.called forceRefresh))
  | a => (s.calls.get? a.subject).bind fun pc => s.next a.subject pc a

/-! ## The lock -/

/-- A call with this flag is right to fetch: there is no document, or it is old enough. -/
def State.Due (s : State Jwks) (forceRefresh : Bool) : Prop :=
  s.oidcJwks.isSome = true →
    if forceRefresh then s.lastJwksRefreshAt + OIDC_JWKS_MIN_REFRESH_INTERVAL ≤ s.clock
    else s.oidcJwksExpiresAt ≤ s.clock

theorem State.due_of_not_served {s : State Jwks} {forceRefresh : Bool}
    (h : s.served forceRefresh = false) : s.Due forceRefresh := by
  intro hsome
  unfold State.served at h
  rw [hsome, Bool.true_and] at h
  cases forceRefresh with
  | true => simpa using h
  | false => simpa using h

/-- At a later time it is still due. -/
theorem State.Due.later {s t : State Jwks} {forceRefresh : Bool} (h : s.Due forceRefresh)
    (hclock : s.clock ≤ t.clock) (hjwks : t.oidcJwks = s.oidcJwks)
    (hexpires : t.oidcJwksExpiresAt = s.oidcJwksExpiresAt)
    (hlast : t.lastJwksRefreshAt = s.lastJwksRefreshAt) : t.Due forceRefresh := by
  intro hsome
  rw [hjwks] at hsome
  have hdue := h hsome
  rw [hexpires, hlast]
  cases forceRefresh with
  | true =>
      simp only [if_true] at hdue ⊢
      exact hdue.trans hclock
  | false =>
      simp only [Bool.false_eq_true, if_false] at hdue ⊢
      exact hdue.trans hclock

theorem Pc.passed_of_outside {pc : Pc Jwks} (h : pc.inside = false) : pc.passed = none := by
  cases pc with
  | called | waiting | finished => rfl
  | locked | starting | fetching => exact nomatch h

/-- Only the holder of the lock is in its block, and if it passed the second check it is due. -/
structure Inv (s : State Jwks) : Prop where
  holder : ∀ c pc, s.calls.get? c = some pc → pc.inside = true → s.jwksLock = some c
  due : ∀ c pc forceRefresh, s.calls.get? c = some pc → pc.passed = some forceRefresh →
    s.Due forceRefresh

theorem inv_initial (clock : Time) : Inv (State.initial clock : State Jwks) where
  holder := fun _ _ h => nomatch h
  due := fun _ _ _ h => nomatch h

section
variable {s t : State Jwks} {c : Nat} {pc pc' : Pc Jwks}

/-- A call moves outside of the block. -/
theorem Inv.outside (h : Inv s) (hpc : pc'.inside = false) (hcalls : t.calls = s.calls.set c pc')
    (hlock : t.jwksLock = s.jwksLock) (hclock : s.clock ≤ t.clock)
    (hjwks : t.oidcJwks = s.oidcJwks)
    (hexpires : t.oidcJwksExpiresAt = s.oidcJwksExpiresAt)
    (hlast : t.lastJwksRefreshAt = s.lastJwksRefreshAt) : Inv t := by
  constructor
  · intro other opc hget hinside
    rw [hcalls, Dict.get?_set] at hget
    split_ifs at hget with heq
    · rw [Option.some.inj hget] at hpc
      rw [hpc] at hinside
      exact absurd hinside Bool.false_ne_true
    · rw [hlock]
      exact h.holder other opc hget hinside
  · intro other opc forceRefresh hget hpassed
    rw [hcalls, Dict.get?_set] at hget
    split_ifs at hget with heq
    · rw [← Option.some.inj hget, Pc.passed_of_outside hpc] at hpassed
      exact absurd hpassed (by simp)
    · exact (h.due other opc forceRefresh hget hpassed).later hclock hjwks hexpires hlast

/-- The holder leaves the block: then nobody is in it. -/
theorem Inv.leave (h : Inv s) (hget : s.calls.get? c = some pc) (hinside : pc.inside = true)
    (hpc : pc'.inside = false) (hcalls : t.calls = s.calls.set c pc') : Inv t := by
  have hnobody : ∀ other opc, t.calls.get? other = some opc → opc.inside = false := by
    intro other opc hother
    rw [hcalls, Dict.get?_set] at hother
    split_ifs at hother with heq
    · rw [← Option.some.inj hother]
      exact hpc
    · by_contra hin
      rw [Bool.not_eq_false] at hin
      have hlock := h.holder c pc hget hinside
      have hlock' := h.holder other opc hother hin
      exact heq (Option.some.inj (hlock'.symm.trans hlock))
  constructor
  · intro other opc hother hin
    rw [hnobody other opc hother] at hin
    exact absurd hin Bool.false_ne_true
  · intro other opc forceRefresh hother hpassed
    rw [Pc.passed_of_outside (hnobody other opc hother)] at hpassed
    exact absurd hpassed (by simp)

/-- The holder stays in the block. -/
theorem Inv.stay (h : Inv s) (hlock : t.jwksLock = some c)
    (hholder : s.jwksLock = some c ∨ s.jwksLock = none)
    (hcalls : t.calls = s.calls.set c pc')
    (hdue : ∀ forceRefresh, pc'.passed = some forceRefresh → t.Due forceRefresh) : Inv t := by
  have hother : ∀ other opc, other ≠ c → t.calls.get? other = some opc →
      opc.inside = false := by
    intro other opc hne hget
    rw [hcalls, Dict.get?_set, if_neg hne] at hget
    by_contra hin
    rw [Bool.not_eq_false] at hin
    have hlock' := h.holder other opc hget hin
    rcases hholder with hc | hnone
    · exact hne (Option.some.inj (hlock'.symm.trans hc))
    · rw [hnone] at hlock'
      exact nomatch hlock'
  constructor
  · intro other opc hget hin
    by_cases heq : other = c
    · rw [heq]
      exact hlock
    · rw [hother other opc heq hget] at hin
      exact absurd hin Bool.false_ne_true
  · intro other opc forceRefresh hget hpassed
    by_cases heq : other = c
    · rw [heq, hcalls, Dict.get?_set, if_pos rfl] at hget
      rw [← Option.some.inj hget] at hpassed
      exact hdue forceRefresh hpassed
    · rw [Pc.passed_of_outside (hother other opc heq hget)] at hpassed
      exact absurd hpassed (by simp)

end

theorem State.read_eq_some {s t : State Jwks} {now : Time} (h : s.read now = some t) :
    s.clock ≤ now ∧ t = { s with clock := now } := by
  unfold State.read at h
  split_ifs at h with hlt
  exact ⟨not_lt.mp hlt, (Option.some.inj h).symm⟩

/-- **A step keeps the invariant.** -/
theorem inv_next {s t : State Jwks} {c : Nat} {pc : Pc Jwks} {a : Action Jwks} (hs : Inv s)
    (hget : s.calls.get? c = some pc) (h : s.next c pc a = some t) : Inv t := by
  unfold State.next at h
  split at h
  case h_1 forceRefresh _ now =>
    obtain ⟨u, hu, rfl⟩ := Option.map_eq_some_iff.mp h
    obtain ⟨hclock, rfl⟩ := State.read_eq_some hu
    split_ifs
    · exact hs.outside rfl rfl rfl hclock rfl rfl rfl
    · exact hs.outside rfl rfl rfl hclock rfl rfl rfl
  case h_2 forceRefresh _ =>
    split_ifs at h with hfree
    obtain rfl := Option.some.inj h
    exact hs.stay rfl (.inr hfree) rfl fun force hforce => nomatch hforce
  case h_3 forceRefresh _ now =>
    obtain ⟨u, hu, rfl⟩ := Option.map_eq_some_iff.mp h
    obtain ⟨hclock, rfl⟩ := State.read_eq_some hu
    have hlock := hs.holder c _ hget rfl
    split_ifs with hserved
    · exact hs.leave hget rfl rfl rfl
    · refine hs.stay hlock (.inl hlock) rfl ?_
      intro force hforce
      obtain rfl : forceRefresh = force := Option.some.inj hforce
      exact State.due_of_not_served (Bool.not_eq_true _ ▸ hserved)
  case h_4 forceRefresh _ now =>
    obtain ⟨u, hu, rfl⟩ := Option.map_eq_some_iff.mp h
    obtain ⟨hclock, rfl⟩ := State.read_eq_some hu
    have hlock := hs.holder c _ hget rfl
    refine hs.stay hlock (.inl hlock) rfl ?_
    intro force hforce
    exact (hs.due c _ force hget hforce).later hclock rfl rfl rfl
  case h_5 forceRefresh _ jwks now =>
    obtain ⟨u, hu, rfl⟩ := Option.map_eq_some_iff.mp h
    obtain ⟨hclock, rfl⟩ := State.read_eq_some hu
    exact hs.leave hget rfl rfl rfl
  case h_6 => exact nomatch h
  case h_7 =>
    obtain rfl := Option.some.inj h
    by_cases hinside : pc.inside = true
    · exact hs.leave hget hinside rfl rfl
    · refine hs.outside rfl rfl ?_ le_rfl rfl rfl rfl
      show (if pc.inside then none else s.jwksLock) = s.jwksLock
      rw [if_neg hinside]
  case h_8 => exact nomatch h

theorem inv_step {s t : State Jwks} {a : Action Jwks} (hs : Inv s) (h : step s a = some t) :
    Inv t := by
  unfold step at h
  split at h
  · split_ifs at h
    obtain rfl := Option.some.inj h
    exact hs.outside rfl rfl rfl le_rfl rfl rfl rfl
  · obtain ⟨pc, hget, hnext⟩ := Option.bind_eq_some_iff.mp h
    exact inv_next hs hget hnext

/-! ## Fetches -/

/-- The responses of the successful fetches, with the time at which each was complete. -/
def fetches (actions : List (Action Jwks)) : List (Option Jwks × Time) :=
  actions.filterMap fun
    | .fetched _ jwks now => some (jwks, now)
    | _ => none

/-- Those that are a document. -/
def documents (actions : List (Action Jwks)) : List (Jwks × Time) :=
  (fetches actions).filterMap fun fetch => fetch.1.map (·, fetch.2)

/-- A step stores a response, or leaves the cache alone. -/
theorem step_cases {s t : State Jwks} {a : Action Jwks} (h : step s a = some t) :
    (∃ c jwks now forceRefresh, a = .fetched c jwks now ∧
      s.calls.get? c = some (.fetching forceRefresh) ∧ s.clock ≤ now ∧ t.clock = now ∧
      t.oidcJwks = jwks ∧ t.lastJwksRefreshAt = now ∧
      t.oidcJwksExpiresAt = now + OIDC_JWKS_CACHE_TTL) ∨
    (fetches [a] = [] ∧ s.clock ≤ t.clock ∧ t.oidcJwks = s.oidcJwks ∧
      t.lastJwksRefreshAt = s.lastJwksRefreshAt ∧
      t.oidcJwksExpiresAt = s.oidcJwksExpiresAt) := by
  unfold step at h
  split at h
  · split_ifs at h
    obtain rfl := Option.some.inj h
    exact .inr ⟨rfl, le_rfl, rfl, rfl, rfl⟩
  obtain ⟨pc, hget, hnext⟩ := Option.bind_eq_some_iff.mp h
  unfold State.next at hnext
  split at hnext
  case h_1 =>
    obtain ⟨u, hu, rfl⟩ := Option.map_eq_some_iff.mp hnext
    obtain ⟨hclock, rfl⟩ := State.read_eq_some hu
    split_ifs
    · exact .inr ⟨rfl, hclock, rfl, rfl, rfl⟩
    · exact .inr ⟨rfl, hclock, rfl, rfl, rfl⟩
  case h_2 =>
    split_ifs at hnext
    obtain rfl := Option.some.inj hnext
    exact .inr ⟨rfl, le_rfl, rfl, rfl, rfl⟩
  case h_3 =>
    obtain ⟨u, hu, rfl⟩ := Option.map_eq_some_iff.mp hnext
    obtain ⟨hclock, rfl⟩ := State.read_eq_some hu
    split_ifs
    · exact .inr ⟨rfl, hclock, rfl, rfl, rfl⟩
    · exact .inr ⟨rfl, hclock, rfl, rfl, rfl⟩
  case h_4 =>
    obtain ⟨u, hu, rfl⟩ := Option.map_eq_some_iff.mp hnext
    obtain ⟨hclock, rfl⟩ := State.read_eq_some hu
    exact .inr ⟨rfl, hclock, rfl, rfl, rfl⟩
  case h_5 forceRefresh c jwks now _ =>
    obtain ⟨u, hu, rfl⟩ := Option.map_eq_some_iff.mp hnext
    obtain ⟨hclock, rfl⟩ := State.read_eq_some hu
    exact .inl ⟨c, jwks, now, forceRefresh, rfl, hget, hclock, rfl, rfl, rfl, rfl⟩
  case h_6 => exact absurd hnext (by simp)
  case h_7 =>
    obtain rfl := Option.some.inj hnext
    exact .inr ⟨rfl, le_rfl, rfl, rfl, rfl⟩
  case h_8 => exact absurd hnext (by simp)

/-- The cache holds the last response. A document that is not there any more was replaced
    not before it could be. -/
structure Follows (actions : List (Action Jwks)) (s : State Jwks) : Prop where
  inv : Inv s
  empty : fetches actions = [] → s.oidcJwks = none
  last : ∀ jwks completed, (fetches actions).getLast? = some (jwks, completed) →
    s.oidcJwks = jwks ∧ s.lastJwksRefreshAt = completed ∧
      s.oidcJwksExpiresAt = completed + OIDC_JWKS_CACHE_TTL
  aged : ∀ jwks completed, (documents actions).getLast? = some (jwks, completed) →
    (s.oidcJwks = some jwks ∧ s.lastJwksRefreshAt = completed) ∨
      completed + OIDC_JWKS_MIN_REFRESH_INTERVAL ≤ s.clock

theorem fetches_concat (actions : List (Action Jwks)) (a : Action Jwks) :
    fetches (actions ++ [a]) = fetches actions ++ fetches [a] := List.filterMap_append

theorem documents_concat (actions : List (Action Jwks)) (a : Action Jwks) :
    documents (actions ++ [a]) = documents actions ++ documents [a] := by
  unfold documents
  rw [fetches_concat, List.filterMap_append]

/-- Where a call may fetch, the document is old enough for a refresh. -/
theorem Follows.refreshable {actions : List (Action Jwks)} {s : State Jwks}
    (h : Follows actions s) {c : Nat} {pc : Pc Jwks} {forceRefresh : Bool}
    (hget : s.calls.get? c = some pc) (hpassed : pc.passed = some forceRefresh)
    {jwks : Jwks} {completed : Time}
    (hlast : (documents actions).getLast? = some (jwks, completed)) :
    completed + OIDC_JWKS_MIN_REFRESH_INTERVAL ≤ s.clock := by
  rcases h.aged jwks completed hlast with ⟨hcached, hcompleted⟩ | hold
  · have hdue := h.inv.due c pc forceRefresh hget hpassed (by rw [hcached]; rfl)
    cases forceRefresh with
    | true =>
        simp only [if_true] at hdue
        rw [hcompleted] at hdue
        exact hdue
    | false =>
        -- the time to live is longer than the interval
        have hfetch : ∃ e, (fetches actions).getLast? = some e := by
          by_contra hnone
          push Not at hnone
          have hempty : fetches actions = [] := by
            by_contra hne
            exact hnone _ (List.getLast?_eq_some_getLast hne)
          rw [h.empty hempty] at hcached
          exact nomatch hcached
        obtain ⟨⟨r, time⟩, he⟩ := hfetch
        obtain ⟨-, htime, hexpires⟩ := h.last r time he
        have hinterval : OIDC_JWKS_MIN_REFRESH_INTERVAL ≤ OIDC_JWKS_CACHE_TTL := by decide
        simp only [Bool.false_eq_true, if_false] at hdue
        have hold : completed + OIDC_JWKS_CACHE_TTL ≤ s.clock := by
          rw [← hcompleted, htime, ← hexpires]
          exact hdue
        exact (add_le_add_right hinterval completed).trans hold
  · exact hold

theorem follows_step {actions : List (Action Jwks)} {s t : State Jwks} {a : Action Jwks}
    (hs : Follows actions s) (h : step s a = some t) : Follows (actions ++ [a]) t := by
  refine ⟨inv_step hs.inv h, ?_, ?_, ?_⟩
  all_goals rcases step_cases h with
    ⟨c, response, now, forceRefresh, rfl, hget, hnow, hclock, hjwks, hlast, hexpires⟩ |
    ⟨hnone, hclock, hjwks, hlast, hexpires⟩
  · intro hempty
    rw [fetches_concat] at hempty
    exact absurd hempty (by simp [fetches])
  · intro hempty
    rw [fetches_concat, hnone, List.append_nil] at hempty
    rw [hjwks]
    exact hs.empty hempty
  · intro jwks completed hget
    rw [fetches_concat] at hget
    obtain ⟨rfl, rfl⟩ : response = jwks ∧ now = completed := by simpa [fetches] using hget
    exact ⟨hjwks, hlast, hexpires⟩
  · intro jwks completed hget
    rw [fetches_concat, hnone, List.append_nil] at hget
    rw [hjwks, hlast, hexpires]
    exact hs.last jwks completed hget
  · intro jwks completed hdoc
    rw [documents_concat] at hdoc
    cases response with
    | none =>
        have hnodoc : documents [Action.fetched c (none : Option Jwks) now] = [] := rfl
        rw [hnodoc, List.append_nil] at hdoc
        right
        have hold := hs.refreshable hget rfl hdoc
        rw [hclock]
        exact hold.trans hnow
    | some doc =>
        have hnewdoc : documents [Action.fetched c (some doc) now] = [(doc, now)] := rfl
        rw [hnewdoc, List.getLast?_concat] at hdoc
        obtain ⟨rfl, rfl⟩ := Prod.mk.inj (Option.some.inj hdoc)
        exact .inl ⟨hjwks, hlast⟩
  · intro jwks completed hdoc
    have hnodoc : documents [a] = [] := by
      unfold documents
      rw [hnone]
      rfl
    rw [documents_concat, hnodoc, List.append_nil] at hdoc
    rw [hjwks, hlast]
    rcases hs.aged jwks completed hdoc with hcached | hold
    · exact .inl hcached
    · exact .inr (hold.trans hclock)

theorem follows_run {clock : Time} {actions : List (Action Jwks)} {s : State Jwks}
    (h : run step (State.initial clock) actions = some s) : Follows actions s := by
  induction actions using List.reverseRecOn generalizing s with
  | nil =>
      rw [run_nil, Option.some.injEq] at h
      subst h
      refine ⟨inv_initial clock, fun _ => rfl, ?_, ?_⟩
      · intro jwks completed hlast
        exact nomatch hlast
      · intro jwks completed hlast
        exact nomatch hlast
  | append_singleton actions a ih =>
      obtain ⟨u, hu, hstep⟩ := run_concat.mp h
      exact follows_step (ih hu) hstep

/-! ## The throttle -/

/-- **Random key ids cannot hurry the refresh.** A forced refresh starts a minute or more after
    the last document was complete, and an unforced one not before the cached document
    expired, whatever was called, fetched and failed before. -/
theorem refresh_throttled (clock : Time) (actions : List (Action Jwks)) {s t : State Jwks}
    (hrun : run step (State.initial clock) actions = some s) (c : Nat) {forceRefresh : Bool}
    (hcall : s.calls.get? c = some (.starting forceRefresh)) {now : Time}
    (hsend : step s (.send c now) = some t) {jwks : Jwks} {completed : Time}
    (hdocument : (documents actions).getLast? = some (jwks, completed)) :
    (forceRefresh = true → completed + seconds 60 ≤ now) ∧
      (forceRefresh = false → (fetches actions).getLast? = some (some jwks, completed) →
        completed + OIDC_JWKS_CACHE_TTL ≤ now) := by
  have hfollows := follows_run hrun
  have hnow : s.clock ≤ now := by
    unfold step at hsend
    simp only [Action.subject, hcall, Option.bind_some, State.next] at hsend
    obtain ⟨u, hu, -⟩ := Option.map_eq_some_iff.mp hsend
    exact (State.read_eq_some hu).1
  constructor
  · rintro -
    exact (hfollows.refreshable hcall rfl hdocument).trans hnow
  · rintro rfl hfetched
    obtain ⟨hcached, -, hexpires⟩ := hfollows.last _ _ hfetched
    have hdue := hfollows.inv.due c _ false hcall rfl (by rw [hcached]; rfl)
    simp only [Bool.false_eq_true, if_false] at hdue
    rw [hexpires] at hdue
    exact hdue.trans hnow

/-- A first fetch, complete after a second, and a refresh that is forced in the second
    minute. -/
theorem refresh_throttled_example :
    (true = true → seconds 1 + seconds 60 ≤ seconds 100) ∧
      (true = false →
        (fetches [Action.fetched 1 (some "keys") (seconds 1)]).getLast? =
          some (some "keys", seconds 1) →
        seconds 1 + OIDC_JWKS_CACHE_TTL ≤ seconds 100) :=
  refresh_throttled 0
    [.call 1 false, .configured 1 0, .acquire 1, .recheck 1 0, .send 1 0,
      .fetched 1 (some "keys") (seconds 1), .call 2 true, .configured 2 (seconds 99),
      .acquire 2, .recheck 2 (seconds 100)]
    (by rfl) 2 (by rfl) (by rfl) (by rfl)

end JwksCache

end PgErdCloud.Auth
