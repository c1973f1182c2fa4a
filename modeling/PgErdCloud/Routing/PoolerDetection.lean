/-
  Pooler detection and the routing of reads (app/pooler.py, app/db.py), any number of concurrent
  calls in one process. What runs between two awaits is one step, a call may be cancelled at
  every await, and the clock does not go back.

  A round asks the admin consoles in their order. The lock is held for the whole round and the
  cache is checked again with it, so rounds do not overlap, and one that starts found the round
  before it expired.

  `rounds_throttled` and `reads_routed` are about every run: no two rounds overlap or complete
  within one time to live, and where reads go is said exactly by the settings and the last round.
-/
import PgErdCloud.Auth.Tokens
import PgErdCloud.Lib.Exclusive
import PgErdCloud.Lib.Machine

namespace PgErdCloud.Routing

open Lib Lib.PyStr
open Auth (Time seconds)

/-! ## Detection -/

/-- `PoolerKind` -/
inductive PoolerKind
  | pgbouncer
  | pgcat
  | unknown
  | none
  deriving DecidableEq

/-- The setting that says when reads go to the replica. -/
inductive ReadRoutingMode
  | off
  | auto
  | on
  deriving DecidableEq

/-- `PoolerDetectionResult` -/
structure PoolerDetectionResult where
  kind : PoolerKind
  detected : Bool
  versionText : Option Str
  deriving DecidableEq

/-- The settings that are read here. -/
structure Settings where
  dbPoolerKind : Option PoolerKind
  databaseReadOnlyUrl : Option Str
  dbReadRouting : ReadRoutingMode

/-- `classify_pooler_version_text` -/
def classifyPoolerVersionText (unicode : Unicode) (versionText : Str) : PoolerKind :=
  let text := unicode.lower (strip versionText)
  if contains "pgbouncer".toList text then .pgbouncer
  else if contains "pgcat".toList text then .pgcat
  else .unknown

/-- `should_route_reads_to_read_only`: in automatic mode only behind a pooler. -/
def shouldRouteReadsToReadOnly (mode : ReadRoutingMode) (readOnlyUrl : Option Str)
    (poolerDetected : Bool) : Bool :=
  if readOnlyUrl.getD [] = [] then false
  else match mode with
    | .off => false
    | .on => true
    | .auto => poolerDetected

/-- What the settings say without asking. -/
def configuredDetection (kind : PoolerKind) : PoolerDetectionResult :=
  ⟨kind, decide (kind ≠ .none), none⟩

/-- The result of a round, by the text that a console answered. -/
def probedDetection (unicode : Unicode) : Option Str → PoolerDetectionResult
  | some versionText => ⟨classifyPoolerVersionText unicode versionText, true, some versionText⟩
  | none => ⟨.unknown, false, none⟩

/-- Whether `get_read_session` opens a session of the read-only database. -/
def readsFromReadOnly (settings : Settings) (detection : PoolerDetectionResult) : Bool :=
  decide (settings.databaseReadOnlyUrl.getD [] ≠ []) &&
    shouldRouteReadsToReadOnly settings.dbReadRouting settings.databaseReadOnlyUrl
      detection.detected

/-! ## State -/

/-- How long a detection is used. -/
def POOLER_CACHE_TTL_SECONDS : Time := seconds 300

/-- The administrative databases, in the order in which they are asked. -/
def adminDbs : List Str := ["pgbouncer".toList, "pgcat".toList]

/-- Where a call of `get_pooler_detection` is. -/
inductive Pc
  | waiting
  /-- With the lock since the second check, and the consoles that it has not heard of yet. -/
  | probing (now2 : Time) (adminDbs : List Str)
  /-- With what it returned, or with an exception. -/
  | finished (result : Option PoolerDetectionResult)
  deriving DecidableEq

/-- Within the section that the lock guards. -/
def Pc.inside : Pc → Bool
  | .probing _ _ => true
  | _ => false

/-- A complete round: when it started and was stored, and what a console answered. -/
structure Round where
  started : Time
  completed : Time
  versionText : Option Str

/-- The globals of the module, the calls, and the history of the rounds, the last one first,
    which no step reads. -/
structure State where
  clock : Time
  poolerCache : Option PoolerDetectionResult
  poolerCacheAt : Time
  poolerLock : Option Nat
  calls : Dict Nat Pc
  rounds : List Round

/-- A process that starts. -/
def State.initial (clock : Time) : State := ⟨clock, none, 0, none, .empty, []⟩

namespace State

/-- A call comes to another place. -/
def goto (s : State) (c : Nat) (pc : Pc) : State := { s with calls := s.calls.set c pc }

/-- Read the clock. -/
def read (s : State) (now : Time) : Option State :=
  if now < s.clock then none else some { s with clock := now }

/-- The check that is made twice. -/
def fresh (s : State) : Option PoolerDetectionResult :=
  s.poolerCache.filter fun _ => s.clock - s.poolerCacheAt < POOLER_CACHE_TTL_SECONDS

/-- A call takes the lock. -/
def lock (s : State) (c : Nat) : State := { s with poolerLock := some c }

/-- The lock is free again. -/
def release (s : State) : State := { s with poolerLock := none }

/-- A round is complete. -/
def store (unicode : Unicode) (s : State) (started : Time) (versionText : Option Str) : State :=
  { s with
    poolerCache := some (probedDetection unicode versionText)
    poolerCacheAt := s.clock
    rounds := ⟨started, s.clock, versionText⟩ :: s.rounds }

end State

/-! ## Steps -/

/-- What happens to a call, with a clock reading where it makes one. -/
inductive Action
  | call (c : Nat) (now : Time)
  /-- The lock is free, and the cache is checked again. -/
  | acquire (c : Nat) (now : Time)
  /-- A console answers `SHOW VERSION`; `none` without a text, after an error or a timeout. -/
  | answer (c : Nat) (versionText : Option Str) (now : Time)
  /-- A cancellation. -/
  | cancel (c : Nat)

section
variable (unicode : Unicode) (settings : Settings)

/-- The call has a text or has none, and consoles are left or not. -/
def State.heard (s : State) (c : Nat) (started : Time) (versionText : Option Str)
    (rest : List Str) : State :=
  match versionText.filter (· ≠ []), rest with
  | none, _ :: _ => s.goto c (.probing started rest)
  | text, _ =>
      (s.store unicode started text).release.goto c
        (.finished (some (probedDetection unicode text)))

/-- One step of one call. It is `none` where the call is not at that step, or the clock would run
    back. -/
def step (s : State) : Action → Option State
  | .call c now =>
      if c ∈ s.calls.keys then none
      else (s.read now).map fun s =>
        match settings.dbPoolerKind, s.fresh with
        | some kind, _ => s.goto c (.finished (some (configuredDetection kind)))
        | none, some result => s.goto c (.finished (some result))
        | none, none => s.goto c .waiting
  | .acquire c now =>
      if s.calls.get? c = some .waiting ∧ s.poolerLock = none then
        (s.read now).map fun s =>
          match s.fresh with
          | some result => s.goto c (.finished (some result))
          | none => (s.lock c).goto c (.probing s.clock adminDbs)
      else none
  | .answer c versionText now =>
      match s.calls.get? c with
      | some (.probing started (_ :: rest)) =>
          (s.read now).map fun s => s.heard unicode c started versionText rest
      | _ => none
  | .cancel c =>
      match s.calls.get? c with
      | some .waiting => some (s.goto c (.finished none))
      | some (.probing _ _) => some (s.release.goto c (.finished none))
      | _ => none

end

/-! ## The invariant -/

/-- Each round starts at least the time to live after the rounds before it. -/
def Spaced (rounds : List Round) : Prop :=
  rounds.Pairwise fun newer older => older.completed + POOLER_CACHE_TTL_SECONDS ≤ newer.started

/-- What every reachable state keeps: the lock is exclusive, the cache is what the last round
    detected, and a round that is under way began after the cache had ended. -/
structure Inv (unicode : Unicode) (settings : Settings) (s : State) : Prop where
  exclusive : Exclusive Pc.inside s.poolerLock s.calls
  cache : s.poolerCache = s.rounds.head?.map fun round =>
    probedDetection unicode round.versionText
  cacheAt : ∀ round ∈ s.rounds.head?, s.poolerCacheAt = round.completed
  probing : ∀ c started dbs, s.calls.get? c = some (.probing started dbs) →
    started ≤ s.clock ∧ ∀ round ∈ s.rounds, round.completed + POOLER_CACHE_TTL_SECONDS ≤ started
  ordered : ∀ round ∈ s.rounds, round.started ≤ round.completed ∧ round.completed ≤ s.clock
  spaced : Spaced s.rounds
  configured : settings.dbPoolerKind ≠ none → s.rounds = [] ∧
    ∀ c pc, s.calls.get? c = some pc → ∃ result, pc = .finished result

section
variable {unicode : Unicode} {settings : Settings} {s : State}

theorem inv_initial (clock : Time) : Inv unicode settings (State.initial clock) where
  exclusive := .empty _ _
  cache := rfl
  cacheAt := by simp [State.initial]
  probing := by simp [State.initial]
  ordered := by simp [State.initial]
  spaced := .nil
  configured := by simp [State.initial]

theorem State.read_eq_some {t : State} {now : Time} (h : s.read now = some t) :
    s.clock ≤ now ∧ t = { s with clock := now } := by
  unfold State.read at h
  split_ifs at h with hlt
  exact ⟨not_lt.mp hlt, (Option.some.inj h).symm⟩

/-- Time passes. -/
theorem Inv.read (h : Inv unicode settings s) {t : State} {now : Time}
    (ht : s.read now = some t) : Inv unicode settings t := by
  obtain ⟨hclock, rfl⟩ := State.read_eq_some ht
  refine ⟨h.exclusive, h.cache, h.cacheAt, ?_, ?_, h.spaced, h.configured⟩
  · intro c started dbs hget
    obtain ⟨hle, hround⟩ := h.probing c started dbs hget
    exact ⟨hle.trans hclock, hround⟩
  · intro round hmem
    obtain ⟨hle, hle'⟩ := h.ordered round hmem
    exact ⟨hle, hle'.trans hclock⟩

/-- A call ends outside of the block. -/
theorem Inv.finish (h : Inv unicode settings s) (c : Nat)
    (result : Option PoolerDetectionResult) :
    Inv unicode settings (s.goto c (.finished result)) := by
  refine ⟨h.exclusive.outside rfl, h.cache, h.cacheAt, ?_, h.ordered, h.spaced, ?_⟩
  · intro c' started dbs hget
    rw [State.goto, Dict.get?_set] at hget
    split_ifs at hget
    · simp at hget
    · exact h.probing c' started dbs hget
  · intro hkind
    refine ⟨(h.configured hkind).1, fun c' pc hget => ?_⟩
    rw [State.goto, Dict.get?_set] at hget
    split_ifs at hget
    · exact ⟨result, (Option.some.inj hget).symm⟩
    · exact (h.configured hkind).2 c' pc hget

theorem Inv.wait (h : Inv unicode settings s) (c : Nat) (hkind : settings.dbPoolerKind = none) :
    Inv unicode settings (s.goto c .waiting) := by
  refine ⟨h.exclusive.outside rfl, h.cache, h.cacheAt, ?_, h.ordered, h.spaced,
    fun hne => absurd hkind hne⟩
  intro c' started dbs hget
  rw [State.goto, Dict.get?_set] at hget
  split_ifs at hget
  · simp at hget
  · exact h.probing c' started dbs hget

/-- The cached result, if it is fresh, is that of the last round. -/
theorem Inv.fresh_eq_some (h : Inv unicode settings s) {result : PoolerDetectionResult} :
    s.fresh = some result ↔ ∃ round, s.rounds.head? = some round ∧
      s.clock < round.completed + POOLER_CACHE_TTL_SECONDS ∧
      result = probedDetection unicode round.versionText := by
  unfold State.fresh
  rw [h.cache]
  cases hlast : s.rounds.head? with
  | none => simp
  | some round =>
      have hat := h.cacheAt round hlast
      simp only [Option.map_some, Option.filter_eq_some_iff, Option.some.injEq,
        decide_eq_true_eq, hat, exists_eq_left', sub_lt_iff_lt_add']
      constructor
      · rintro ⟨rfl, hlt⟩
        exact ⟨hlt, rfl⟩
      · rintro ⟨hlt, rfl⟩
        exact ⟨rfl, hlt⟩

/-- A round starts when there is none before it, or that has expired. -/
theorem Inv.enter (h : Inv unicode settings s) {c : Nat} (hlock : s.poolerLock = none)
    (hfresh : s.fresh = none) (hkind : settings.dbPoolerKind = none) :
    Inv unicode settings ((s.lock c).goto c (.probing s.clock adminDbs)) := by
  have hlast : ∀ round, s.rounds.head? = some round →
      round.completed + POOLER_CACHE_TTL_SECONDS ≤ s.clock := by
    intro round hlast
    by_contra hlt
    rw [h.fresh_eq_some.mpr ⟨round, hlast, not_le.mp hlt, rfl⟩] at hfresh
    exact absurd hfresh (by simp)
  have hexpired : ∀ round ∈ s.rounds, round.completed + POOLER_CACHE_TTL_SECONDS ≤ s.clock := by
    have hspaced := h.spaced
    have hordered := h.ordered
    cases hrounds : s.rounds with
    | nil => simp
    | cons newest older =>
        rw [hrounds] at hspaced hordered
        obtain ⟨hle, hle'⟩ := hordered newest List.mem_cons_self
        rw [List.forall_mem_cons]
        refine ⟨hlast newest (by rw [hrounds]; rfl), fun round hmem => ?_⟩
        exact ((List.pairwise_cons.mp hspaced).1 round hmem).trans (hle.trans hle')
  refine ⟨h.exclusive.enter (.inl hlock), h.cache, h.cacheAt, ?_, h.ordered, h.spaced,
    fun hne => absurd hkind hne⟩
  intro c' started dbs hget
  rw [State.goto, Dict.get?_set] at hget
  split_ifs at hget
  · obtain ⟨rfl, -⟩ := Pc.probing.inj (Option.some.inj hget)
    exact ⟨le_rfl, hexpired⟩
  · exact h.probing c' started dbs hget

section
variable {c : Nat} {started : Time} {dbs : List Str}

/-- The round is not configured away. -/
theorem Inv.dbPoolerKind_eq_none (h : Inv unicode settings s)
    (hget : s.calls.get? c = some (.probing started dbs)) : settings.dbPoolerKind = none := by
  by_contra hne
  obtain ⟨result, hpc⟩ := (h.configured hne).2 c _ hget
  exact absurd hpc (by simp)

theorem Inv.dbPoolerKind_of_waiting (h : Inv unicode settings s)
    (hget : s.calls.get? c = some .waiting) : settings.dbPoolerKind = none := by
  by_contra hne
  obtain ⟨result, hpc⟩ := (h.configured hne).2 c _ hget
  exact absurd hpc (by simp)

/-- The next console is asked. -/
theorem Inv.next (h : Inv unicode settings s)
    (hget : s.calls.get? c = some (.probing started dbs)) (rest : List Str) :
    Inv unicode settings (s.goto c (.probing started rest)) := by
  have hlock := h.exclusive c _ hget rfl
  refine ⟨?_, h.cache, h.cacheAt, ?_, h.ordered, h.spaced,
    fun hne => absurd (h.dbPoolerKind_eq_none hget) hne⟩
  · have hstays : Exclusive Pc.inside (some c) (s.calls.set c (.probing started rest)) :=
      h.exclusive.enter (.inr hlock)
    rwa [← hlock] at hstays
  · intro c' started' dbs' hget'
    rw [State.goto, Dict.get?_set] at hget'
    split_ifs at hget'
    · obtain ⟨rfl, -⟩ := Pc.probing.inj (Option.some.inj hget')
      exact h.probing c started dbs hget
    · exact h.probing c' started' dbs' hget'

/-- The holder of the lock is done: then no call is in a round. -/
theorem Inv.not_probing (h : Inv unicode settings s)
    (hget : s.calls.get? c = some (.probing started dbs))
    {result : Option PoolerDetectionResult} {c' : Nat} {started' : Time} {dbs' : List Str} :
    (s.calls.set c (.finished result)).get? c' ≠ some (.probing started' dbs') := by
  intro hget'
  rw [Dict.get?_set] at hget'
  split_ifs at hget' with heq
  · simp at hget'
  · exact heq (h.exclusive.eq_of_inside hget rfl hget' rfl)

theorem Inv.cancel (h : Inv unicode settings s)
    (hget : s.calls.get? c = some (.probing started dbs)) :
    Inv unicode settings (s.release.goto c (.finished none)) :=
  ⟨h.exclusive.leave hget rfl rfl none, h.cache, h.cacheAt,
    fun _ _ _ hget' => absurd hget' (h.not_probing hget), h.ordered, h.spaced,
    fun hne => absurd (h.dbPoolerKind_eq_none hget) hne⟩

/-- A round is complete, and it is the last one. -/
theorem Inv.complete (h : Inv unicode settings s)
    (hget : s.calls.get? c = some (.probing started dbs)) (text : Option Str)
    (result : Option PoolerDetectionResult) :
    Inv unicode settings ((s.store unicode started text).release.goto c (.finished result)) := by
  obtain ⟨hle, hexpired⟩ := h.probing c started dbs hget
  refine ⟨h.exclusive.leave hget rfl rfl none, rfl, ?_,
    fun _ _ _ hget' => absurd hget' (h.not_probing hget), ?_, ?_,
    fun hne => absurd (h.dbPoolerKind_eq_none hget) hne⟩
  · intro round hlast
    rw [← Option.some.inj hlast]
    rfl
  · intro round hmem
    rcases List.mem_cons.mp hmem with rfl | hmem
    · exact ⟨hle, le_rfl⟩
    · exact h.ordered round hmem
  · exact List.pairwise_cons.mpr ⟨hexpired, h.spaced⟩

end

/-- **A step keeps the invariant.** -/
theorem inv_step {t : State} {a : Action} (hs : Inv unicode settings s)
    (h : step unicode settings s a = some t) : Inv unicode settings t := by
  cases a with
  | call c now =>
      simp only [step] at h
      split_ifs at h
      obtain ⟨u, hu, rfl⟩ := Option.map_eq_some_iff.mp h
      have hu := hs.read hu
      split
      · exact hu.finish c _
      · exact hu.finish c _
      · exact hu.wait c ‹_›
  | acquire c now =>
      simp only [step] at h
      split_ifs at h with hc
      obtain ⟨u, hu, rfl⟩ := Option.map_eq_some_iff.mp h
      have hkind := hs.dbPoolerKind_of_waiting hc.1
      have hlock : u.poolerLock = none := by
        rw [(State.read_eq_some hu).2]
        exact hc.2
      have hu := hs.read hu
      split
      · exact hu.finish c _
      · exact hu.enter hlock ‹_› hkind
  | answer c versionText now =>
      simp only [step] at h
      split at h
      · next started db rest hget =>
        obtain ⟨u, hu, rfl⟩ := Option.map_eq_some_iff.mp h
        have hgetu : u.calls.get? c = some (.probing started (db :: rest)) := by
          rw [(State.read_eq_some hu).2]
          exact hget
        have hu := hs.read hu
        unfold State.heard
        split
        · exact hu.next hgetu _
        · exact hu.complete hgetu _ _
      · exact absurd h (by simp)
  | cancel c =>
      simp only [step] at h
      split at h
      · rw [← Option.some.inj h]
        exact hs.finish c none
      · rw [← Option.some.inj h]
        exact hs.cancel ‹_›
      · exact absurd h (by simp)

theorem inv_run {clock : Time} {actions : List Action}
    (h : run (step unicode settings) (State.initial clock) actions = some s) :
    Inv unicode settings s :=
  run_invariant (fun _ _ _ hs hst => inv_step hs hst) (inv_initial clock) h

/-! ## Rounds -/

/-- A replica, and the automatic mode. -/
def exampleSettings : Settings := ⟨none, some "replica".toList, .auto⟩

/-- Three calls and two rounds, the second one after the first expired. -/
def exampleActions : List Action :=
  [.call 1 0, .call 2 0, .acquire 1 0, .answer 1 (some "PgBouncer 1.21".toList) (seconds 1),
    .acquire 2 (seconds 2), .call 3 (seconds 301), .acquire 3 (seconds 301),
    .answer 3 none (seconds 302)]

/-- What the answers of a call are worth. -/
theorem finished_step {t : State} {a : Action} (hs : Inv unicode settings s)
    (h : step unicode settings s a = some t) {c : Nat} {result : PoolerDetectionResult}
    (hbefore : s.calls.get? c ≠ some (.finished (some result)))
    (hafter : t.calls.get? c = some (.finished (some result))) :
    (∃ kind, settings.dbPoolerKind = some kind ∧ result = configuredDetection kind) ∨
    (settings.dbPoolerKind = none ∧ ∃ round, t.rounds.head? = some round ∧
      t.clock < round.completed + POOLER_CACHE_TTL_SECONDS ∧
      result = probedDetection unicode round.versionText) := by
  -- the call that moves is the one that ends
  have hmoved : ∀ (u : State) c' pc, u.calls = s.calls → t.calls = u.calls.set c' pc →
      pc = .finished (some result) := by
    intro u c' pc hu hcalls
    rw [hcalls, hu, Dict.get?_set] at hafter
    split_ifs at hafter
    · exact Option.some.inj hafter
    · exact absurd hafter hbefore
  cases a with
  | call c' now =>
      simp only [step] at h
      split_ifs at h
      obtain ⟨u, hu, ht⟩ := Option.map_eq_some_iff.mp h
      have hcalls : u.calls = s.calls := by rw [(State.read_eq_some hu).2]
      have hinv := hs.read hu
      split at ht
      · next _ kind hkind =>
        subst ht
        have hpc := hmoved u c' _ hcalls rfl
        exact .inl ⟨kind, hkind, (Option.some.inj (Pc.finished.inj hpc)).symm⟩
      · next cached hkind hfresh =>
        subst ht
        have hpc := hmoved u c' _ hcalls rfl
        obtain rfl := Option.some.inj (Pc.finished.inj hpc)
        exact .inr ⟨hkind, hinv.fresh_eq_some.mp hfresh⟩
      · subst ht
        exact absurd (hmoved u c' _ hcalls rfl) (by simp)
  | acquire c' now =>
      simp only [step] at h
      split_ifs at h with hc
      obtain ⟨u, hu, ht⟩ := Option.map_eq_some_iff.mp h
      have hcalls : u.calls = s.calls := by rw [(State.read_eq_some hu).2]
      have hinv := hs.read hu
      have hkind := hs.dbPoolerKind_of_waiting hc.1
      split at ht
      · next cached hfresh =>
        subst ht
        have hpc := hmoved u c' _ hcalls rfl
        obtain rfl := Option.some.inj (Pc.finished.inj hpc)
        exact .inr ⟨hkind, hinv.fresh_eq_some.mp hfresh⟩
      · subst ht
        exact absurd (hmoved (u.lock c') c' _ hcalls rfl) (by simp)
  | answer c' versionText now =>
      simp only [step] at h
      split at h
      · next started db rest hget =>
        obtain ⟨u, hu, ht⟩ := Option.map_eq_some_iff.mp h
        have hcalls : u.calls = s.calls := by rw [(State.read_eq_some hu).2]
        unfold State.heard at ht
        split at ht
        · subst ht
          exact absurd (hmoved u c' _ hcalls rfl) (by simp)
        · subst ht
          have hpc := hmoved (u.store unicode started _).release c' _ hcalls rfl
          obtain rfl := Option.some.inj (Pc.finished.inj hpc)
          refine .inr ⟨hs.dbPoolerKind_eq_none hget, ⟨started, u.clock, _⟩, rfl, ?_, rfl⟩
          exact lt_add_of_pos_right u.clock (by decide)
      · exact absurd h (by simp)
  | cancel c' =>
      simp only [step] at h
      split at h
      · obtain rfl := Option.some.inj h
        exact absurd (hmoved s c' _ rfl rfl) (by simp)
      · obtain rfl := Option.some.inj h
        exact absurd (hmoved s.release c' _ rfl rfl) (by simp)
      · exact absurd h (by simp)

/-- **Where a read goes.** In every run, a call that ends sends its session to the read-only
    database exactly if there is one and the mode is `on`, or it is `auto` and the settings name a
    pooler or, when they name none, a console answered in the last complete round, which has not
    expired. -/
theorem reads_routed (unicode : Unicode) (settings : Settings) (clock : Time)
    (actions : List Action) {s t : State} {a : Action}
    (hrun : run (step unicode settings) (State.initial clock) actions = some s)
    (hstep : step unicode settings s a = some t) {c : Nat} {result : PoolerDetectionResult}
    (hbefore : s.calls.get? c ≠ some (.finished (some result)))
    (hafter : t.calls.get? c = some (.finished (some result))) :
    readsFromReadOnly settings result = true ↔
      settings.databaseReadOnlyUrl.getD [] ≠ [] ∧
      (settings.dbReadRouting = .on ∨ settings.dbReadRouting = .auto ∧
        ((∃ kind, settings.dbPoolerKind = some kind ∧ kind ≠ .none) ∨
          (settings.dbPoolerKind = none ∧ ∃ round, t.rounds.head? = some round ∧
            t.clock < round.completed + POOLER_CACHE_TTL_SECONDS ∧ round.versionText ≠ none))) := by
  have hdetected : result.detected = true ↔
      (∃ kind, settings.dbPoolerKind = some kind ∧ kind ≠ .none) ∨
        (settings.dbPoolerKind = none ∧ ∃ round, t.rounds.head? = some round ∧
          t.clock < round.completed + POOLER_CACHE_TTL_SECONDS ∧ round.versionText ≠ none) := by
    rcases finished_step (inv_run hrun) hstep hbefore hafter with
      ⟨kind, hkind, rfl⟩ | ⟨hkind, round, hlast, hlt, rfl⟩
    · simp [hkind, configuredDetection]
    · have hround : (probedDetection unicode round.versionText).detected = true ↔
          round.versionText ≠ none := by
        cases round.versionText <;> simp [probedDetection]
      simp [hkind, hlast, hlt, hround]
  rw [← hdetected]
  unfold readsFromReadOnly shouldRouteReadsToReadOnly
  by_cases hurl : settings.databaseReadOnlyUrl.getD [] = []
  · simp [hurl]
  · cases hmode : settings.dbReadRouting <;> simp [hurl]

/-- The second console answers the third call, whose read goes to the read-only database. -/
theorem reads_routed_example :
    ∃ s t, run (step asciiUnicode exampleSettings) (State.initial 0) exampleActions = some s ∧
      step asciiUnicode exampleSettings s
        (.answer 3 (some "PgCat 1.0".toList) (seconds 303)) = some t ∧
      (readsFromReadOnly exampleSettings ⟨.pgcat, true, some "PgCat 1.0".toList⟩ = true ↔
        exampleSettings.databaseReadOnlyUrl.getD [] ≠ [] ∧
        (exampleSettings.dbReadRouting = .on ∨ exampleSettings.dbReadRouting = .auto ∧
          ((∃ kind, exampleSettings.dbPoolerKind = some kind ∧ kind ≠ .none) ∨
            (exampleSettings.dbPoolerKind = none ∧ ∃ round, t.rounds.head? = some round ∧
              t.clock < round.completed + POOLER_CACHE_TTL_SECONDS ∧
              round.versionText ≠ none)))) :=
  ⟨_, _, rfl, rfl, reads_routed asciiUnicode exampleSettings 0 exampleActions rfl
    (a := .answer 3 (some "PgCat 1.0".toList) (seconds 303)) rfl (c := 3) (by decide) rfl⟩

end

end PgErdCloud.Routing
