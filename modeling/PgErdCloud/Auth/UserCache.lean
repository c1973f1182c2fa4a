/-
  The in-process cache of users (`_ensure_user` and `get_current_user` of app/auth.py), any
  number of requests of one process on one database.

  A request is one transaction: it looks the subject up in the cache, selects the row, inserts
  it on a first login, fills the cache and commits. What runs between two awaits is one step;
  an insert waits while another transaction has inserted the subject or the uuid. A request may
  fail at every await and at the commit, and is rolled back then. Rows are also committed from
  outside (other processes, invitations), and none is deleted. The clock does not go back.

  `coherent_iff` is about every run: the cache agrees with the table in all its states exactly
  when no step of it fills the cache from a transaction that is not committed yet.
-/
import PgErdCloud.Lib.Machine
import PgErdCloud.Lib.Reservation
import PgErdCloud.Api.Store
import PgErdCloud.Auth.Tokens

namespace PgErdCloud.Auth

open Lib
open Api (Uuid)

namespace UserCache

/-- How many users are remembered at most. -/
def USER_CACHE_MAX_SIZE : Nat := 1000
/-- How long a user is remembered. -/
def USER_CACHE_TTL : Time := seconds (5 * 60)

/-! ## State -/

/-- Who a request is made for. -/
structure CurrentUser where
  userAccountUuid : Uuid
  subject : String
  displayName : Option String
  deriving DecidableEq

/-- A row of `user_account`; its `oidc_subject` is unique and the key of the table. -/
structure UserAccount where
  userAccountUuid : Uuid
  displayName : Option String
  createdAt : Time
  deriving DecidableEq

/-- Where a request is; `now` is the clock reading at its start. -/
inductive Pc
  | selecting (subject : String) (displayName : Option String) (now : Time)
  /-- No row has the subject. -/
  | flushing (subject : String) (displayName : Option String) (now : Time)
  /-- At the commit, with the row that was inserted. -/
  | committing (user : CurrentUser) (inserted : Option UserAccount)
  | finished (result : Option CurrentUser)

/-- The subject that a transaction has inserted and not committed. -/
def Pc.pendingSubject : Pc → Option String
  | .committing user (some _) => some user.subject
  | _ => none

/-- `now` is the clock, `users` what is committed. -/
structure State where
  now : Time
  users : Dict String UserAccount
  cache : Dict String (CurrentUser × Time)
  requests : Dict Nat Pc

/-- A process that starts. -/
def State.initial (now : Time) (users : Dict String UserAccount) : State :=
  ⟨now, users, .empty, .empty⟩

/-- A request comes to another place. -/
def State.goto (s : State) (r : Nat) (pc : Pc) : State :=
  { s with requests := s.requests.set r pc }

/-- `_user_cache[subject] = (user, now + USER_CACHE_TTL)`, after the check of the size -/
def State.remember (s : State) (user : CurrentUser) (now : Time) : State :=
  let cache := if s.cache.keys.length ≥ USER_CACHE_MAX_SIZE then .empty else s.cache
  { s with cache := cache.set user.subject (user, now + USER_CACHE_TTL) }

/-- A transaction has inserted the subject or the uuid and not committed. -/
def Pc.holds (subject : String) (userAccountUuid : Uuid) : Pc → Bool
  | .committing user (some _) =>
      user.subject = subject || user.userAccountUuid = userAccountUuid
  | _ => false

/-- The subject or the uuid has a committed row. -/
def State.taken (s : State) (subject : String) (userAccountUuid : Uuid) : Bool :=
  decide (subject ∈ s.users.keys) ||
    s.users.values.any fun account => account.userAccountUuid = userAccountUuid

/-! ## Steps -/

/-- `_ensure_user` up to its first await. -/
def login (s : State) (r : Nat) (subject : String) (displayName : Option String) : State :=
  match s.cache.get? subject with
  | some (user, expiresAt) =>
      if s.now < expiresAt then s.goto r (.committing user none)
      else
        { s with cache := s.cache.filter fun key _ => key ≠ subject }.goto r
          (.selecting subject displayName s.now)
  | none => s.goto r (.selecting subject displayName s.now)

/-- The next part of request `r`, with the result of `uuid.uuid4()`; `none` while it waits. -/
def statement (s : State) (r : Nat) (fresh : Uuid) : Pc → Option State
  | .selecting subject displayName now =>
      match s.users.get? subject with
      | some existing =>
          let user := ⟨existing.userAccountUuid, subject, existing.displayName⟩
          some ((s.remember user now).goto r (.committing user none))
      | none => some (s.goto r (.flushing subject displayName now))
  | .flushing subject displayName now =>
      if blocked s.requests r (Pc.holds subject fresh) then none
      else if s.taken subject fresh then some (s.goto r (.finished none))
      else
        let user := ⟨fresh, subject, displayName⟩
        some ((s.remember user now).goto r (.committing user (some ⟨fresh, displayName, now⟩)))
  | .committing user inserted =>
      let users := match inserted with
        | some account => s.users.set user.subject account
        | none => s.users
      some ({ s with users := users }.goto r (.finished (some user)))
  | .finished _ => none

/-- What can happen next: a login begins, one under way goes a step further or breaks off, or the
    table changes from outside. -/
inductive Action
  | login (r : Nat) (subject : String) (displayName : Option String)
  | next (r : Nat) (fresh : Uuid)
  /-- An error, a failing commit or a cancellation; the transaction is rolled back. -/
  | abort (r : Nat)
  /-- A row is committed from outside. -/
  | addUser (subject : String) (account : UserAccount)
  | tick (now : Time)

/-- One step of one request, or of the world outside. -/
def step (s : State) : Action → Option State
  | .login r subject displayName =>
      if r ∈ s.requests.keys then none else some (login s r subject displayName)
  | .next r fresh => (s.requests.get? r).bind (statement s r fresh)
  | .abort r =>
      match s.requests.get? r with
      | none | some (.finished _) => none
      | some _ => some (s.goto r (.finished none))
  | .addUser subject account =>
      if s.taken subject account.userAccountUuid ∨
          s.requests.values.any (Pc.holds subject account.userAccountUuid) then none
      else some { s with users := s.users.set subject account }
  | .tick now => if now < s.now then none else some { s with now := now }

/-! ## Coherence -/

/-- The row of the user is committed. -/
def Committed (s : State) (user : CurrentUser) : Prop :=
  ∃ account, s.users.get? user.subject = some account ∧
    account.userAccountUuid = user.userAccountUuid

/-- Unexpired entries of the cache refer to committed rows. -/
def Coherent (s : State) : Prop :=
  ∀ subject user expiresAt, s.cache.get? subject = some (user, expiresAt) →
    s.now < expiresAt → user.subject = subject ∧ Committed s user

/-- The step inserts a user and puts it into the cache with an expiry in the future. -/
def cachesUncommitted (s : State) : Action → Bool
  | .next r fresh =>
      match s.requests.get? r with
      | some (.flushing subject _ now) =>
          !s.taken subject fresh && decide (s.now < now + USER_CACHE_TTL)
      | _ => false
  | _ => false

/-! ## What steps keep -/

/-- The subjects of open inserts are reserved. -/
def Pending (s : State) : Prop := Reserved s.requests Pc.pendingSubject s.users

/-- Each entry of `t` was there before, and rows are kept. -/
theorem Coherent.mono {s t : State} (h : Coherent s)
    (hcache : ∀ subject entry, t.cache.get? subject = some entry →
      s.cache.get? subject = some entry)
    (husers : ∀ subject account, s.users.get? subject = some account →
      t.users.get? subject = some account)
    (hnow : s.now ≤ t.now) : Coherent t := by
  intro subject user expiresAt hget hlt
  obtain ⟨hsubject, account, haccount, huuid⟩ :=
    h subject user expiresAt (hcache _ _ hget) (Int.lt_of_le_of_lt hnow hlt)
  exact ⟨hsubject, account, husers _ _ haccount, huuid⟩

/-- A new entry has to be expired already, or to refer to a committed row. -/
theorem Coherent.remember {s : State} (h : Coherent s) {user : CurrentUser} {now : Time}
    (hnew : s.now < now + USER_CACHE_TTL → Committed s user) :
    Coherent (s.remember user now) := by
  intro subject other expiresAt hget hlt
  unfold State.remember at hget
  rw [Dict.get?_set] at hget
  split_ifs at hget with hsubject hsize
  · obtain ⟨rfl, rfl⟩ := Prod.mk.inj (Option.some.inj hget)
    exact ⟨hsubject.symm, hnew hlt⟩
  · exact absurd hget (by simp)
  · exact h subject other expiresAt hget hlt

theorem get?_users_set {users : Dict String UserAccount} {subject : String}
    (account : UserAccount) (hfree : subject ∉ users.keys) (other : String)
    (row : UserAccount) (hget : users.get? other = some row) :
    (users.set subject account).get? other = some row := by
  have hne : other ≠ subject := by
    rintro rfl
    exact hfree (Dict.mem_keys_iff.mpr ⟨_, hget⟩)
  exact (Dict.get?_set_ne _ _ hne).trans hget

theorem not_mem_keys_of_not_taken {s : State} {subject : String} {fresh : Uuid}
    (h : s.taken subject fresh = false) : subject ∉ s.users.keys :=
  of_decide_eq_false (Bool.or_eq_false_iff.mp h).1

theorem holds_of_pendingSubject {pc : Pc} {subject : String} (fresh : Uuid)
    (h : pc.pendingSubject = some subject) : pc.holds subject fresh = true := by
  unfold Pc.pendingSubject at h
  split at h
  · obtain rfl := Option.some.inj h
    simp [Pc.holds]
  · exact absurd h (by simp)

/-- An insert that does not wait meets no open insert of the subject. -/
theorem not_pending_of_not_blocked {requests : Dict Nat Pc} {r : Nat} {subject : String}
    {fresh : Uuid} (h : blocked requests r (Pc.holds subject fresh) = false) :
    blocked requests r (fun pc => pc.pendingSubject = some subject) = false := by
  unfold blocked at h ⊢
  rw [List.any_eq_false] at h ⊢
  intro e he hp
  refine h e he ?_
  rw [Bool.and_eq_true] at hp ⊢
  exact ⟨hp.1, holds_of_pendingSubject fresh (of_decide_eq_true hp.2)⟩

/-! ## Steps -/

theorem coherent_login {s : State} (h : Coherent s) (r : Nat) (subject : String)
    (displayName : Option String) : Coherent (login s r subject displayName) := by
  unfold login
  split
  · split
    · exact h
    · refine h.mono ?_ (fun _ _ hget => hget) (Int.le_refl _)
      intro other entry hget
      change (s.cache.filter _).get? other = some entry at hget
      rw [Dict.get?_filter] at hget
      exact (Option.filter_eq_some_iff.mp hget).1
  · exact h

theorem pending_login {s : State} (h : Pending s) (r : Nat) (subject : String)
    (displayName : Option String) : Pending (login s r subject displayName) := by
  unfold login
  split
  · split
    · exact h.release r rfl
    · exact h.release r rfl
  · exact h.release r rfl

theorem mem_keys_users_set {users : Dict String UserAccount} {subject other : String}
    {account : UserAccount} (h : other ∈ (users.set subject account).keys) :
    other ∈ users.keys ∨ other = subject := by
  rw [Dict.mem_keys_iff] at h ⊢
  rw [Dict.get?_set] at h
  split_ifs at h with hsubject
  · exact .inr hsubject
  · exact .inl h

/-- What the next part of a request keeps. -/
theorem statement_keeps {s t : State} {r : Nat} {fresh : Uuid} {pc : Pc} (h : Pending s)
    (hget : s.requests.get? r = some pc) (ht : statement s r fresh pc = some t) :
    Pending t ∧ (Coherent s → cachesUncommitted s (.next r fresh) = false → Coherent t) := by
  cases pc with
  | selecting subject displayName now =>
      simp only [statement] at ht
      split at ht
      · next existing hexisting =>
        obtain rfl := Option.some.inj ht
        have hcommitted : Committed s ⟨existing.userAccountUuid, subject, existing.displayName⟩ :=
          ⟨existing, hexisting, rfl⟩
        exact ⟨h.release r rfl, fun hcoherent _ => hcoherent.remember fun _ => hcommitted⟩
      · obtain rfl := Option.some.inj ht
        exact ⟨h.release r rfl, fun hcoherent _ => hcoherent⟩
  | flushing subject displayName now =>
      simp only [statement] at ht
      split_ifs at ht with hblocked htaken
      · obtain rfl := Option.some.inj ht
        exact ⟨h.release r rfl, fun hcoherent _ => hcoherent⟩
      · obtain rfl := Option.some.inj ht
        have hfree := not_mem_keys_of_not_taken (Bool.eq_false_iff.mpr htaken)
        have hother := not_pending_of_not_blocked (Bool.eq_false_iff.mpr hblocked)
        refine ⟨h.reserve rfl hother hfree, fun hcoherent hp => hcoherent.remember fun hlt => ?_⟩
        have hexpired : ¬ s.now < now + USER_CACHE_TTL := by
          simpa [cachesUncommitted, hget, htaken] using hp
        exact absurd hlt hexpired
  | committing user inserted =>
      cases inserted with
      | none =>
          obtain rfl := Option.some.inj ht
          exact ⟨h.release r rfl, fun hcoherent _ => hcoherent⟩
      | some account =>
          obtain rfl := Option.some.inj ht
          have hfree : user.subject ∉ s.users.keys := h.free r _ _ hget rfl
          constructor
          · refine h.commit hget rfl fun other hother => ?_
            rcases mem_keys_users_set hother with hother | rfl
            · exact .inl hother
            · exact .inr rfl
          · intro hcoherent _
            exact hcoherent.mono (fun _ _ hget => hget) (get?_users_set account hfree)
              (Int.le_refl _)
  | finished result => exact absurd ht (by simp [statement])

/-- What one step keeps. -/
theorem step_keeps {s t : State} {a : Action} (h : Pending s) (ht : step s a = some t) :
    Pending t ∧ (Coherent s → cachesUncommitted s a = false → Coherent t) := by
  cases a with
  | login r subject displayName =>
      simp only [step] at ht
      split_ifs at ht
      obtain rfl := Option.some.inj ht
      exact ⟨pending_login h r subject displayName,
        fun hcoherent _ => coherent_login hcoherent r subject displayName⟩
  | next r fresh =>
      obtain ⟨pc, hget, ht⟩ := Option.bind_eq_some_iff.mp ht
      exact statement_keeps h hget ht
  | abort r =>
      simp only [step] at ht
      split at ht
      · exact absurd ht (by simp)
      · exact absurd ht (by simp)
      · obtain rfl := Option.some.inj ht
        exact ⟨h.release r rfl, fun hcoherent _ => hcoherent⟩
  | addUser subject account =>
      simp only [step] at ht
      split_ifs at ht with hno
      obtain rfl := Option.some.inj ht
      obtain ⟨htaken, hpending⟩ := not_or.mp hno
      have hfree := not_mem_keys_of_not_taken (Bool.eq_false_iff.mpr htaken)
      constructor
      · refine h.insert fun other hother => ?_
        rcases mem_keys_users_set hother with hother | rfl
        · exact .inl hother
        · right
          intro r pc hget hp
          refine hpending (List.any_eq_true.mpr ⟨pc, ?_, holds_of_pendingSubject _ hp⟩)
          exact List.mem_map.mpr ⟨(r, pc), Dict.mem_items_iff.mpr hget, rfl⟩
      · intro hcoherent _
        exact hcoherent.mono (fun _ _ hget => hget) (get?_users_set account hfree)
          (Int.le_refl _)
  | tick now =>
      simp only [step] at ht
      split_ifs at ht with hback
      obtain rfl := Option.some.inj ht
      exact ⟨h, fun hcoherent _ => hcoherent.mono (fun _ _ hget => hget) (fun _ _ hget => hget)
        (Int.not_lt.mp hback)⟩

/-- The inserted user is in the cache, and its row is not committed. -/
theorem not_coherent_of_caches {s t : State} {a : Action} (hp : cachesUncommitted s a = true)
    (ht : step s a = some t) : ¬ Coherent t := by
  unfold cachesUncommitted at hp
  split at hp
  · next r fresh =>
    split at hp
    · next subject displayName now hget =>
      obtain ⟨htaken, hlt⟩ := Bool.and_eq_true_iff.mp hp
      rw [Bool.not_eq_true'] at htaken
      have hlt : s.now < now + USER_CACHE_TTL := of_decide_eq_true hlt
      simp only [step, hget, Option.bind_some, statement, htaken, Bool.false_eq_true,
        ↓reduceIte] at ht
      split_ifs at ht
      obtain rfl := Option.some.inj ht
      intro hcoherent
      obtain ⟨-, account, haccount, -⟩ :=
        hcoherent subject ⟨fresh, subject, displayName⟩ _ (Dict.get?_set_self _ _ _) hlt
      exact not_mem_keys_of_not_taken htaken (Dict.mem_keys_iff.mpr ⟨account, haccount⟩)
    · exact absurd hp (by simp)
  · exact absurd hp (by simp)

/-! ## Runs -/

/-- **The cache is coherent all along a run exactly when no step of it inserts a user that has
    time to be served from the cache.** -/
theorem coherent_iff {now : Time} {users : Dict String UserAccount} {actions : List Action}
    {t : State} (h : run step (.initial now users) actions = some t) :
    (∀ before after u, actions = before ++ after →
      run step (.initial now users) before = some u → Coherent u) ↔
      EveryStep step (fun s a => cachesUncommitted s a = false) (.initial now users) actions := by
  have hcoherent : Coherent (.initial now users) := fun _ _ _ hget =>
    absurd hget (by simp [State.initial])
  refine forall_state_iff_everyStep (fun s a t hs ht => (step_keeps hs ht).1) ?_
    (reserved_empty : Pending (.initial now users)) hcoherent h
  intro s a t hs hc ht
  constructor
  · intro hafter
    cases hp : cachesUncommitted s a with
    | false => rfl
    | true => exact absurd hafter (not_coherent_of_caches hp ht)
  · exact fun hp => (step_keeps hs ht).2 hc hp

/-- A user who is invited, and then logs in twice. -/
def invited : List Action :=
  [.addUser "ada" ⟨7, none, 0⟩, .login 0 "ada" none, .next 0 0, .next 0 0, .tick (seconds 60),
    .login 1 "ada" none, .next 1 0]

theorem coherent_iff_at_invited :
    ∃ t, run step (.initial 0 .empty) invited = some t ∧ t.cache.keys = ["ada"] ∧
      ∀ before after u, invited = before ++ after →
        run step (.initial 0 .empty) before = some u → Coherent u := by
  obtain ⟨t, ht, hkeys⟩ :
      ∃ t, run step (.initial 0 .empty) invited = some t ∧ t.cache.keys = ["ada"] :=
    ⟨_, rfl, rfl⟩
  have hall : EveryStep step (fun s a => (!cachesUncommitted s a) = true) (.initial 0 .empty)
      invited := everyStep_of_checkSteps (by decide)
  refine ⟨t, ht, hkeys, (coherent_iff ht).mpr fun before a after u he hu => ?_⟩
  exact (Bool.not_eq_true' _).mp (hall before a after u he hu)

/-- A first login whose commit fails. -/
def failedLogin : List Action :=
  [.login 0 "ada" none, .next 0 0, .next 0 7, .abort 0, .tick (seconds 60)]

/-- A minute later the cache still has a user that is in no table. -/
theorem not_every_run_coherent :
    ¬ ∀ now users actions s, run step (.initial now users) actions = some s → Coherent s := by
  intro hall
  obtain ⟨s, hs, hcache, husers, hnow⟩ : ∃ s, run step (.initial 0 .empty) failedLogin = some s ∧
      s.cache.get? "ada" = some (⟨7, "ada", none⟩, USER_CACHE_TTL) ∧
      s.users.get? "ada" = none ∧ s.now = seconds 60 := ⟨_, rfl, rfl, rfl, rfl⟩
  obtain ⟨-, account, haccount, -⟩ :=
    hall 0 .empty failedLogin s hs "ada" _ _ hcache (by rw [hnow]; decide)
  rw [husers] at haccount
  exact absurd haccount (by simp)

end UserCache

end PgErdCloud.Auth
