/-
  API keys (app/api/api_keys.py, and `get_current_user` of app/auth.py for a token that starts
  with `pgerd_`), any number of requests on one database. Each statement is a step of its own.

  The table has the hash of a key and not the key. So that a token is accepted can only be told
  from the table up to the hash; who was given the token is told by the responses.

  `api_key_accepted_iff` is about every run and every token: it is accepted for a user exactly
  when it was given to the user and has not been revoked. The one hypothesis is that no secret of
  the run has the hash of another.
-/
import PgErdCloud.Api.Store
import PgErdCloud.Auth.Tokens
import PgErdCloud.Lib.Machine

namespace PgErdCloud.Auth

open Lib Lib.PyStr
open Api (Uuid HttpError internalError)

namespace ApiKeys

/-! ## Tables -/

/-- `API_KEY_PREFIX`: what every secret begins with. -/
def API_KEY_PREFIX : Str := "pgerd_".toList

/-- A row of `user_account`. -/
structure UserAccount where
  oidcSubject : Str
  displayName : Option Str

/-- A row of `api_key`. The table keeps the hash of a secret and its beginning, not the secret. -/
structure ApiKey where
  userAccountUuid : Uuid
  keyName : Str
  keyHash : Str
  keyPrefix : Str
  createdAt : Time
  revokedAt : Option Time

/-- The two tables that the endpoints read and write. -/
structure Db where
  users : Dict Uuid UserAccount
  apiKeys : Dict Uuid ApiKey

/-- What the endpoints show of a key. -/
structure ApiKeyOut where
  apiKeyUuid : Uuid
  keyName : Str
  keyPrefix : Str
  createdAt : Time
  revokedAt : Option Time
  deriving DecidableEq

/-- `_to_out` -/
def toOut (apiKeyUuid : Uuid) (key : ApiKey) : ApiKeyOut :=
  ⟨apiKeyUuid, key.keyName, key.keyPrefix, key.createdAt, key.revokedAt⟩

/-! ## Authentication -/

/-- Who a request is made for. -/
structure CurrentUser where
  userAccountUuid : Uuid
  subject : Str
  displayName : Option Str
  deriving DecidableEq

/-- One answer for a key that is unknown and for one that is revoked. -/
def invalidApiKey : HttpError := ⟨401, "invalid API key".toList⟩

section
variable (hashApiKey : Str → Str)

/-- `row.first()` of the join -/
def Db.keyOfToken (db : Db) (token : Str) : Option (ApiKey × CurrentUser) :=
  db.apiKeys.items.findSome? fun e =>
    if e.2.keyHash = hashApiKey token then
      (db.users.get? e.2.userAccountUuid).map fun user =>
        (e.2, ⟨e.2.userAccountUuid, user.oidcSubject, user.displayName⟩)
    else none

/-- `_user_from_api_key`: the owner of the key that has the hash of this secret. -/
def userFromApiKey (db : Db) (token : Str) : Except HttpError CurrentUser :=
  match db.keyOfToken hashApiKey token with
  | none => .error invalidApiKey
  | some (key, user) => if key.revokedAt ≠ none then .error invalidApiKey else .ok user

/-- `get_current_user`, where `oidcUser` is what the other branch makes of the header. -/
def getCurrentUser (oidcUser : Str → Except HttpError CurrentUser) (db : Db) (authHeader : Str) :
    Except HttpError CurrentUser :=
  if startsWith authHeader ("Bearer ".toList ++ API_KEY_PREFIX) then
    userFromApiKey hashApiKey db (authHeader.drop "Bearer ".toList.length)
  else oidcUser authHeader

end

/-! ## Requests -/

/-- What the three endpoints answer with; only a creation shows the secret. -/
inductive Response
  | created (out : ApiKeyOut) (secret : Str)
  | revoked (out : ApiKeyOut)
  | listed (outs : List ApiKeyOut)
  deriving DecidableEq

/-- Where a request is; with its user, who is authenticated. -/
inductive Pc
  /-- `create_api_key` before it inserts -/
  | creating (user : Uuid) (keyName : Str)
  /-- `revoke_api_key` before it reads the key -/
  | revoking (user apiKeyUuid : Uuid)
  /-- The key is the user's and is not revoked. -/
  | loaded (user apiKeyUuid : Uuid) (key : ApiKey)
  | finished (user : Uuid) (result : Except HttpError Response)

/-- The committed tables, and how far each request has come. -/
structure State where
  db : Db
  requests : Dict Nat Pc

/-- A start with any users. -/
def State.initial (users : Dict Uuid UserAccount) : State := ⟨⟨users, .empty⟩, .empty⟩

/-- A request comes to another place. -/
def State.goto (s : State) (r : Nat) (pc : Pc) : State :=
  { s with requests := s.requests.set r pc }

/-- A key is written and committed. -/
def State.setKey (s : State) (apiKeyUuid : Uuid) (key : ApiKey) : State :=
  { s with db := { s.db with apiKeys := s.db.apiKeys.set apiKeyUuid key } }

/-- What can happen next: a request comes in, or one of those under way goes a step further. -/
inductive Action
  | create (r : Nat) (user : Uuid) (keyName : Str)
  /-- The key is inserted and committed: with its uuid and what `token_urlsafe` returned. -/
  | insert (r : Nat) (fresh : Uuid) (random : Str) (now : Time)
  | revoke (r : Nat) (user apiKeyUuid : Uuid)
  /-- `session.get` -/
  | load (r : Nat)
  /-- `revoked_at` is written and committed. -/
  | update (r : Nat) (now : Time)
  | list (r : Nat) (user : Uuid)
  /-- An error or a cancellation before the commit. -/
  | fail (r : Nat)

/-- `str(sanitize_for_storage(text))` -/
def sanitizeForStorage (text : Str) : Str := text.filter (· ≠ '\x00')

section
variable (hashApiKey : Str → Str)

/-- The row of a new key. -/
def newKey (user : Uuid) (keyName token : Str) (now : Time) : ApiKey where
  userAccountUuid := user
  keyName := sanitizeForStorage keyName
  keyHash := hashApiKey token
  keyPrefix := token.take (API_KEY_PREFIX.length + 6)
  createdAt := now
  revokedAt := none

/-- The insert is refused: the uuid or the hash is taken, or there is no such user. -/
def Db.refuses (db : Db) (user fresh : Uuid) (keyHash : Str) : Bool :=
  decide (fresh ∈ db.apiKeys.keys) || db.apiKeys.values.any (·.keyHash = keyHash) ||
    decide (user ∉ db.users.keys)

/-- `list_api_keys`, the newest first -/
def Db.keysOf (db : Db) (user : Uuid) : List ApiKeyOut :=
  ((db.apiKeys.items.filter fun e => e.2.userAccountUuid = user).map fun e =>
    toOut e.1 e.2).insertionSort fun out out' => out'.createdAt ≤ out.createdAt

/-- One step of one request. It is `none` where the request is not at that step. -/
def step (s : State) : Action → Option State
  | .create r user keyName =>
      if r ∈ s.requests.keys then none else some (s.goto r (.creating user keyName))
  | .revoke r user apiKeyUuid =>
      if r ∈ s.requests.keys then none else some (s.goto r (.revoking user apiKeyUuid))
  | .list r user =>
      if r ∈ s.requests.keys then none
      else some (s.goto r (.finished user (.ok (.listed (s.db.keysOf user)))))
  | .insert r fresh random now =>
      match s.requests.get? r with
      | some (.creating user keyName) =>
          let token := API_KEY_PREFIX ++ random
          let key := newKey hashApiKey user keyName token now
          if s.db.refuses user fresh key.keyHash then
            some (s.goto r (.finished user (.error internalError)))
          else
            some ((s.setKey fresh key).goto r
              (.finished user (.ok (.created (toOut fresh key) token))))
      | _ => none
  | .load r =>
      match s.requests.get? r with
      | some (.revoking user apiKeyUuid) =>
          match s.db.apiKeys.get? apiKeyUuid with
          | none => some (s.goto r (.finished user (.error ⟨404, "api key not found".toList⟩)))
          | some key =>
              if key.userAccountUuid ≠ user then
                some (s.goto r (.finished user (.error ⟨404, "api key not found".toList⟩)))
              else if key.revokedAt ≠ none then
                some (s.goto r (.finished user (.ok (.revoked (toOut apiKeyUuid key)))))
              else some (s.goto r (.loaded user apiKeyUuid key))
      | _ => none
  | .update r now =>
      match s.requests.get? r with
      | some (.loaded user apiKeyUuid key) =>
          match s.db.apiKeys.get? apiKeyUuid with
          | none => some (s.goto r (.finished user (.error internalError)))
          | some row =>
              some ((s.setKey apiKeyUuid { row with revokedAt := some now }).goto r
                (.finished user (.ok (.revoked
                  (toOut apiKeyUuid { key with revokedAt := some now })))))
      | _ => none
  | .fail r =>
      match s.requests.get? r with
      | some (.creating user _) | some (.revoking user _) | some (.loaded user _ _) =>
          some (s.goto r (.finished user (.error internalError)))
      | _ => none

end

/-! ## Responses -/

namespace State

variable {s : State} {r : Nat} {pc : Pc}

/-- A response gave the user the secret. -/
def Gave (s : State) (user : Uuid) (out : ApiKeyOut) (secret : Str) : Prop :=
  ∃ r, s.requests.get? r = some (.finished user (.ok (.created out secret)))

/-- A response told the user that the key is revoked. -/
def RevokedFor (s : State) (user apiKeyUuid : Uuid) : Prop :=
  ∃ r out, s.requests.get? r = some (.finished user (.ok (.revoked out))) ∧
    out.apiKeyUuid = apiKeyUuid

/-- The request has no response. -/
def Pending (s : State) (r : Nat) : Prop :=
  ∀ user result, s.requests.get? r ≠ some (.finished user result)

theorem gave_goto (hr : s.Pending r) {user : Uuid} {out : ApiKeyOut} {secret : Str} :
    (s.goto r pc).Gave user out secret ↔
      pc = .finished user (.ok (.created out secret)) ∨ s.Gave user out secret := by
  constructor
  · rintro ⟨r', h⟩
    rw [goto, Dict.get?_set] at h
    split_ifs at h
    · exact .inl (Option.some.inj h)
    · exact .inr ⟨r', h⟩
  · rintro (rfl | ⟨r', h⟩)
    · exact ⟨r, Dict.get?_set_self _ _ _⟩
    · refine ⟨r', ?_⟩
      rwa [goto, Dict.get?_set_ne]
      rintro rfl
      exact hr _ _ h

theorem revokedFor_goto (hr : s.Pending r) {user k : Uuid} :
    (s.goto r pc).RevokedFor user k ↔
      (∃ out, pc = .finished user (.ok (.revoked out)) ∧ out.apiKeyUuid = k) ∨
        s.RevokedFor user k := by
  constructor
  · rintro ⟨r', out, h, hk⟩
    rw [goto, Dict.get?_set] at h
    split_ifs at h
    · exact .inl ⟨out, Option.some.inj h, hk⟩
    · exact .inr ⟨r', out, h, hk⟩
  · rintro (⟨out, rfl, hk⟩ | ⟨r', out, h, hk⟩)
    · exact ⟨r, out, Dict.get?_set_self _ _ _, hk⟩
    · refine ⟨r', out, ?_, hk⟩
      rwa [goto, Dict.get?_set_ne]
      rintro rfl
      exact hr _ _ h

theorem get?_goto {r' : Nat} {pc' : Pc} (h : (s.goto r pc).requests.get? r' = some pc') :
    pc = pc' ∨ s.requests.get? r' = some pc' := by
  rw [goto, Dict.get?_set] at h
  split_ifs at h
  · exact .inl (Option.some.inj h)
  · exact .inr h

end State

/-! ## The invariant -/

/-- The rows are those of the responses, and no two have the hash of one token. -/
structure Inv (hashApiKey : Str → Str) (s : State) : Prop where
  user : ∀ k key, s.db.apiKeys.get? k = some key → key.userAccountUuid ∈ s.db.users.keys
  given : ∀ k key, s.db.apiKeys.get? k = some key → ∃ out secret,
    s.Gave key.userAccountUuid out secret ∧ out.apiKeyUuid = k ∧ key.keyHash = hashApiKey secret
  row : ∀ user out secret, s.Gave user out secret → ∃ key,
    s.db.apiKeys.get? out.apiKeyUuid = some key ∧ key.userAccountUuid = user ∧
      key.keyHash = hashApiKey secret
  revoked : ∀ k key, s.db.apiKeys.get? k = some key →
    (key.revokedAt ≠ none ↔ ∃ user, s.RevokedFor user k)
  owned : ∀ user k, s.RevokedFor user k → ∃ key, s.db.apiKeys.get? k = some key ∧
    key.userAccountUuid = user
  loaded : ∀ r user k key, s.requests.get? r = some (.loaded user k key) →
    ∃ row, s.db.apiKeys.get? k = some row ∧ row.userAccountUuid = user
  hashes : ∀ k k' key key', s.db.apiKeys.get? k = some key → s.db.apiKeys.get? k' = some key' →
    key.keyHash = key'.keyHash → k = k'

section
variable {hashApiKey : Str → Str} {s : State} {r : Nat}

theorem inv_initial (users : Dict Uuid UserAccount) :
    Inv hashApiKey (State.initial users) := by
  constructor <;> simp [State.initial, State.Gave, State.RevokedFor]

/-- A request goes on and writes no key. -/
theorem Inv.goto (h : Inv hashApiKey s) (hr : s.Pending r) {pc : Pc}
    (hcreated : ∀ user out secret, pc ≠ .finished user (.ok (.created out secret)))
    (hrevoked : ∀ user out, pc = .finished user (.ok (.revoked out)) → ∃ key,
      s.db.apiKeys.get? out.apiKeyUuid = some key ∧ key.userAccountUuid = user ∧
        key.revokedAt ≠ none)
    (hloaded : ∀ user k key, pc = .loaded user k key → ∃ row,
      s.db.apiKeys.get? k = some row ∧ row.userAccountUuid = user) :
    Inv hashApiKey (s.goto r pc) := by
  refine ⟨h.user, ?_, ?_, ?_, ?_, ?_, h.hashes⟩
  · intro k key hk
    obtain ⟨out, secret, hgave, hout⟩ := h.given k key hk
    exact ⟨out, secret, (State.gave_goto hr).mpr (.inr hgave), hout⟩
  · intro user out secret hgave
    rcases (State.gave_goto hr).mp hgave with hpc | hgave
    · exact absurd hpc (hcreated user out secret)
    · exact h.row user out secret hgave
  · intro k key hk
    rw [h.revoked k key hk]
    constructor
    · rintro ⟨user, hrev⟩
      exact ⟨user, (State.revokedFor_goto hr).mpr (.inr hrev)⟩
    · rintro ⟨user, hrev⟩
      rcases (State.revokedFor_goto hr).mp hrev with ⟨out, hpc, rfl⟩ | hrev
      · obtain ⟨key', hk', -, hne⟩ := hrevoked user out hpc
        exact (h.revoked _ key' hk').mp hne
      · exact ⟨user, hrev⟩
  · intro user k hrev
    rcases (State.revokedFor_goto hr).mp hrev with ⟨out, hpc, rfl⟩ | hrev
    · obtain ⟨key, hk, huser, -⟩ := hrevoked user out hpc
      exact ⟨key, hk, huser⟩
    · exact h.owned user k hrev
  · intro r' user k key hget
    rcases State.get?_goto hget with hpc | hget
    · exact hloaded user k key hpc
    · exact h.loaded r' user k key hget

/-- A key is inserted. -/
theorem Inv.insert (h : Inv hashApiKey s) (hr : s.Pending r) {user fresh : Uuid}
    {keyName token : Str} {now : Time}
    (hok : s.db.refuses user fresh (hashApiKey token) = false) :
    Inv hashApiKey ((s.setKey fresh (newKey hashApiKey user keyName token now)).goto r
      (.finished user (.ok (.created (toOut fresh (newKey hashApiKey user keyName token now))
        token)))) := by
  obtain ⟨⟨hfresh, hhash⟩, huser⟩ : (fresh ∉ s.db.apiKeys.keys ∧
      ∀ key ∈ s.db.apiKeys.values, key.keyHash ≠ hashApiKey token) ∧ user ∈ s.db.users.keys := by
    simpa [Db.refuses] using hok
  have hvalue : ∀ k key, s.db.apiKeys.get? k = some key → key.keyHash ≠ hashApiKey token :=
    fun k key hk => hhash key (List.mem_map_of_mem (Dict.mem_items_iff.mpr hk))
  have hold : ∀ k key, s.db.apiKeys.get? k = some key → k ≠ fresh := by
    rintro k key hk rfl
    exact hfresh (Dict.mem_keys_iff.mpr ⟨key, hk⟩)
  -- a key that is there now is the new one or was there before
  have hget : ∀ k key,
      (s.setKey fresh (newKey hashApiKey user keyName token now)).db.apiKeys.get? k =
      some key ↔ (k = fresh ∧ key = newKey hashApiKey user keyName token now) ∨
        s.db.apiKeys.get? k = some key := by
    intro k key
    rw [State.setKey, Dict.get?_set]
    split_ifs with hk
    · constructor
      · intro he
        exact .inl ⟨hk, (Option.some.inj he).symm⟩
      · rintro (⟨-, rfl⟩ | he)
        · rfl
        · exact absurd hk (hold k key he)
    · simp [hk]
  have hr' : (s.setKey fresh (newKey hashApiKey user keyName token now)).Pending r := hr
  have hrevoked : ∀ v k, ((s.setKey fresh (newKey hashApiKey user keyName token now)).goto r
      (.finished user (.ok (.created (toOut fresh (newKey hashApiKey user keyName token now))
        token)))).RevokedFor v k ↔ s.RevokedFor v k := by
    intro v k
    rw [State.revokedFor_goto hr']
    simp only [Pc.finished.injEq, Except.ok.injEq, reduceCtorEq, and_false, false_and,
      exists_false, false_or]
    exact Iff.rfl
  refine ⟨?_, ?_, ?_, ?_, ?_, ?_, ?_⟩
  · intro k key hk
    rcases (hget k key).mp hk with ⟨-, rfl⟩ | hk
    · exact huser
    · exact h.user k key hk
  · intro k key hk
    rcases (hget k key).mp hk with ⟨rfl, rfl⟩ | hk
    · exact ⟨_, token, (State.gave_goto hr').mpr (.inl rfl), rfl, rfl⟩
    · obtain ⟨out, secret, hgave, hout⟩ := h.given k key hk
      exact ⟨out, secret, (State.gave_goto hr').mpr (.inr hgave), hout⟩
  · intro v out secret hgave
    rcases (State.gave_goto hr').mp hgave with hpc | hgave
    · simp only [Pc.finished.injEq, Except.ok.injEq, Response.created.injEq] at hpc
      obtain ⟨rfl, rfl, rfl⟩ := hpc
      exact ⟨_, (hget _ _).mpr (.inl ⟨rfl, rfl⟩), rfl, rfl⟩
    · obtain ⟨key, hk, hkey⟩ := h.row v out secret hgave
      exact ⟨key, (hget _ _).mpr (.inr hk), hkey⟩
  · intro k key hk
    simp only [hrevoked]
    rcases (hget k key).mp hk with ⟨rfl, rfl⟩ | hk
    · refine ⟨fun hne => absurd rfl hne, ?_⟩
      rintro ⟨v, hrev⟩
      obtain ⟨key, hk', -⟩ := h.owned v k hrev
      exact absurd rfl (hold k key hk')
    · exact h.revoked k key hk
  · intro v k hrev
    obtain ⟨key, hk, hv⟩ := h.owned v k ((hrevoked v k).mp hrev)
    exact ⟨key, (hget _ _).mpr (.inr hk), hv⟩
  · intro r' v k key hget'
    rcases State.get?_goto hget' with hpc | hget'
    · simp at hpc
    · obtain ⟨row, hrow, hv⟩ := h.loaded r' v k key hget'
      exact ⟨row, (hget _ _).mpr (.inr hrow), hv⟩
  · intro k k' key key' hk hk' heq
    rcases (hget k key).mp hk with ⟨rfl, rfl⟩ | hk1 <;>
      rcases (hget k' key').mp hk' with ⟨rfl, rfl⟩ | hk2
    · rfl
    · exact absurd heq.symm (hvalue k' key' hk2)
    · exact absurd heq (hvalue k key hk1)
    · exact h.hashes k k' key key' hk1 hk2 heq

/-- A key is revoked. -/
theorem Inv.update (h : Inv hashApiKey s) (hr : s.Pending r) {user k : Uuid} {row key : ApiKey}
    (hrow : s.db.apiKeys.get? k = some row) (huser : row.userAccountUuid = user) (now : Time) :
    Inv hashApiKey ((s.setKey k { row with revokedAt := some now }).goto r
      (.finished user (.ok (.revoked (toOut k { key with revokedAt := some now }))))) := by
  have hget : ∀ k' key', (s.setKey k { row with revokedAt := some now }).db.apiKeys.get? k' =
      some key' → (k' = k ∧ key' = { row with revokedAt := some now }) ∨
        (k' ≠ k ∧ s.db.apiKeys.get? k' = some key') := by
    intro k' key' hk'
    rw [State.setKey, Dict.get?_set] at hk'
    split_ifs at hk' with he
    · exact .inl ⟨he, (Option.some.inj hk').symm⟩
    · exact .inr ⟨he, hk'⟩
  -- a key that was there is there, with its user and its hash
  have hkeep : ∀ k' key', s.db.apiKeys.get? k' = some key' → ∃ key'',
      (s.setKey k { row with revokedAt := some now }).db.apiKeys.get? k' = some key'' ∧
        key''.userAccountUuid = key'.userAccountUuid ∧ key''.keyHash = key'.keyHash := by
    intro k' key' hk'
    by_cases he : k' = k
    · subst he
      rw [hrow, Option.some.injEq] at hk'
      subst hk'
      exact ⟨_, Dict.get?_set_self _ _ _, rfl, rfl⟩
    · refine ⟨key', ?_, rfl, rfl⟩
      rw [State.setKey, Dict.get?_set_ne _ _ he]
      exact hk'
  have hr' : (s.setKey k { row with revokedAt := some now }).Pending r := hr
  have hgave : ∀ v out secret, ((s.setKey k { row with revokedAt := some now }).goto r
      (.finished user (.ok (.revoked (toOut k { key with revokedAt := some now }))))).Gave
        v out secret ↔ s.Gave v out secret := by
    intro v out secret
    rw [State.gave_goto hr']
    simp only [Pc.finished.injEq, Except.ok.injEq, reduceCtorEq, and_false, false_or]
    exact Iff.rfl
  refine ⟨?_, ?_, ?_, ?_, ?_, ?_, ?_⟩
  · intro k' key' hk'
    rcases hget k' key' hk' with ⟨rfl, rfl⟩ | ⟨-, hk'⟩
    · exact h.user _ row hrow
    · exact h.user k' key' hk'
  · intro k' key' hk'
    simp only [hgave]
    rcases hget k' key' hk' with ⟨rfl, rfl⟩ | ⟨-, hk'⟩
    · exact h.given _ row hrow
    · exact h.given k' key' hk'
  · intro v out secret hgiven
    obtain ⟨key', hk', rfl, hhash⟩ := h.row v out secret ((hgave v out secret).mp hgiven)
    obtain ⟨key'', hk'', huser', hhash'⟩ := hkeep _ key' hk'
    exact ⟨key'', hk'', huser', hhash'.trans hhash⟩
  · intro k' key' hk'
    rcases hget k' key' hk' with ⟨rfl, rfl⟩ | ⟨hne, hk'⟩
    · refine ⟨fun _ => ⟨user, (State.revokedFor_goto hr').mpr (.inl ⟨_, rfl, rfl⟩)⟩,
        fun _ => by simp⟩
    · rw [h.revoked k' key' hk']
      refine exists_congr fun v => ?_
      rw [State.revokedFor_goto hr']
      constructor
      · exact .inr
      · rintro (⟨out, hpc, rfl⟩ | hrev)
        · simp only [Pc.finished.injEq, Except.ok.injEq, Response.revoked.injEq] at hpc
          exact absurd (by rw [← hpc.2]; rfl) hne
        · exact hrev
  · intro v k' hrev
    rcases (State.revokedFor_goto hr').mp hrev with ⟨out, hpc, rfl⟩ | hrev
    · simp only [Pc.finished.injEq, Except.ok.injEq, Response.revoked.injEq] at hpc
      obtain ⟨rfl, rfl⟩ := hpc
      exact ⟨_, Dict.get?_set_self _ _ _, huser⟩
    · obtain ⟨key', hk', rfl⟩ := h.owned v k' hrev
      obtain ⟨key'', hk'', huser', -⟩ := hkeep _ key' hk'
      exact ⟨key'', hk'', huser'⟩
  · intro r' v k' key' hget'
    rcases State.get?_goto hget' with hpc | hget'
    · simp at hpc
    · obtain ⟨row', hrow', rfl⟩ := h.loaded r' v k' key' hget'
      obtain ⟨key'', hk'', huser', -⟩ := hkeep _ row' hrow'
      exact ⟨key'', hk'', huser'⟩
  · intro k' k'' key' key'' hk' hk'' heq
    rcases hget k' key' hk' with ⟨rfl, rfl⟩ | ⟨-, hk1⟩ <;>
      rcases hget k'' key'' hk'' with ⟨rfl, rfl⟩ | ⟨-, hk2⟩
    · rfl
    · exact h.hashes _ k'' row key'' hrow hk2 heq
    · exact h.hashes k' _ key' row hk1 hrow heq
    · exact h.hashes k' k'' key' key'' hk1 hk2 heq

theorem pending_of_get? {pc : Pc} (h : s.requests.get? r = some pc)
    (hpc : ∀ user result, pc ≠ .finished user result) : s.Pending r := by
  intro user result hget
  rw [h] at hget
  exact hpc user result (Option.some.inj hget)

theorem pending_of_not_mem (h : r ∉ s.requests.keys) : s.Pending r := by
  intro user result hget
  exact h (Dict.mem_keys_iff.mpr ⟨_, hget⟩)

/-- **A step keeps the invariant.** -/
theorem inv_step {t : State} {a : Action} (hs : Inv hashApiKey s)
    (h : step hashApiKey s a = some t) : Inv hashApiKey t := by
  cases a with
  | create r user keyName =>
      simp only [step] at h
      split_ifs at h with hr
      obtain rfl := Option.some.inj h
      exact hs.goto (pending_of_not_mem hr) (by simp) (by simp) (by simp)
  | revoke r user apiKeyUuid =>
      simp only [step] at h
      split_ifs at h with hr
      obtain rfl := Option.some.inj h
      exact hs.goto (pending_of_not_mem hr) (by simp) (by simp) (by simp)
  | list r user =>
      simp only [step] at h
      split_ifs at h with hr
      obtain rfl := Option.some.inj h
      exact hs.goto (pending_of_not_mem hr) (by simp) (by simp) (by simp)
  | insert r fresh random now =>
      simp only [step] at h
      split at h
      · next user keyName hget =>
        have hr := pending_of_get? hget (by simp)
        split_ifs at h with hrefuses
        · obtain rfl := Option.some.inj h
          exact hs.goto hr (by simp) (by simp) (by simp)
        · obtain rfl := Option.some.inj h
          exact hs.insert hr (Bool.not_eq_true _ ▸ hrefuses)
      · exact absurd h (by simp)
  | load r =>
      simp only [step] at h
      split at h
      · next user k hget =>
        have hr := pending_of_get? hget (by simp)
        split at h
        · obtain rfl := Option.some.inj h
          exact hs.goto hr (by simp) (by simp) (by simp)
        · next key hkey =>
          split_ifs at h with huser hrevoked
          · obtain rfl := Option.some.inj h
            exact hs.goto hr (by simp) (by simp) (by simp)
          · obtain rfl := Option.some.inj h
            refine hs.goto hr (by simp) ?_ (by simp)
            intro v out hpc
            simp only [Pc.finished.injEq, Except.ok.injEq, Response.revoked.injEq] at hpc
            obtain ⟨rfl, rfl⟩ := hpc
            exact ⟨key, hkey, not_not.mp huser, hrevoked⟩
          · obtain rfl := Option.some.inj h
            refine hs.goto hr (by simp) (by simp) ?_
            intro v k' key' hpc
            obtain ⟨rfl, rfl, rfl⟩ := Pc.loaded.inj hpc
            exact ⟨_, hkey, not_not.mp huser⟩
      · exact absurd h (by simp)
  | update r now =>
      simp only [step] at h
      split at h
      · next user k key hget =>
        have hr := pending_of_get? hget (by simp)
        obtain ⟨row, hrow, huser⟩ := hs.loaded r user k key hget
        simp only [hrow] at h
        obtain rfl := Option.some.inj h
        exact hs.update hr hrow huser now
      · exact absurd h (by simp)
  | fail r =>
      simp only [step] at h
      split at h
      · obtain rfl := Option.some.inj h
        exact hs.goto (pending_of_get? ‹_› (by simp)) (by simp) (by simp) (by simp)
      · obtain rfl := Option.some.inj h
        exact hs.goto (pending_of_get? ‹_› (by simp)) (by simp) (by simp) (by simp)
      · obtain rfl := Option.some.inj h
        exact hs.goto (pending_of_get? ‹_› (by simp)) (by simp) (by simp) (by simp)
      · exact absurd h (by simp)

/-! ## Who is let in -/

/-- The join finds the row with the hash of the token, if there is one. -/
theorem keyOfToken_eq_some {token : Str} {key : ApiKey}
    {user : CurrentUser} (hfound : s.db.keyOfToken hashApiKey token = some (key, user)) :
    key.keyHash = hashApiKey token ∧ user.userAccountUuid = key.userAccountUuid ∧
      ∃ k, s.db.apiKeys.get? k = some key := by
  obtain ⟨⟨k, key'⟩, hmem, he⟩ := List.exists_of_findSome?_eq_some hfound
  dsimp only at he
  split_ifs at he with hhash
  obtain ⟨account, -, hpair⟩ := Option.map_eq_some_iff.mp he
  obtain ⟨rfl, rfl⟩ := Prod.mk.inj hpair
  exact ⟨hhash, rfl, k, Dict.mem_items_iff.mp hmem⟩

theorem Inv.exists_keyOfToken (h : Inv hashApiKey s) {token : Str} {k : Uuid} {key : ApiKey}
    (hk : s.db.apiKeys.get? k = some key) (hhash : key.keyHash = hashApiKey token) :
    ∃ user, s.db.keyOfToken hashApiKey token = some (key, user) := by
  cases hfound : s.db.keyOfToken hashApiKey token with
  | none =>
      have hnone := List.findSome?_eq_none_iff.mp hfound (k, key) (Dict.mem_items_iff.mpr hk)
      obtain ⟨account, haccount⟩ := Dict.mem_keys_iff.mp (h.user k key hk)
      simp [hhash, haccount] at hnone
  | some found =>
      obtain ⟨key', user⟩ := found
      obtain ⟨hhash', -, k', hk'⟩ := keyOfToken_eq_some hfound
      obtain rfl := h.hashes k k' key key' hk hk' (hhash.trans hhash'.symm)
      obtain rfl := Option.some.inj (hk.symm.trans hk')
      exact ⟨user, rfl⟩

theorem Inv.userFromApiKey_eq_ok (h : Inv hashApiKey s) {token : Str} {u : Uuid} :
    (∃ user, userFromApiKey hashApiKey s.db token = .ok user ∧ user.userAccountUuid = u) ↔
      ∃ k key, s.db.apiKeys.get? k = some key ∧ key.keyHash = hashApiKey token ∧
        key.userAccountUuid = u ∧ key.revokedAt = none := by
  unfold userFromApiKey
  constructor
  · rintro ⟨user, hok, rfl⟩
    split at hok
    · exact absurd hok (by simp)
    · next key user' hfound =>
      obtain ⟨hhash, huser, k, hk⟩ := keyOfToken_eq_some hfound
      split_ifs at hok with hrevoked
      obtain rfl := Except.ok.inj hok
      exact ⟨k, key, hk, hhash, huser.symm, not_not.mp hrevoked⟩
  · rintro ⟨k, key, hk, hhash, rfl, hrevoked⟩
    obtain ⟨user, hfound⟩ := h.exists_keyOfToken hk hhash
    obtain ⟨-, huser, -⟩ := keyOfToken_eq_some hfound
    refine ⟨user, ?_, huser⟩
    rw [hfound]
    simp [hrevoked]

/-- **An API key lets in the user that it was given to, until it is revoked.** After every run, a
    token is accepted for a user exactly if a response gave it to that user and none told anyone
    that the key is revoked; and only the user of a key is told so. -/
theorem api_key_accepted_iff (hashApiKey : Str → Str)
    (oidcUser : Str → Except HttpError CurrentUser) (users : Dict Uuid UserAccount)
    (actions : List Action) {s : State}
    (hrun : run (step hashApiKey) (State.initial users) actions = some s) (random : Str)
    (hcollision : ∀ user out secret, s.Gave user out secret →
      hashApiKey secret = hashApiKey (API_KEY_PREFIX ++ random) →
        secret = API_KEY_PREFIX ++ random) (u : Uuid) :
    ((∃ user, getCurrentUser hashApiKey oidcUser s.db
        ("Bearer ".toList ++ (API_KEY_PREFIX ++ random)) = .ok user ∧ user.userAccountUuid = u) ↔
      ∃ out, s.Gave u out (API_KEY_PREFIX ++ random) ∧
        ∀ v, ¬ s.RevokedFor v out.apiKeyUuid) ∧
    ∀ v k, s.RevokedFor v k → ∃ out secret, s.Gave v out secret ∧ out.apiKeyUuid = k := by
  have hs : Inv hashApiKey s :=
    run_invariant (fun _ _ _ hs hst => inv_step hs hst) (inv_initial users) hrun
  have hheader : getCurrentUser hashApiKey oidcUser s.db
      ("Bearer ".toList ++ (API_KEY_PREFIX ++ random)) =
        userFromApiKey hashApiKey s.db (API_KEY_PREFIX ++ random) := by
    have hstarts : startsWith ("Bearer ".toList ++ (API_KEY_PREFIX ++ random))
        ("Bearer ".toList ++ API_KEY_PREFIX) = true := by
      rw [startsWith, List.isPrefixOf_iff_prefix, ← List.append_assoc]
      exact List.prefix_append _ _
    rw [getCurrentUser, if_pos hstarts, List.drop_left]
  constructor
  · rw [hheader, hs.userFromApiKey_eq_ok]
    constructor
    · rintro ⟨k, key, hk, hhash, rfl, hrevoked⟩
      obtain ⟨out, secret, hgave, rfl, hsecret⟩ := hs.given k key hk
      obtain rfl := hcollision _ out secret hgave (hsecret.symm.trans hhash)
      refine ⟨out, hgave, fun v hrev => ?_⟩
      exact (hs.revoked _ key hk).mpr ⟨v, hrev⟩ hrevoked
    · rintro ⟨out, hgave, hnot⟩
      obtain ⟨key, hk, huser, hhash⟩ := hs.row u out _ hgave
      refine ⟨_, key, hk, hhash, huser, ?_⟩
      by_contra hrevoked
      obtain ⟨v, hrev⟩ := (hs.revoked _ key hk).mp hrevoked
      exact hnot v hrev
  · intro v k hrev
    obtain ⟨key, hk, rfl⟩ := hs.owned v k hrev
    obtain ⟨out, secret, hgave, hout, -⟩ := hs.given k key hk
    exact ⟨out, secret, hgave, hout⟩

end

/-- The digest of `pgerd_abc` where `APP_SECRET` is `secret`. -/
def exampleHash (token : Str) : Str :=
  if token = "pgerd_abc".toList then
    "e369b353c87225d2bbca79e41dcdcb676dc39b602f9dc07add265dab389d7218".toList
  else token

/-- Two users, with the keys 7 and 8. -/
def exampleUsers : Dict Uuid UserAccount :=
  (Dict.empty.set 7 ⟨"alice".toList, none⟩).set 8 ⟨"bob".toList, none⟩

/-- User 7 creates a key, and user 8 cannot revoke it. -/
def exampleActions : List Action :=
  [.create 1 7 "ci".toList, .insert 1 42 "abc".toList 0, .revoke 2 8 42, .load 2]

theorem api_key_accepted_iff_example :
    ∃ s, run (step exampleHash) (State.initial exampleUsers) exampleActions = some s ∧
      ((∃ user, getCurrentUser exampleHash (fun _ => .error invalidApiKey) s.db
          ("Bearer ".toList ++ (API_KEY_PREFIX ++ "abc".toList)) = .ok user ∧
            user.userAccountUuid = 7) ↔
        ∃ out, s.Gave 7 out (API_KEY_PREFIX ++ "abc".toList) ∧
          ∀ v, ¬ s.RevokedFor v out.apiKeyUuid) := by
  refine ⟨_, rfl, (api_key_accepted_iff exampleHash _ exampleUsers exampleActions rfl
    "abc".toList ?_ 7).1⟩
  rintro user out secret ⟨r, hget⟩ -
  have hmem := Dict.mem_items_iff.mpr hget
  rcases List.mem_cons.mp hmem with he | hmem
  · obtain ⟨-, hpc⟩ := Prod.mk.inj he
    simp only [Pc.finished.injEq, Except.ok.injEq, Response.created.injEq] at hpc
    exact hpc.2.2
  · rcases List.mem_cons.mp hmem with he | hmem
    · obtain ⟨-, hpc⟩ := Prod.mk.inj he
      simp at hpc
    · exact absurd hmem List.not_mem_nil

end ApiKeys

end PgErdCloud.Auth
