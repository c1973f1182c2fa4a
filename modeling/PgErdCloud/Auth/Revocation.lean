/-
  Revoked tokens over runs of requests and logouts, with any clock readings.

  The lookup asks for a row whose `expires_at` lies after the clock reading, and every logout
  purges the rows whose `expires_at` does not. The verification accepts a token for a leeway
  after its `exp`. In that leeway a revoked token is accepted again. This file proves when
  exactly a request with a revoked token is rejected (`rejected_iff`).
-/
import PgErdCloud.Lib.Machine
import PgErdCloud.Auth.Tokens

namespace PgErdCloud.Auth

open Lib Lib.PyStr

/-! ## Runs -/

/-- The table, and the tokens of the logout requests that are verified and have not reached
    their transaction. -/
structure State where
  revoked : RevokedTokens
  pending : List VerifiedToken
  deriving DecidableEq

/-- Nothing is revoked. -/
def State.initial : State := ⟨.empty, []⟩

/-- A request to any endpoint; the two halves of `revoke_current_request_token`. The second
    half may fail to commit. -/
inductive Action
  | request (r : Request)
  | logout (r : Request)
  | revoke (verified : VerifiedToken) (current : Time) (commits : Bool)

variable (oidc : Oidc)

/-- One request, or the committing of one revocation. -/
def step (s : State) : Action → Option State
  | .request _ => some s
  | .logout r =>
      match verifiedTokenFromRequest oidc s.revoked r with
      | .ok verified => some { s with pending := verified :: s.pending }
      | .error _ => some s
  | .revoke verified current commits =>
      if verified ∈ s.pending then
        let revoked := if commits then
          revokeTokenJti s.revoked verified.jwtId verified.expiresAt current else none
        some ⟨revoked.getD s.revoked, s.pending.erase verified⟩
      else none

/-- The step commits a revocation of `jwtId`, and with it a purge, at the clock reading
    `current`. -/
def Commits (jwtId : String) (expiresAt current : Time) (s : State) (a : Action) : Prop :=
  ∃ verified, a = .revoke verified current true ∧ verified ∈ s.pending ∧
    verified.jwtId = jwtId ∧ verified.expiresAt = expiresAt ∧
    (revokeTokenJti s.revoked jwtId expiresAt current).isSome = true

/-- The step commits a revocation of `jwtId`. -/
def Revokes (jwtId : String) (s : State) (a : Action) (_t : State) : Prop :=
  ∃ expiresAt current, Commits jwtId expiresAt current s a

/-- The step purges the rows that expire at `expiresAt`. -/
def Purges (expiresAt : Time) (s : State) (a : Action) (_t : State) : Prop :=
  ∃ jwtId other current, Commits jwtId other current s a ∧ expiresAt ≤ current

/-! ## The table in one step -/

theorem get?_purge (revoked : RevokedTokens) (jwtId : String) (current : Time) :
    (purge revoked current).get? jwtId =
      (revoked.get? jwtId).filter fun expiresAt => !(expiresAt ≤ current) :=
  Dict.get?_filter revoked _ jwtId

/-- A committed revocation of a token, by the row that it leaves. -/
theorem revokeTokenJti_self {revoked table : RevokedTokens} {jwtId : String}
    {expiresAt current : Time} (hne : jwtId ≠ "")
    (h : revokeTokenJti revoked jwtId expiresAt current = some table) :
    table.get? jwtId = some expiresAt := by
  rw [revokeTokenJti, if_neg hne] at h
  split_ifs at h with hnone
  rw [Option.some.injEq] at h
  rw [← h, Dict.get?_set_self]

/-- The row of another token is purged or stays. -/
theorem revokeTokenJti_other {revoked table : RevokedTokens} {jwtId other : String}
    {expiresAt current : Time} (hne : jwtId ≠ "") (hother : other ≠ jwtId)
    (h : revokeTokenJti revoked jwtId expiresAt current = some table) :
    table.get? other = (revoked.get? other).filter fun expiresAt => !(expiresAt ≤ current) := by
  rw [revokeTokenJti, if_neg hne] at h
  split_ifs at h with hnone
  rw [Option.some.injEq] at h
  rw [← h, Dict.get?_set_ne _ _ hother, get?_purge]

variable {oidc}

/-! ## The table over a run -/

/-- Tokens that wait for their revocation have an id. -/
def PendingIds (s : State) : Prop := ∀ verified ∈ s.pending, verified.jwtId ≠ ""

theorem pendingIds_step (s : State) (a : Action) (t : State) (hs : PendingIds s)
    (h : step oidc s a = some t) : PendingIds t := by
  cases a with
  | request r =>
      cases h
      exact hs
  | logout r =>
      simp only [step] at h
      split at h <;> cases h
      · rename_i verified hv
        have hid := requestToken_jwtId (verifiedTokenFromRequest_eq_ok.mp hv).1
        exact List.forall_mem_cons.mpr ⟨hid, hs⟩
      · exact hs
  | revoke verified current commits =>
      simp only [step] at h
      split at h <;> cases h
      exact fun v hv => hs v (List.mem_of_mem_erase hv)

theorem pendingIds_of_run {actions : List Action} {s : State}
    (h : run (step oidc) State.initial actions = some s) : PendingIds s :=
  run_invariant pendingIds_step (fun _ hv => absurd hv List.not_mem_nil) h

/-- One action commits one revocation. -/
theorem Commits.unique {s : State} {a : Action} {jwtId jwtId' : String}
    {expiresAt expiresAt' current current' : Time} (h : Commits jwtId expiresAt current s a)
    (h' : Commits jwtId' expiresAt' current' s a) : jwtId' = jwtId ∧ current' = current := by
  obtain ⟨verified, rfl, -, hid, -⟩ := h
  obtain ⟨verified', he, -, hid', -⟩ := h'
  cases he
  exact ⟨hid'.symm.trans hid, rfl⟩

/-- The table changes only in a step that commits a revocation. -/
theorem table_step {s t : State} {a : Action} (hs : PendingIds s)
    (h : step oidc s a = some t) :
    (t.revoked = s.revoked ∧ ∀ jwtId expiresAt current, ¬ Commits jwtId expiresAt current s a) ∨
      ∃ jwtId expiresAt current, jwtId ≠ "" ∧ Commits jwtId expiresAt current s a ∧
        revokeTokenJti s.revoked jwtId expiresAt current = some t.revoked := by
  have hquiet : ∀ a, (∀ verified current, a ≠ .revoke verified current true) →
      ∀ jwtId expiresAt current, ¬ Commits jwtId expiresAt current s a := by
    rintro a hne jwtId expiresAt current ⟨verified, rfl, -⟩
    exact hne verified current rfl
  cases a with
  | request r =>
      cases h
      exact .inl ⟨rfl, hquiet _ (by simp)⟩
  | logout r =>
      simp only [step] at h
      split at h <;> cases h <;> exact .inl ⟨rfl, hquiet _ (by simp)⟩
  | revoke verified current commits =>
      simp only [step] at h
      split at h
      · rename_i hmem
        rw [Option.some.injEq] at h
        subst h
        cases commits with
        | false => exact .inl ⟨rfl, hquiet _ (by simp)⟩
        | true =>
            cases htable : revokeTokenJti s.revoked verified.jwtId verified.expiresAt current with
            | none =>
                refine .inl ⟨by rw [if_pos rfl]; rfl, ?_⟩
                rintro _ _ _ ⟨other, he, -, rfl, rfl, hsome⟩
                cases he
                rw [htable] at hsome
                cases hsome
            | some table =>
                have hc : Commits verified.jwtId verified.expiresAt current s
                    (.revoke verified current true) :=
                  ⟨verified, rfl, hmem, rfl, rfl, by rw [htable]; rfl⟩
                exact .inr ⟨_, _, current, hs verified hmem, hc, by rw [htable, if_pos rfl]; rfl⟩
      · cases h

/-- A committed revocation leaves its row. -/
theorem row_of_commits {s t : State} {a : Action} {jwtId : String} {expiresAt current : Time}
    (hs : PendingIds s) (hc : Commits jwtId expiresAt current s a)
    (h : step oidc s a = some t) : t.revoked.get? jwtId = some expiresAt := by
  obtain ⟨verified, rfl, hmem, rfl, rfl, hsome⟩ := hc
  obtain ⟨table, htable⟩ := Option.isSome_iff_exists.mp hsome
  simp only [step, hmem, ↓reduceIte, htable, Option.getD_some, Option.some.injEq] at h
  rw [← h]
  exact revokeTokenJti_self (hs verified hmem) htable

/-- A step that does not revoke `jwtId` purges its row or leaves it. -/
theorem row_step {s t : State} {a : Action} {jwtId : String} {expiresAt : Time}
    (hs : PendingIds s) (hrow : s.revoked.get? jwtId = some expiresAt)
    (hno : ¬ Revokes jwtId s a t) (h : step oidc s a = some t) :
    (Purges expiresAt s a t → t.revoked.get? jwtId = none) ∧
      (¬ Purges expiresAt s a t → t.revoked.get? jwtId = some expiresAt) := by
  rcases table_step hs h with ⟨heq, hquiet⟩ | ⟨other, otherExp, current, hne, hc, htable⟩
  · rw [heq]
    refine ⟨fun hp => ?_, fun _ => hrow⟩
    obtain ⟨other, otherExp, current, hc, -⟩ := hp
    exact absurd hc (hquiet other otherExp current)
  · have hother : jwtId ≠ other := by
      rintro rfl
      exact hno ⟨otherExp, current, hc⟩
    have hget := revokeTokenJti_other hne hother htable
    rw [hrow] at hget
    constructor
    · rintro ⟨_, _, current', hc', hle⟩
      rw [(hc.unique hc').2] at hle
      rw [hget]
      simp [hle]
    · intro hp
      have hlt : ¬ expiresAt ≤ current := fun hle => hp ⟨other, otherExp, current, hc, hle⟩
      rw [hget]
      simp [hlt]

/-- Once purged, a row does not come back without a revocation of its token. -/
theorem no_row_step {s t : State} {a : Action} {jwtId : String} (hs : PendingIds s)
    (hrow : s.revoked.get? jwtId = none) (hno : ¬ Revokes jwtId s a t)
    (h : step oidc s a = some t) : t.revoked.get? jwtId = none := by
  rcases table_step hs h with ⟨heq, -⟩ | ⟨other, otherExp, current, hne, hc, htable⟩
  · rw [heq, hrow]
  · have hother : jwtId ≠ other := by
      rintro rfl
      exact hno ⟨otherExp, current, hc⟩
    rw [revokeTokenJti_other hne hother htable, hrow]
    rfl

/-- After the last revocation of a token its row is in the table exactly until a logout purges
    it. -/
theorem row_of_run {actions : List Action} {s t : State} {jwtId : String} {expiresAt : Time}
    (hs : PendingIds s) (hrow : s.revoked.get? jwtId = some expiresAt)
    (hlast : ¬ SomeStep (step oidc) (Revokes jwtId) s actions)
    (h : run (step oidc) s actions = some t) :
    (SomeStep (step oidc) (Purges expiresAt) s actions → t.revoked.get? jwtId = none) ∧
      (¬ SomeStep (step oidc) (Purges expiresAt) s actions →
        t.revoked.get? jwtId = some expiresAt) := by
  induction actions using List.reverseRecOn generalizing t with
  | nil =>
      rw [run_nil, Option.some.injEq] at h
      subst h
      exact ⟨fun hp => absurd hp not_someStep_nil, fun _ => hrow⟩
  | append_singleton actions a ih =>
      obtain ⟨u, hu, ht⟩ := run_concat.mp h
      rw [someStep_concat hu ht, not_or] at hlast
      rw [someStep_concat hu ht, not_or]
      have hids := run_invariant pendingIds_step hs hu
      obtain ⟨hpurged, hkept⟩ := ih hlast.1 hu
      constructor
      · intro hp
        by_cases hbefore : SomeStep (step oidc) (Purges expiresAt) s actions
        · exact no_row_step hids (hpurged hbefore) hlast.2 ht
        · exact (row_step hids (hkept hbefore) hlast.2 ht).1 (hp.resolve_left hbefore)
      · rintro ⟨hbefore, hnow⟩
        exact (row_step hids (hkept hbefore) hlast.2 ht).2 hnow

/-! ## Requests with a revoked token -/

/-- The request is not authenticated. -/
def Rejected (oidc : Oidc) (s : State) (r : Request) : Prop :=
  ∃ e, verifiedTokenFromRequest oidc s.revoked r = .error e

theorem rejected_iff_of_table {s : State} {r : Request} :
    Rejected oidc s r ↔ (∃ e, requestToken oidc r = .error e) ∨
      ∃ verified, requestToken oidc r = .ok verified ∧
        isTokenJtiRevoked s.revoked verified.jwtId r.lookedUpAt = true := by
  have hok := @verifiedTokenFromRequest_eq_ok oidc s.revoked r
  cases hresult : verifiedTokenFromRequest oidc s.revoked r with
  | ok verified =>
      obtain ⟨htoken, hlive⟩ := hok.mp hresult
      refine iff_of_false (fun ⟨e, he⟩ => absurd (he.symm.trans hresult) (by simp)) ?_
      rintro (⟨e, he⟩ | ⟨other, hother, hrev⟩)
      · exact absurd (he.symm.trans htoken) (by simp)
      · rw [htoken, Except.ok.injEq] at hother
        rw [← hother, hlive] at hrev
        cases hrev
  | error e =>
      refine iff_of_true ⟨e, hresult⟩ ?_
      cases htoken : requestToken oidc r with
      | error e' => exact .inl ⟨e', rfl⟩
      | ok verified =>
          refine .inr ⟨verified, rfl, Bool.of_not_eq_false fun hlive => ?_⟩
          exact absurd (hresult.symm.trans (hok.mpr ⟨htoken, hlive⟩)) (by simp)

/-- **When a revoked token is rejected.** In a run, let a logout commit the revocation of a
    token, and no later one of the same id (the last revocation is the one that counts). A
    later request that carries the token is rejected exactly when its verification fails, or
    its lookup reads the clock before the token's expiry and no logout has purged the row. -/
theorem rejected_iff {before after : List Action} {a : Action} {u v s : State} {jwtId : String}
    {expiresAt current : Time} {r : Request}
    (hbefore : run (step oidc) State.initial before = some u) (hstep : step oidc u a = some v)
    (hrevoked : Commits jwtId expiresAt current u a)
    (hafter : run (step oidc) v after = some s)
    (hlast : ¬ SomeStep (step oidc) (Revokes jwtId) v after)
    (hcarries : ∀ verified, requestToken oidc r = .ok verified → verified.jwtId = jwtId) :
    Rejected oidc s r ↔ (∃ e, requestToken oidc r = .error e) ∨
      (r.lookedUpAt < expiresAt ∧ ¬ SomeStep (step oidc) (Purges expiresAt) v after) := by
  have hids := pendingIds_of_run hbefore
  have hrow := row_of_commits hids hrevoked hstep
  obtain ⟨hpurged, hkept⟩ := row_of_run (pendingIds_step u a v hids hstep) hrow hlast hafter
  have hlookup : isTokenJtiRevoked s.revoked jwtId r.lookedUpAt = true ↔
      r.lookedUpAt < expiresAt ∧ ¬ SomeStep (step oidc) (Purges expiresAt) v after := by
    by_cases hp : SomeStep (step oidc) (Purges expiresAt) v after
    · simp [isTokenJtiRevoked, hpurged hp, hp]
    · simp [isTokenJtiRevoked, hkept hp, hp]
  rw [rejected_iff_of_table, ← hlookup]
  cases htoken : requestToken oidc r with
  | error e => simp
  | ok verified =>
      have hid := hcarries verified htoken
      simp [hid]

/-! ## The leeway -/

/-- An identity provider that issues one token, signed with its only key. The token expires
    100 seconds after the epoch; the leeway of the verification is added to that. -/
def leewayOidc : Oidc where
  unicode := asciiUnicode
  allowedAlgorithms := ["RS256".toList]
  getUnverifiedHeader token :=
    if token = "token" then some ⟨.str "JWT", .null, .str "RS256", .str "key"⟩ else none
  decode token _ _ leeway now :=
    if token = "token" ∧ now ≤ seconds (100 + leeway) then
      some ⟨.str "user", .str "jti", .num (seconds 100), .null, .null⟩
    else none

/-- A request with that token. -/
def tokenAt (now : Time) : Request where
  token := "token"
  jwks := .ok (some [⟨.str "key", .str "RSA", ""⟩])
  refreshedJwks := .ok (some [])
  decodedAt := now
  lookedUpAt := now

/-- A token that has ended at second 100. -/
def leewayToken : VerifiedToken := ⟨"user", none, "jti", seconds 100⟩

/-- The state behind its revocation, which is kept until second 100. -/
def loggedOut : State := ⟨Dict.empty.set "jti" (seconds 100), []⟩

/-- The token is verified, and its revocation committed, at 50 seconds. -/
theorem loggedOut_run :
    run (step leewayOidc) State.initial [.logout (tokenAt (seconds 50))] =
        some ⟨.empty, [leewayToken]⟩ ∧
      step leewayOidc ⟨.empty, [leewayToken]⟩ (.revoke leewayToken (seconds 50) true) =
        some loggedOut ∧
      Commits "jti" (seconds 100) (seconds 50) ⟨.empty, [leewayToken]⟩
        (.revoke leewayToken (seconds 50) true) :=
  ⟨by decide, by decide, leewayToken, rfl, List.mem_singleton_self _, rfl, rfl, by decide⟩

/-- `rejected_iff` for a request ten seconds after that. -/
theorem rejected_iff_at_tokenAt :
    Rejected leewayOidc loggedOut (tokenAt (seconds 60)) ↔
      (∃ e, requestToken leewayOidc (tokenAt (seconds 60)) = .error e) ∨
        (seconds 60 < seconds 100 ∧
          ¬ SomeStep (step leewayOidc) (Purges (seconds 100)) loggedOut []) := by
  obtain ⟨hbefore, hstep, hcommits⟩ := loggedOut_run
  refine rejected_iff hbefore hstep hcommits rfl not_someStep_nil ?_
  intro verified h
  have htoken : requestToken leewayOidc (tokenAt (seconds 60)) = .ok leewayToken := by decide
  rw [htoken, Except.ok.injEq] at h
  rw [← h]
  rfl

/-- Half a minute after its expiry the revoked token is accepted again. -/
theorem revoked_token_accepted :
    ¬ ∀ (oidc : Oidc) (before after : List Action) (a : Action) (u v s : State) (jwtId : String)
      (expiresAt current : Time) (r : Request),
      run (step oidc) State.initial before = some u → step oidc u a = some v →
      Commits jwtId expiresAt current u a → run (step oidc) v after = some s →
      (∀ verified, requestToken oidc r = .ok verified → verified.jwtId = jwtId) →
      Rejected oidc s r := by
  intro hall
  obtain ⟨hbefore, hstep, hcommits⟩ := loggedOut_run
  have htoken : requestToken leewayOidc (tokenAt (seconds 130)) = .ok leewayToken := by decide
  have haccepted : verifiedTokenFromRequest leewayOidc loggedOut.revoked (tokenAt (seconds 130)) =
      .ok leewayToken := by decide
  obtain ⟨e, he⟩ := hall leewayOidc _ [] _ _ _ _ "jti" _ _ (tokenAt (seconds 130)) hbefore hstep
    hcommits rfl (by
      intro verified h
      rw [htoken, Except.ok.injEq] at h
      rw [← h]
      rfl)
  rw [haccepted] at he
  cases he

end PgErdCloud.Auth
