/-
  Bearer tokens (app/auth.py): how a request's token is verified, and how a token is revoked.

  Outside the program, and parameters here: `jose.jwt` (reading the unverified header,
  verifying signature and claims at a clock reading), and the signing keys that `_get_jwks`
  returned to the request. Clock readings are parameters of the functions that read the clock.
  Times are microseconds since 1970, the precision of both `datetime` and `timestamptz`.
-/
import PgErdCloud.Lib.Dict
import PgErdCloud.Lib.Fallible
import PgErdCloud.Lib.PyStr

namespace PgErdCloud.Auth

open Lib Lib.PyStr Lib.Fallible

/-- Microseconds since the epoch. -/
abbrev Time := Int

/-- `seconds` as a time. -/
def seconds (n : Int) : Time := n * 1000000

/-- How long a token is still accepted behind its end. -/
def OIDC_JWT_LEEWAY_SECONDS : Int := 60

/-! ## JSON values -/

/-- The value `dict.get` returns for a claim or a header field; `null` also when the key is
    absent. Numbers are times in seconds read to the microsecond; arrays and objects are kept
    as their text. -/
inductive Value
  | null
  | bool (b : Bool)
  | num (time : Time)
  | str (s : String)
  | other (text : String)
  deriving DecidableEq, Repr

/-- `bool(value)` -/
def Value.truthy : Value → Bool
  | .null => false
  | .bool b => b
  | .num time => time ≠ 0
  | .str s => s ≠ ""
  | .other text => text ≠ "[]" && text ≠ "{}"

/-- `a or b` -/
def Value.orElse (a b : Value) : Value := if a.truthy then a else b

/-- The header fields that are looked at. -/
structure JwtHeader where
  typ : Value
  cty : Value
  alg : Value
  kid : Value

/-- The claims that are looked at. -/
structure Claims where
  sub : Value
  jti : Value
  exp : Value
  name : Value
  preferredUsername : Value

/-- A signing key; `material` is what only `jose` looks at. -/
structure Jwk where
  kid : Value
  kty : Value
  material : String

/-- An exception that ends the request: an `HTTPException`, or another one. -/
inductive AuthError
  | http (status : Nat) (detail : String)
  | raised (error : String)
  deriving DecidableEq, Repr

/-- The settings, the Unicode database and `jose.jwt`. -/
structure Oidc where
  unicode : Unicode
  allowedAlgorithms : List (List Char)
  getUnverifiedHeader : String → Option JwtHeader
  /-- `jwt.decode` with these algorithms and this leeway, at a clock reading. -/
  decode : String → Jwk → List (List Char) → Int → Time → Option Claims

/-- What a request presents and meets: its token, the signing keys of both calls of
    `_get_jwks` (`none` in a document without a list of keys), and the clock readings of the
    verification and of the revocation lookup. -/
structure Request where
  token : String
  jwks : Except String (Option (List Jwk))
  refreshedJwks : Except String (Option (List Jwk))
  decodedAt : Time
  lookedUpAt : Time

/-- What is kept of a token that was accepted. -/
structure VerifiedToken where
  subject : String
  displayName : Option String
  jwtId : String
  expiresAt : Time
  deriving DecidableEq, Repr

/-! ## Verification -/

/-- `_pick_jwk`: the first key with this id, or the first of all where the token names none. -/
def pickJwk (jwks : Option (List Jwk)) (kid : Value) : Option Jwk :=
  jwks.bind fun keys => keys.find? fun k => kid = .null || k.kid = kid

/-- `dt.datetime.fromtimestamp`, for the years 1 to 9999. -/
def fromTimestamp (time : Time) : Except AuthError Time :=
  if seconds (-62135596800) ≤ time ∧ time < seconds 253402300800 then .ok time
  else .error (.raised "year is out of range")

/-- `_jwt_expiry`: the time in the claim `exp`. A truth value is a number to Python. -/
def jwtExpiry (claims : Claims) : Except AuthError Time :=
  match claims.exp with
  | .num time => fromTimestamp time
  | .bool b => fromTimestamp (seconds (if b then 1 else 0))
  | _ => .error (.http 401 "token missing exp")

/-- `_validate_jwt_header`: the algorithm of a header whose type is right. -/
def validateJwtHeader (unicode : Unicode) (header : JwtHeader) : Except AuthError (List Char) := do
  match header.typ with
  | .null => pure ()
  | .str typ =>
      if unicode.lower (strip typ.toList) ∉ ["jwt".toList, "at+jwt".toList] then
        throw (.http 401 "unsupported token type")
  | _ => throw (.http 401 "unsupported token type")
  if header.cty ≠ .null then
    throw (.http 401 "unsupported token content type")
  match header.alg with
  | .str alg =>
      if alg = "" then throw (.http 401 "token missing alg")
      else pure (unicode.upper alg.toList)
  | _ => throw (.http 401 "token missing alg")

/-- The type of the signing key must be that of the algorithm. -/
def checkKeyType (unicode : Unicode) (headerAlg : List Char) (jwk : Jwk) : Except AuthError Unit :=
  let mismatch := .error (.http 401 "algorithm/key type mismatch")
  match jwk.kty with
  | .str kty =>
      let kty := unicode.upper kty.toList
      if kty = "RSA".toList then
        if startsWith headerAlg "RS".toList || startsWith headerAlg "PS".toList then .ok ()
        else mismatch
      else if kty = "EC".toList then
        if startsWith headerAlg "ES".toList then .ok () else mismatch
      else mismatch
  | _ => mismatch

/-- `_decode_verified_oidc_token`: the claims of a token whose signature, times, issuer and audience
    the library has checked. -/
def decodeVerifiedOidcToken (oidc : Oidc) (request : Request) : Except AuthError Claims := do
  match oidc.getUnverifiedHeader request.token with
  | none => throw (.http 401 "invalid token header")
  | some header =>
      let headerAlg ← validateJwtHeader oidc.unicode header
      if headerAlg ∉ oidc.allowedAlgorithms then
        throw (.http 401 "unsupported token algorithm")
      let jwks ← request.jwks.mapError .raised
      let jwk ← match pickJwk jwks header.kid with
        | some jwk => pure (some jwk)
        | none => do
            let jwks ← request.refreshedJwks.mapError .raised
            pure (pickJwk jwks header.kid)
      match jwk with
      | none => throw (.http 401 "unknown signing key")
      | some jwk =>
          checkKeyType oidc.unicode headerAlg jwk
          match oidc.decode request.token jwk oidc.allowedAlgorithms OIDC_JWT_LEEWAY_SECONDS
              request.decodedAt with
          | none => throw (.http 401 "token verification failed")
          | some claims => pure claims

/-! ## Revocation -/

/-- The rows of `revoked_token`: `expires_at` by `jwt_id`. -/
abbrev RevokedTokens := Dict String Time

/-- `is_token_jti_revoked` at the clock reading `current`. -/
def isTokenJtiRevoked (revoked : RevokedTokens) (jwtId : String) (current : Time) : Bool :=
  (revoked.get? jwtId).any fun expiresAt => expiresAt > current

/-- `delete(RevokedToken).where(RevokedToken.expires_at <= current)` -/
def purge (revoked : RevokedTokens) (current : Time) : RevokedTokens :=
  revoked.filter fun _ expiresAt => !(expiresAt ≤ current)

/-- The transaction of `revoke_token_jti` at the clock reading `current`: the table after it,
    or `none` when it is rolled back because the id is there already. -/
def revokeTokenJti (revoked : RevokedTokens) (jwtId : String) (expiresAt current : Time) :
    Option RevokedTokens :=
  if jwtId = "" then some revoked
  else if (purge revoked current).get? jwtId = none then
    some ((purge revoked current).set jwtId expiresAt)
  else none

/-- `_verified_token_from_claims` without its revocation lookup. -/
def tokenFromClaims (claims : Claims) : Except AuthError VerifiedToken :=
  match claims.sub, claims.jti with
  | .str sub, .str jwtId =>
      if strip jwtId.toList = [] then .error (.http 401 "token missing jti")
      else do
        let expiresAt ← jwtExpiry claims
        let displayName := match claims.name.orElse claims.preferredUsername with
          | .str name => some name
          | _ => none
        pure ⟨sub, displayName, jwtId, expiresAt⟩
  | .str _, _ => .error (.http 401 "token missing jti")
  | _, _ => .error (.http 401 "token missing sub")

/-- The verification of a request's token, the revocation lookup apart. -/
def requestToken (oidc : Oidc) (request : Request) : Except AuthError VerifiedToken := do
  let claims ← decodeVerifiedOidcToken oidc request
  tokenFromClaims claims

/-- `_verified_token_from_claims` with its lookup at the clock reading `current`. -/
def verifiedTokenFromClaims (revoked : RevokedTokens) (claims : Claims) (current : Time) :
    Except AuthError VerifiedToken := do
  let verified ← tokenFromClaims claims
  if isTokenJtiRevoked revoked verified.jwtId current then throw (.http 401 "token revoked")
  else pure verified

/-- `_get_verified_token_from_request` for the bearer token of a request. -/
def verifiedTokenFromRequest (oidc : Oidc) (revoked : RevokedTokens) (request : Request) :
    Except AuthError VerifiedToken := do
  let claims ← decodeVerifiedOidcToken oidc request
  verifiedTokenFromClaims revoked claims request.lookedUpAt

/-! ## Verified tokens -/

theorem tokenFromClaims_jwtId {claims : Claims} {verified : VerifiedToken}
    (h : tokenFromClaims claims = .ok verified) : verified.jwtId ≠ "" := by
  unfold tokenFromClaims at h
  split at h
  · rename_i sub jwtId _ _
    split_ifs at h with hs
    obtain ⟨expiresAt, -, hv⟩ := bind_eq_ok.mp h
    cases hv
    rintro rfl
    exact hs rfl
  · cases h
  · cases h

theorem requestToken_jwtId {oidc : Oidc} {request : Request} {verified : VerifiedToken}
    (h : requestToken oidc request = .ok verified) : verified.jwtId ≠ "" := by
  obtain ⟨claims, -, hv⟩ := bind_eq_ok.mp h
  exact tokenFromClaims_jwtId hv

/-- A request is authenticated when its token is verified and not found revoked. -/
theorem verifiedTokenFromRequest_eq_ok {oidc : Oidc} {revoked : RevokedTokens}
    {request : Request} {verified : VerifiedToken} :
    verifiedTokenFromRequest oidc revoked request = .ok verified ↔
      requestToken oidc request = .ok verified ∧
        isTokenJtiRevoked revoked verified.jwtId request.lookedUpAt = false := by
  simp only [verifiedTokenFromRequest, verifiedTokenFromClaims, requestToken, bind_eq_ok]
  constructor
  · rintro ⟨claims, hclaims, token, htoken, h⟩
    split_ifs at h with hr
    cases h
    exact ⟨⟨claims, hclaims, htoken⟩, Bool.eq_false_iff.mpr hr⟩
  · rintro ⟨⟨claims, hclaims, htoken⟩, hr⟩
    refine ⟨claims, hclaims, verified, htoken, ?_⟩
    rw [if_neg (by simp [hr])]
    rfl

end PgErdCloud.Auth
