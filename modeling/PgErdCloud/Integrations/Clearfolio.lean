/-
  The claims that are signed for the document viewer (app/integrations/clearfolio.py). The
  payload joins four texts by line feeds, and only surrounding white space is taken off them:
  a line feed inside one of them can pass for the end of it.

  `claims_bound_iff` is about any two requests with one signed text: their headers are the same
  exactly when as many line feeds stand in both tenants and in both subjects.
-/
import PgErdCloud.Lib.Base64
import PgErdCloud.Lib.PyInt
import PgErdCloud.Lib.Utf8

namespace PgErdCloud.Integrations

open Lib Lib.PyStr

/-! ## The claims -/

/-- `_sanitize` -/
def sanitize (value : Str) : Str := strip (replaceChar '\x00' [] value)

/-- The entries without empty ones, each at its first place. -/
def canonicalizePermissions (raw : Str) : Str :=
  join [','] (((split ',' raw).map sanitize).filter (· ≠ [])).eraseDups

/-- What the headers read of the configuration. -/
structure ClearfolioConfig where
  hmacSecret : Str
  tenantId : Str
  permissions : Str

/-- The bytes that are signed; `none` where `str` refuses the number. -/
def claimsPayload (tenantId subjectId canonicalPermissions : Str) (issuedAt : Int) :
    Option (List UInt8) :=
  (PyInt.strInt issuedAt).map fun issued =>
    encodeUtf8 (join ['\n'] [tenantId, subjectId, canonicalPermissions, issued])

section
variable (hmac : List UInt8 → List UInt8 → List UInt8)

/-- `sign_tenant_claims` -/
def signTenantClaims (secret tenantId subjectId canonicalPermissions : Str) (issuedAt : Int) :
    Option Str :=
  (claimsPayload tenantId subjectId canonicalPermissions issuedAt).map fun payload =>
    rstripChars ['='] (Base64.urlsafeB64encode (hmac (encodeUtf8 secret) payload))

/-- The headers that the signature covers. -/
structure Claims where
  tenantId : Str
  subjectId : Str
  permissions : Str
  issuedAt : Str
  deriving DecidableEq

/-- What is sent: the claims and their signature. -/
structure Headers where
  claims : Claims
  signature : Str

/-- `build_tenant_headers`: the headers are sanitised before they are signed. -/
def buildTenantHeaders (config : ClearfolioConfig) (subjectId : Str) (issuedAt : Int) :
    Option Headers := do
  let tenantId := sanitize config.tenantId
  let subject := sanitize subjectId
  let permissions := canonicalizePermissions config.permissions
  let signature ←
    signTenantClaims hmac config.hmacSecret tenantId subject permissions issuedAt
  let issued ← PyInt.strInt issuedAt
  pure ⟨⟨tenantId, subject, permissions, issued⟩, signature⟩

end

/-- The payload that is signed for a subject. -/
def signedPayload (config : ClearfolioConfig) (subjectId : Str) (issuedAt : Int) :
    Option (List UInt8) :=
  claimsPayload (sanitize config.tenantId) (sanitize subjectId)
    (canonicalizePermissions config.permissions) issuedAt

/-! ## Where one field ends -/

/-- How many lines end within the text. -/
def lineFeeds (s : Str) : Nat := s.count '\n'

theorem lineFeeds_append (s t : Str) : lineFeeds (s ++ t) = lineFeeds s + lineFeeds t :=
  List.count_append

theorem lineFeeds_cons (s : Str) : lineFeeds ('\n' :: s) = lineFeeds s + 1 :=
  List.count_cons_self

/-- A text ends at the same line feed as another one if it has as many. -/
theorem eq_of_lineFeeds {s s' t t' : Str} (h : s ++ '\n' :: t = s' ++ '\n' :: t')
    (hcount : lineFeeds s = lineFeeds s') : s = s' ∧ t = t' := by
  rcases List.append_eq_append_iff.mp h with ⟨c, hs, ht⟩ | ⟨c, hs, ht⟩
  · cases c with
    | nil =>
        rw [List.append_nil] at hs
        exact ⟨hs.symm, (List.cons.inj ht).2⟩
    | cons ch c =>
        obtain ⟨rfl, -⟩ := List.cons.inj ht
        rw [hs, lineFeeds_append, lineFeeds_cons] at hcount
        omega
  · cases c with
    | nil =>
        rw [List.append_nil] at hs
        exact ⟨hs, (List.cons.inj ht).2.symm⟩
    | cons ch c =>
        obtain ⟨rfl, -⟩ := List.cons.inj ht
        rw [hs, lineFeeds_append, lineFeeds_cons] at hcount
        omega

theorem lineFeeds_strInt {i : Int} {s : Str} (h : PyInt.strInt i = some s) :
    lineFeeds s = 0 := by
  refine List.count_eq_zero.mpr fun hm => ?_
  rcases PyInt.mem_strInt h '\n' hm with heq | hdigit
  · exact absurd heq (by decide)
  · exact absurd hdigit (by decide)

/-- The payload of claims as one text. -/
def Claims.text (claims : Claims) : Str :=
  claims.tenantId ++ '\n' ::
    (claims.subjectId ++ '\n' :: (claims.permissions ++ '\n' :: claims.issuedAt))

/-- The fields of a text are known if it is known where the first two end; the last one has no
    line feed. -/
theorem claims_eq_iff {a b : Claims} (htext : a.text = b.text)
    (ha : lineFeeds a.issuedAt = 0) (hb : lineFeeds b.issuedAt = 0) :
    a = b ↔ lineFeeds a.tenantId = lineFeeds b.tenantId ∧
      lineFeeds a.subjectId = lineFeeds b.subjectId := by
  constructor
  · rintro rfl
    exact ⟨rfl, rfl⟩
  · rintro ⟨htenant, hsubject⟩
    obtain ⟨htenantId, hrest⟩ := eq_of_lineFeeds htext htenant
    obtain ⟨hsubjectId, hrest⟩ := eq_of_lineFeeds hrest hsubject
    have hpermissions : lineFeeds a.permissions = lineFeeds b.permissions := by
      have hcount := congrArg lineFeeds hrest
      rw [lineFeeds_append, lineFeeds_append, lineFeeds_cons, lineFeeds_cons, ha, hb] at hcount
      omega
    obtain ⟨hpermissions, hissued⟩ := eq_of_lineFeeds hrest hpermissions
    obtain ⟨t, s, p, i⟩ := a
    obtain ⟨t', s', p', i'⟩ := b
    obtain rfl : t = t' := htenantId
    obtain rfl : s = s' := hsubjectId
    obtain rfl : p = p' := hpermissions
    obtain rfl : i = i' := hissued
    rfl

/-! ## The headers -/

section
variable {hmac : List UInt8 → List UInt8 → List UInt8} {config : ClearfolioConfig}
variable {subjectId : Str} {issuedAt : Int} {headers : Headers}

/-- What the headers say is what is signed. -/
theorem signedPayload_of_headers
    (h : buildTenantHeaders hmac config subjectId issuedAt = some headers) :
    headers.claims.tenantId = sanitize config.tenantId ∧
      headers.claims.subjectId = sanitize subjectId ∧
      lineFeeds headers.claims.issuedAt = 0 ∧
      signedPayload config subjectId issuedAt = some (encodeUtf8 headers.claims.text) := by
  unfold buildTenantHeaders at h
  obtain ⟨signature, -, h⟩ := Option.bind_eq_some_iff.mp h
  obtain ⟨issued, hissued, h⟩ := Option.bind_eq_some_iff.mp h
  obtain rfl := Option.some.inj h
  refine ⟨rfl, rfl, lineFeeds_strInt hissued, ?_⟩
  unfold signedPayload claimsPayload
  rw [hissued, Option.map_some]
  simp only [join_cons_cons, Claims.text]
  simp [join]

end

/-- **Two signed payloads with the same bytes make the same claims** exactly when their tenants
    hold the same number of line feeds, and their subjects do. -/
theorem claims_bound_iff (hmac : List UInt8 → List UInt8 → List UInt8)
    (config config' : ClearfolioConfig) (subjectId subjectId' : Str) (issuedAt issuedAt' : Int)
    (headers headers' : Headers)
    (h : buildTenantHeaders hmac config subjectId issuedAt = some headers)
    (h' : buildTenantHeaders hmac config' subjectId' issuedAt' = some headers')
    (hpayload : signedPayload config subjectId issuedAt =
      signedPayload config' subjectId' issuedAt') :
    headers.claims = headers'.claims ↔
      lineFeeds (sanitize config.tenantId) = lineFeeds (sanitize config'.tenantId) ∧
      lineFeeds (sanitize subjectId) = lineFeeds (sanitize subjectId') := by
  obtain ⟨htenant, hsubject, hissued, hbytes⟩ := signedPayload_of_headers h
  obtain ⟨htenant', hsubject', hissued', hbytes'⟩ := signedPayload_of_headers h'
  rw [hbytes, hbytes', Option.some_inj] at hpayload
  rw [← htenant, ← htenant', ← hsubject, ← hsubject']
  exact claims_eq_iff (encodeUtf8_injective hpayload) hissued hissued'

/-- One subject, written in two ways. -/
theorem claims_bound_iff_subjects :
    let config : ClearfolioConfig := ⟨"key".toList, "tenant".toList, "viewer:read".toList⟩
    let claims : Claims :=
      ⟨"tenant".toList, "dev:alice".toList, "viewer:read".toList, "100".toList⟩
    claims = claims ↔
      lineFeeds (sanitize config.tenantId) = lineFeeds (sanitize config.tenantId) ∧
      lineFeeds (sanitize " dev:alice".toList) = lineFeeds (sanitize "dev:alice\x00 ".toList) :=
  claims_bound_iff (fun _ _ => []) ⟨"key".toList, "tenant".toList, "viewer:read".toList⟩
    ⟨"key".toList, "tenant".toList, "viewer:read".toList⟩ " dev:alice".toList
    "dev:alice\x00 ".toList 100 100
    ⟨⟨"tenant".toList, "dev:alice".toList, "viewer:read".toList, "100".toList⟩, []⟩
    ⟨⟨"tenant".toList, "dev:alice".toList, "viewer:read".toList, "100".toList⟩, []⟩
    (by rfl) (by rfl) (by rfl)

/-- The subject's second line is signed as a permission. -/
theorem subject_swallows_line_feed :
    let config : ClearfolioConfig := ⟨"key".toList, "tenant".toList, "viewer:read".toList⟩
    let config' : ClearfolioConfig :=
      ⟨"key".toList, "tenant".toList, "admin\nviewer:read".toList⟩
    (buildTenantHeaders (fun _ _ => []) config "alice\nadmin".toList 100).map Headers.claims =
        some ⟨"tenant".toList, "alice\nadmin".toList, "viewer:read".toList, "100".toList⟩ ∧
      (buildTenantHeaders (fun _ _ => []) config' "alice".toList 100).map Headers.claims =
        some ⟨"tenant".toList, "alice".toList, "admin\nviewer:read".toList, "100".toList⟩ ∧
      signedPayload config "alice\nadmin".toList 100 = signedPayload config' "alice".toList 100 ∧
      "alice\nadmin".toList ≠ "alice".toList := by
  refine ⟨?_, ?_, ?_, ?_⟩
  · rfl
  · rfl
  · rfl
  · decide

end PgErdCloud.Integrations
