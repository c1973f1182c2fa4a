/-
  How the viewer checks the headers of a request: it cleans the values that it receives and
  signs them again. What is sent has been cleaned already.

  `sent_headers_verify` is about every request that is sent, for any HMAC.
-/
import PgErdCloud.Integrations.Clearfolio
import PgErdCloud.Lib.Cut
import PgErdCloud.Lib.Trim

namespace PgErdCloud.Integrations

open Lib Lib.PyStr

/-! ## Clean values -/

theorem mem_of_mem_sanitize {value : Str} {ch : Char} (h : ch ∈ sanitize value) :
    ch ∈ value ∧ ch ≠ '\x00' := by
  have hmem : ch ∈ replaceChar '\x00' [] value := (strip_isInfix _).subset h
  rw [replaceChar_nil] at hmem
  obtain ⟨hvalue, hne⟩ := List.mem_filter.mp hmem
  exact ⟨hvalue, by simpa using hne⟩

theorem sanitize_sanitize (value : Str) : sanitize (sanitize value) = sanitize value := by
  have hnul : '\x00' ∉ sanitize value := fun hm => (mem_of_mem_sanitize hm).2 rfl
  calc sanitize (sanitize value)
      = strip (sanitize value) := by rw [sanitize, replaceChar_nil_of_not_mem hnul]
    _ = sanitize value := strip_strip _

/-- The entries that are joined. -/
def canonicalEntries (raw : Str) : List Str :=
  (((split ',' raw).map sanitize).filter (· ≠ [])).eraseDups

theorem mem_canonicalEntries {raw entry : Str} (h : entry ∈ canonicalEntries raw) :
    sanitize entry = entry ∧ entry ≠ [] ∧ ',' ∉ entry := by
  obtain ⟨hmap, hne⟩ := List.mem_filter.mp (List.mem_eraseDups.mp h)
  obtain ⟨part, hpart, rfl⟩ := List.mem_map.mp hmap
  refine ⟨sanitize_sanitize part, by simpa using hne, fun hcomma => ?_⟩
  exact not_mem_of_mem_split hpart (mem_of_mem_sanitize hcomma).1

/-- Entries that are clean, not empty, different and without commas are the entries of their
    list. -/
theorem canonicalEntries_join {entries : List Str} (hne : entries ≠ [])
    (hclean : ∀ entry ∈ entries, sanitize entry = entry ∧ entry ≠ [] ∧ ',' ∉ entry)
    (hnodup : entries.Nodup) : canonicalEntries (join [','] entries) = entries := by
  have hsplit : split ',' (join [','] entries) = entries :=
    split_join (fun entry hm => (hclean entry hm).2.2) hne
  have hmap : entries.map sanitize = entries :=
    (List.map_congr_left fun entry hm => (hclean entry hm).1).trans (List.map_id _)
  have hfilter : entries.filter (· ≠ []) = entries := by
    rw [List.filter_eq_self]
    intro entry hm
    simpa using (hclean entry hm).2.1
  rw [canonicalEntries, hsplit, hmap, hfilter, eraseDups_of_nodup hnodup]

theorem canonicalizePermissions_canonicalizePermissions (raw : Str) :
    canonicalizePermissions (canonicalizePermissions raw) = canonicalizePermissions raw := by
  have hentries : ∀ raw, canonicalizePermissions raw = join [','] (canonicalEntries raw) :=
    fun _ => rfl
  rw [hentries raw, hentries]
  by_cases hempty : canonicalEntries raw = []
  · rw [hempty]
    rfl
  · rw [canonicalEntries_join hempty (fun _ => mem_canonicalEntries) (nodup_eraseDups _)]

/-! ## Signing again -/

section
variable (hmac : List UInt8 → List UInt8 → List UInt8) (decimal : Char → Option Nat)

/-- The signature of the values that were received, each of them cleaned. -/
def recomputedSignature (secret : Str) (received : Claims) : Option Str :=
  (PyInt.parseInt decimal received.issuedAt).bind fun issuedAt =>
    signTenantClaims hmac secret (sanitize received.tenantId) (sanitize received.subjectId)
      (canonicalizePermissions received.permissions) issuedAt

/-- **Sent headers verify**: cleaning gives each value back unchanged, and signing the received
    values gives the signature that was sent. -/
theorem sent_headers_verify (config : ClearfolioConfig) (subjectId : Str) (issuedAt : Int)
    (headers : Headers) (h : buildTenantHeaders hmac config subjectId issuedAt = some headers) :
    sanitize headers.claims.tenantId = headers.claims.tenantId ∧
      sanitize headers.claims.subjectId = headers.claims.subjectId ∧
      canonicalizePermissions headers.claims.permissions = headers.claims.permissions ∧
      PyInt.parseInt decimal headers.claims.issuedAt = some issuedAt ∧
      recomputedSignature hmac decimal config.hmacSecret headers.claims =
        some headers.signature := by
  unfold buildTenantHeaders at h
  obtain ⟨signature, hsignature, h⟩ := Option.bind_eq_some_iff.mp h
  obtain ⟨issued, hissued, h⟩ := Option.bind_eq_some_iff.mp h
  obtain rfl := Option.some.inj h
  have htenant := sanitize_sanitize config.tenantId
  have hsubject := sanitize_sanitize subjectId
  have hpermissions := canonicalizePermissions_canonicalizePermissions config.permissions
  have hread := PyInt.parseInt_strInt decimal hissued
  refine ⟨htenant, hsubject, hpermissions, hread, ?_⟩
  simp only [recomputedSignature, hread, htenant, hsubject, hpermissions, Option.bind_some]
  exact hsignature

end

/-- NULs beside blanks, an empty entry and one that is there twice. -/
theorem sent_headers_verify_permissions :
    let claims : Claims :=
      ⟨"acme".toList, "dev:alice".toList, "read,write".toList, "100".toList⟩
    sanitize claims.tenantId = claims.tenantId ∧ sanitize claims.subjectId = claims.subjectId ∧
      canonicalizePermissions claims.permissions = claims.permissions ∧
      PyInt.parseInt (fun _ => none) claims.issuedAt = some 100 ∧
      recomputedSignature (fun _ _ => []) (fun _ => none) "key".toList claims = some [] :=
  sent_headers_verify (fun _ _ => []) (fun _ => none)
    ⟨"key".toList, " \x00 acme".toList, "read \x00,, write,\x00read".toList⟩
    "dev:alice\x00 ".toList 100
    ⟨⟨"acme".toList, "dev:alice".toList, "read,write".toList, "100".toList⟩, []⟩ (by rfl)

end PgErdCloud.Integrations
