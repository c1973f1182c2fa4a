/-
  The guard against connection strings that reach into internal networks
  (app/pg_introspect/dsn_guard.py).

  The standard library's URL and address parsing is a parameter, `StdNet`, and so is the
  resolver. The resolver may answer a host differently each time it is asked: its answers are
  numbered by the host's place among the hosts that are validated.
-/
import PgErdCloud.Lib.PyStr
import PgErdCloud.Lib.Fallible

namespace PgErdCloud.Introspect

open Lib Lib.PyStr Lib.Fallible

/-! ## What the guard is given -/

/-- What `urlparse` reports of a URL. `port` is `none` where reading it raises `ValueError`. -/
structure ParsedUrl where
  scheme : Str
  hostname : Option Str
  port : Option (Option Nat)
  query : Str

/-- `urllib.parse`, `ipaddress` and `int`; `none` where they raise `ValueError`. -/
structure StdNet (Ip : Type) where
  urlparse : Str → Option ParsedUrl
  parseQsl : Str → Option (List (Str × Str))
  parseInt : Str → Option Int
  ipAddress : Str → Option Ip
  ipv4Mapped : Ip → Option Ip
  isPrivate : Ip → Bool
  isLoopback : Ip → Bool
  isLinkLocal : Ip → Bool
  isMulticast : Ip → Bool
  isReserved : Ip → Bool
  isUnspecified : Ip → Bool
  text : Ip → Str

/-- `getaddrinfo` for the n-th host: the addresses of the entries, `none` for an entry without
    one; no answer where it raises `gaierror`. -/
abbrev Resolver := Nat → Str → Nat → Option (List (Option Str))

/-- Why a DSN is refused: the guard says so, or a function of the library raises `ValueError`. -/
inductive DsnError
  | dsnTarget (message : Str)
  | valueError
  deriving DecidableEq

/-- `ValidatedDsnTarget` -/
structure ValidatedDsnTarget where
  hostname : Str
  hosts : List Str
  port : Option Nat
  deriving DecidableEq

/-- `raise DsnTargetError(message)` -/
def fail {α : Type} (message : String) : Except DsnError α := .error (.dsnTarget message.toList)

/-! ## The allowlist -/

variable (unicode : Unicode)

/-- `settings.db_introspection_allowed_hosts`, normalised. -/
def configuredAllowedHosts (setting : Str) : List Str :=
  ((split ',' setting).filter fun item => strip item ≠ []).map fun item =>
    rstripChars ['.'] (unicode.lower (strip item))

/-- `_host_matches_allowed_entry`: a wildcard stands for at least one label. -/
def hostMatchesAllowedEntry (host entry : Str) : Bool :=
  if startsWith entry "*.".toList then
    let suffix := entry.drop 1
    endsWith host suffix && host ≠ lstripChars ['.'] suffix
  else host = entry

/-- Some entry of the allowlist matches. -/
def isAllowedHost (setting host : Str) : Bool :=
  (configuredAllowedHosts unicode setting).any (hostMatchesAllowedEntry host)

/-- `_validate_allowed_host` -/
def validateAllowedHost (setting host : Str) : Except DsnError Unit :=
  if configuredAllowedHosts unicode setting = [] then
    fail "database host allowlist is not configured"
  else if isAllowedHost unicode setting host then .ok ()
  else fail "database host is not in the introspection allowlist"

/-! ## Addresses -/

section
variable {Ip : Type} (net : StdNet Ip)

/-- The IPv4 address that an IPv6 address maps, or the address itself. -/
def unmapped (ip : Ip) : Ip := (net.ipv4Mapped ip).getD ip

/-- `_is_restricted_ip` after unmapping. -/
def isRestrictedRange (ip : Ip) : Bool :=
  net.isPrivate ip || net.isLoopback ip || net.isLinkLocal ip || net.isMulticast ip ||
    net.isReserved ip || net.isUnspecified ip

/-- `_is_restricted_ip` -/
def isRestrictedIp (ip : Ip) : Bool := isRestrictedRange net (unmapped net ip)

/-- `_parse_ip_literal` -/
def parseIpLiteral (host : Str) : Option Ip := net.ipAddress (stripChars ['[', ']'] host)

/-- `_connection_host_for_ip` -/
def connectionHostForIp (ip : Ip) : Str := net.text (unmapped net ip)

/-- An answer of the resolver as an address. -/
def answeredIp (address : Str) : Except DsnError Ip :=
  match net.ipAddress address with
  | some ip => .ok ip
  | none => .error .valueError

/-- The addresses of an answer; an entry without an address is skipped. -/
def answeredIps (entries : List (Option Str)) : Except DsnError (List Ip) :=
  (entries.filterMap id).mapM (answeredIp net)

variable [DecidableEq Ip]

/-- `_resolved_ips`: what the resolver answers to the `n`-th question. -/
def resolvedIps (resolver : Resolver) (n : Nat) (host : Str) (port : Option Nat) :
    Except DsnError (List Ip) :=
  -- `port or 5432`
  match resolver n host ((port.filter (· ≠ 0)).getD 5432) with
  | none => fail "database host could not be resolved"
  | some entries => do
      let resolved ← answeredIps net entries
      if resolved = [] then fail "database host did not resolve to an IP address"
      else pure resolved.dedup

/-! ## Query parameters -/

/-- The values of a parameter, its key in any case, in order. -/
def queryValues (pairs : List (Str × Str)) (key : Str) : List Str :=
  (pairs.filter fun pair => unicode.lower pair.1 = key).map Prod.snd

/-- `_split_query_host_values` -/
def splitQueryHostValues (values : List Str) (parameter : String) :
    Except DsnError (List Str) :=
  (values.flatMap (split ',')).mapM fun host =>
    if strip host = [] then fail ("database DSN query " ++ parameter ++ " is invalid")
    else pure (strip host)

/-- One round of `_validate_query_ports`. -/
def validateQueryPort (value : Str) : Except DsnError Nat :=
  if strip value = [] then fail "database DSN query port is invalid"
  else match net.parseInt (strip value) with
  | none => fail "database DSN query port is invalid"
  | some port =>
      if port < 1 ∨ port > 65535 then fail "database DSN query port is invalid"
      else .ok port.toNat

/-- The first port counts; all are checked. -/
def validateQueryPorts (values : List Str) : Except DsnError (Option Nat) := do
  let ports ← (values.flatMap (split ',')).mapM (validateQueryPort net)
  pure ports.head?

/-! ## Hosts -/

/-- `h.lower().rstrip(".")` -/
def normalizeHost (host : Str) : Str := rstripChars ['.'] (unicode.lower host)

/-- The n-th host that is validated. -/
def validatedIpHosts (setting : Str) (resolver : Resolver) (isHostaddr : Bool)
    (port : Option Nat) (n : Nat) (h : Str) : Except DsnError (List Str) :=
  let normalized := normalizeHost unicode h
  if normalized = "localhost".toList ∨ endsWith normalized ".localhost".toList then
    fail "database host must not be localhost"
  else do
    validateAllowedHost unicode setting normalized
    match parseIpLiteral net normalized with
    | some literalIp =>
        if isRestrictedIp net literalIp then
          fail "database host resolves to a restricted IP range"
        else pure [connectionHostForIp net literalIp]
    | none =>
        if isHostaddr then fail "database DSN query hostaddr is invalid"
        else do
          let resolved ← resolvedIps net resolver n normalized port
          if resolved.any (isRestrictedIp net) then
            fail "database host resolves to a restricted IP range"
          else pure ((resolved.insertionSort fun a b => net.text a ≤ net.text b).map
            (connectionHostForIp net))

/-- The schemes that are accepted. -/
def postgresSchemes : List Str := ["postgres".toList, "postgresql".toList]

/-- `validate_postgres_dsn_target` -/
def validatePostgresDsnTarget (setting : Str) (resolver : Resolver) (dsn : Str) :
    Except DsnError ValidatedDsnTarget := do
  let some parsed := net.urlparse dsn | .error .valueError
  if unicode.lower parsed.scheme ∉ postgresSchemes then
    fail "database DSN must use postgres or postgresql scheme"
  else
  let some host := parsed.hostname.filter (· ≠ []) | fail "database DSN must include a host"
  let some port := parsed.port | fail "database DSN port is invalid"
  let some pairs := net.parseQsl parsed.query | .error .valueError
  let portOverride ← validateQueryPorts net (queryValues unicode pairs "port".toList)
  let port := portOverride.or port
  let validated := fun isHostaddr n h =>
    validatedIpHosts unicode net setting resolver isHostaddr port n h
  let primaryHosts ← validated false 0 host
  let queryHostValues ← splitQueryHostValues (queryValues unicode pairs "host".toList) "host"
  let queryHosts ← (queryHostValues.zipIdx 1).mapM fun e => validated false e.2 e.1
  let queryHostaddrValues ← splitQueryHostValues (queryValues unicode pairs "hostaddr".toList)
    "hostaddr"
  let queryHostaddrs ← (queryHostaddrValues.zipIdx (1 + queryHostValues.length)).mapM fun e =>
    validated true e.2 e.1
  let groups := queryHosts ++ queryHostaddrs
  let groups := if groups = [] then [primaryHosts] else groups
  pure {
    hostname := normalizeHost unicode (queryHostValues.head?.getD host)
    hosts := groups.flatten.eraseDups
    port := port }

end

end PgErdCloud.Introspect
