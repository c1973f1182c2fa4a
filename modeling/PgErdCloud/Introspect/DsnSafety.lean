/-
  What a connection string that passes the guard can reach: public addresses of allow-listed
  hosts only. Nothing is assumed of URL parsing, of address parsing or of the resolver.

  `validated_dsn_is_public` is about every DSN that is accepted, any resolver and any parsing of
  URLs: all named hosts are allowed and all their addresses are public.
-/
import PgErdCloud.Introspect.DsnGuard

namespace PgErdCloud.Introspect

open Lib Lib.PyStr Lib.Fallible

variable (unicode : Unicode) {Ip : Type} (net : StdNet Ip)

/-! ## Hosts and addresses -/

/-- None of the restricted predicates. -/
structure StdNet.Public (ip : Ip) : Prop where
  notPrivate : net.isPrivate ip = false
  notLoopback : net.isLoopback ip = false
  notLinkLocal : net.isLinkLocal ip = false
  notMulticast : net.isMulticast ip = false
  notReserved : net.isReserved ip = false
  notUnspecified : net.isUnspecified ip = false

theorem isRestrictedIp_eq_false {ip : Ip} :
    isRestrictedIp net ip = false ↔ net.Public (unmapped net ip) := by
  unfold isRestrictedIp isRestrictedRange
  simp only [Bool.or_eq_false_iff]
  constructor
  · rintro ⟨⟨⟨⟨⟨h1, h2⟩, h3⟩, h4⟩, h5⟩, h6⟩
    exact ⟨h1, h2, h3, h4, h5, h6⟩
  · rintro ⟨h1, h2, h3, h4, h5, h6⟩
    exact ⟨⟨⟨⟨⟨h1, h2⟩, h3⟩, h4⟩, h5⟩, h6⟩

/-- The elements of the values of a query parameter. -/
def listedHosts (pairs : List (Str × Str)) (key : Str) : List Str :=
  ((queryValues unicode pairs key).flatMap (split ',')).map strip

/-- The hosts that a connection string names: the authority, then those of the query. -/
def namedHosts (host : Str) (pairs : List (Str × Str)) : List Str :=
  host :: (listedHosts unicode pairs "host".toList ++ listedHosts unicode pairs "hostaddr".toList)

/-- The n-th host has the address: it is a literal of it, or the resolver answers with it. -/
def HasAddress (resolver : Resolver) (port : Option Nat) (n : Nat) (h : Str) (ip : Ip) : Prop :=
  match parseIpLiteral net (normalizeHost unicode h) with
  | some literalIp => ip = literalIp
  | none => ∃ entries,
      resolver n (normalizeHost unicode h) ((port.filter (· ≠ 0)).getD 5432) = some entries ∧
        ∃ address, some address ∈ entries ∧ net.ipAddress address = some ip

/-! ## One host -/

theorem fail_ne_ok {α : Type} {message : String} {a : α} : fail message ≠ .ok a := by
  unfold fail
  exact fun h => nomatch h

theorem answeredIp_ok {address : Str} {ip : Ip} :
    answeredIp net address = .ok ip ↔ net.ipAddress address = some ip := by
  unfold answeredIp
  cases net.ipAddress address with
  | none => simp
  | some ip' => simp

theorem answeredIps_ok {entries : List (Option Str)} {ips : List Ip}
    (h : answeredIps net entries = .ok ips) (ip : Ip) :
    ip ∈ ips ↔ ∃ address, some address ∈ entries ∧ net.ipAddress address = some ip := by
  unfold answeredIps at h
  constructor
  · intro hip
    obtain ⟨address, hm, ha⟩ := exists_input_of_mapM h hip
    obtain ⟨entry, hentry, rfl⟩ := List.mem_filterMap.mp hm
    exact ⟨address, hentry, (answeredIp_ok net).mp ha⟩
  · rintro ⟨address, hm, ha⟩
    obtain ⟨ip', hip', ha'⟩ := exists_output_of_mapM h (List.mem_filterMap.mpr ⟨_, hm, rfl⟩)
    rw [answeredIp_ok, ha, Option.some.injEq] at ha'
    rw [ha']
    exact hip'

variable [DecidableEq Ip] {setting : Str} {resolver : Resolver} {port : Option Nat}

theorem resolvedIps_ok {n : Nat} {host : Str} {ips : List Ip}
    (h : resolvedIps net resolver n host port = .ok ips) :
    ips ≠ [] ∧ ∃ entries, resolver n host ((port.filter (· ≠ 0)).getD 5432) = some entries ∧
      ∀ ip, ip ∈ ips ↔ ∃ address, some address ∈ entries ∧ net.ipAddress address = some ip := by
  unfold resolvedIps at h
  cases hr : resolver n host ((port.filter (· ≠ 0)).getD 5432) with
  | none =>
      rw [hr] at h
      exact absurd h fail_ne_ok
  | some entries =>
      simp only [hr] at h
      obtain ⟨resolved, hresolved, h⟩ := bind_eq_ok.mp h
      split_ifs at h with hne
      · exact absurd h fail_ne_ok
      · obtain rfl : resolved.dedup = ips := Except.ok.inj h
        obtain ⟨ip, hip⟩ := List.exists_mem_of_ne_nil _ hne
        refine ⟨List.ne_nil_of_mem (List.mem_dedup.mpr hip), entries, rfl, fun ip => ?_⟩
        rw [List.mem_dedup]
        exact answeredIps_ok net hresolved ip

/-- **One host.** It is allow-listed and has public addresses only, and the hosts that the guard
    returns for it are the texts of its addresses. -/
theorem validatedIpHosts_ok {isHostaddr : Bool} {n : Nat} {h : Str} {hosts : List Str}
    (hok : validatedIpHosts unicode net setting resolver isHostaddr port n h = .ok hosts) :
    hosts ≠ [] ∧ isAllowedHost unicode setting (normalizeHost unicode h) = true ∧
      (∀ ip, HasAddress unicode net resolver port n h ip → net.Public (unmapped net ip)) ∧
      ∀ host ∈ hosts, ∃ ip, HasAddress unicode net resolver port n h ip ∧
        host = net.text (unmapped net ip) := by
  unfold validatedIpHosts at hok
  simp only at hok
  by_cases hlocal : normalizeHost unicode h = "localhost".toList ∨
      endsWith (normalizeHost unicode h) ".localhost".toList = true
  · rw [if_pos hlocal] at hok
    exact absurd hok fail_ne_ok
  · rw [if_neg hlocal] at hok
    obtain ⟨_, hallowed, hok⟩ := bind_eq_ok.mp hok
    have hentry : isAllowedHost unicode setting (normalizeHost unicode h) = true := by
      unfold validateAllowedHost at hallowed
      split_ifs at hallowed with hnone hsome
      · exact absurd hallowed fail_ne_ok
      · exact hsome
      · exact absurd hallowed fail_ne_ok
    unfold HasAddress
    cases hliteral : parseIpLiteral net (normalizeHost unicode h) with
    | some literalIp =>
        simp only [hliteral] at hok
        split_ifs at hok with hrestricted
        · exact absurd hok fail_ne_ok
        · obtain rfl : [connectionHostForIp net literalIp] = hosts := Except.ok.inj hok
          rw [Bool.not_eq_true, isRestrictedIp_eq_false] at hrestricted
          refine ⟨List.cons_ne_nil _ _, hentry, ?_, ?_⟩
          · rintro ip rfl
            exact hrestricted
          · intro host hm
            exact ⟨literalIp, rfl, List.mem_singleton.mp hm⟩
    | none =>
        simp only [hliteral] at hok
        split_ifs at hok with haddr
        · exact absurd hok fail_ne_ok
        · obtain ⟨resolved, hresolved, hok⟩ := bind_eq_ok.mp hok
          obtain ⟨hne, entries, hentries, hmem⟩ := resolvedIps_ok net hresolved
          split_ifs at hok with hrestricted
          · exact absurd hok fail_ne_ok
          · have hhosts := Except.ok.inj hok
            have hpublic : ∀ ip ∈ resolved, net.Public (unmapped net ip) := by
              intro ip hip
              rw [← isRestrictedIp_eq_false, ← Bool.not_eq_true]
              intro hr
              exact hrestricted (List.any_eq_true.mpr ⟨ip, hip, hr⟩)
            refine ⟨?_, hentry, ?_, ?_⟩
            · rw [← hhosts, ne_eq, List.map_eq_nil_iff, ← List.length_eq_zero_iff,
                List.length_insertionSort, List.length_eq_zero_iff]
              exact hne
            · rintro ip ⟨entries', hentries', haddress⟩
              rw [hentries, Option.some.injEq] at hentries'
              subst hentries'
              exact hpublic ip ((hmem ip).mpr haddress)
            · intro host hm
              rw [← hhosts] at hm
              obtain ⟨ip, hip, rfl⟩ := List.mem_map.mp hm
              have hip' : ip ∈ resolved := (List.perm_insertionSort _ _).mem_iff.mp hip
              exact ⟨ip, ⟨entries, hentries, (hmem ip).mp hip'⟩, rfl⟩

theorem splitQueryHostValues_ok {values hosts : List Str} {parameter : String}
    (h : splitQueryHostValues values parameter = .ok hosts) :
    hosts = (values.flatMap (split ',')).map strip := by
  refine eq_map_of_mapM ?_ h
  intro host host' hstep
  split_ifs at hstep
  · exact absurd hstep fail_ne_ok
  · exact (Except.ok.inj hstep).symm

/-! ## The whole connection string -/

/-- What the guard does when it returns: it validates the named hosts one after the other, and
    keeps those of the query, or the authority if the query names none. -/
theorem validatePostgresDsnTarget_ok {dsn : Str} {target : ValidatedDsnTarget}
    (h : validatePostgresDsnTarget unicode net setting resolver dsn = .ok target) :
    ∃ parsed host pairs, net.urlparse dsn = some parsed ∧ parsed.hostname = some host ∧
      net.parseQsl parsed.query = some pairs ∧
      ∃ groups : List (List Str),
        List.Forall₂ (fun e hosts => ∃ isHostaddr, validatedIpHosts unicode net setting resolver
          isHostaddr target.port e.2 e.1 = .ok hosts)
            (namedHosts unicode host pairs).zipIdx groups ∧
        target.hosts = (if groups.tail = [] then groups else groups.tail).flatten.eraseDups := by
  unfold validatePostgresDsnTarget at h
  cases hparsed : net.urlparse dsn with
  | none => simp [hparsed] at h
  | some parsed =>
  simp only [hparsed] at h
  split_ifs at h with hscheme
  case neg => exact absurd h fail_ne_ok
  cases hhost : parsed.hostname.filter (· ≠ []) with
  | none =>
      simp only [hhost] at h
      exact absurd h fail_ne_ok
  | some host =>
  cases hport : parsed.port with
  | none =>
      simp only [hhost, hport] at h
      exact absurd h fail_ne_ok
  | some urlPort =>
  cases hpairs : net.parseQsl parsed.query with
  | none =>
      simp only [hhost, hport, hpairs] at h
      exact nomatch h
  | some pairs =>
  simp only [hhost, hport, hpairs] at h
  obtain ⟨portOverride, -, h⟩ := bind_eq_ok.mp h
  obtain ⟨primary, hprimary, h⟩ := bind_eq_ok.mp h
  obtain ⟨hostValues, hvalues, h⟩ := bind_eq_ok.mp h
  obtain ⟨queryHosts, hqueryHosts, h⟩ := bind_eq_ok.mp h
  obtain ⟨hostaddrValues, haddrValues, h⟩ := bind_eq_ok.mp h
  obtain ⟨queryHostaddrs, hqueryHostaddrs, h⟩ := bind_eq_ok.mp h
  obtain rfl := Except.ok.inj h
  have hhostname : parsed.hostname = some host := (Option.filter_eq_some_iff.mp hhost).1
  refine ⟨parsed, host, pairs, rfl, hhostname, hpairs,
    primary :: (queryHosts ++ queryHostaddrs), ?_, ?_⟩
  · obtain rfl := splitQueryHostValues_ok hvalues
    obtain rfl := splitQueryHostValues_ok haddrValues
    rw [namedHosts, List.zipIdx_cons, List.zipIdx_append]
    refine .cons ⟨false, hprimary⟩ (List.rel_append ?_ ?_)
    · exact (mapM_eq_ok.mp hqueryHosts).imp fun _ _ hstep => ⟨false, hstep⟩
    · exact (mapM_eq_ok.mp hqueryHostaddrs).imp fun _ _ hstep => ⟨true, hstep⟩
  · rw [List.tail_cons]
    split_ifs with hnone
    · rw [hnone]
    · rfl

/-- **The guard against server-side request forgery.** A connection string that passes has
    hosts to connect to; each is the text of a public address of an allow-listed host that the
    string names; and every host that the string names is allow-listed and has public addresses
    only. -/
theorem validated_dsn_is_public {dsn : Str} {target : ValidatedDsnTarget}
    (h : validatePostgresDsnTarget unicode net setting resolver dsn = .ok target) :
    ∃ parsed host pairs, net.urlparse dsn = some parsed ∧ parsed.hostname = some host ∧
      net.parseQsl parsed.query = some pairs ∧
      target.hosts ≠ [] ∧
      (∀ text ∈ target.hosts, ∃ e ∈ (namedHosts unicode host pairs).zipIdx,
        isAllowedHost unicode setting (normalizeHost unicode e.1) = true ∧
        ∃ ip, HasAddress unicode net resolver target.port e.2 e.1 ip ∧
          text = net.text (unmapped net ip) ∧ net.Public (unmapped net ip)) ∧
      ∀ e ∈ (namedHosts unicode host pairs).zipIdx,
        isAllowedHost unicode setting (normalizeHost unicode e.1) = true ∧
        ∀ ip, HasAddress unicode net resolver target.port e.2 e.1 ip →
          net.Public (unmapped net ip) := by
  obtain ⟨parsed, host, pairs, hparsed, hhost, hpairs, groups, hgroups, hhosts⟩ :=
    validatePostgresDsnTarget_ok unicode net h
  -- the groups that are kept are some of the groups, and not none
  have hkept : (if groups.tail = [] then groups else groups.tail) ≠ [] ∧
      ∀ group ∈ (if groups.tail = [] then groups else groups.tail), group ∈ groups := by
    have hne : groups ≠ [] := by
      rintro rfl
      exact nomatch hgroups
    split_ifs with htail
    · exact ⟨hne, fun group hm => hm⟩
    · exact ⟨htail, fun group hm => List.mem_of_mem_tail hm⟩
  have hgroup : ∀ group ∈ groups, ∃ e ∈ (namedHosts unicode host pairs).zipIdx, ∃ isHostaddr,
      validatedIpHosts unicode net setting resolver isHostaddr target.port e.2 e.1 =
        .ok group := by
    intro group hm
    obtain ⟨e, he, hstep⟩ := exists_left_of_forall₂ hgroups hm
    exact ⟨e, he, hstep⟩
  refine ⟨parsed, host, pairs, hparsed, hhost, hpairs, ?_, ?_, ?_⟩
  · obtain ⟨group, hm⟩ := List.exists_mem_of_ne_nil _ hkept.1
    obtain ⟨e, -, isHostaddr, hstep⟩ := hgroup group (hkept.2 group hm)
    obtain ⟨text, htext⟩ :=
      List.exists_mem_of_ne_nil _ (validatedIpHosts_ok unicode net hstep).1
    rw [hhosts]
    exact List.ne_nil_of_mem (List.mem_eraseDups.mpr (List.mem_flatten.mpr ⟨group, hm, htext⟩))
  · intro text htext
    rw [hhosts, List.mem_eraseDups, List.mem_flatten] at htext
    obtain ⟨group, hm, htext⟩ := htext
    obtain ⟨e, he, isHostaddr, hstep⟩ := hgroup group (hkept.2 group hm)
    obtain ⟨-, hallowed, hpublic, htexts⟩ := validatedIpHosts_ok unicode net hstep
    obtain ⟨ip, hip, rfl⟩ := htexts text htext
    exact ⟨e, he, hallowed, ip, hip, rfl, hpublic ip hip⟩
  · intro e he
    obtain ⟨group, -, isHostaddr, hstep⟩ := exists_right_of_forall₂ hgroups he
    obtain ⟨-, hallowed, hpublic, -⟩ := validatedIpHosts_ok unicode net hstep
    exact ⟨hallowed, hpublic⟩

/-- IPv4 addresses only; one URL, one host and one address are known. -/
def oneHostNet : StdNet (Fin 4 → Nat) where
  urlparse dsn := if dsn = "postgres://db.example.com/app".toList then
    some ⟨"postgres".toList, some "db.example.com".toList, some none, []⟩ else none
  parseQsl query := if query = [] then some [] else none
  parseInt _ := none
  ipAddress s := if s = "8.8.8.8".toList then some ![8, 8, 8, 8] else none
  ipv4Mapped _ := none
  isPrivate ip := ip 0 = 10 || ip 0 = 127 || (ip 0 = 192 && ip 1 = 168)
  isLoopback ip := ip 0 = 127
  isLinkLocal ip := ip 0 = 169 && ip 1 = 254
  isMulticast ip := 224 ≤ ip 0 && ip 0 ≤ 239
  isReserved ip := 240 ≤ ip 0
  isUnspecified ip := ip 0 = 0 && ip 1 = 0 && ip 2 = 0 && ip 3 = 0
  text ip := join ".".toList ((List.ofFn ip).map fun n => (Nat.toDigits 10 n))

/-- A resolver that knows one host. -/
def oneHostResolver : Resolver :=
  fun _ host _ => if host = "db.example.com".toList then some [some "8.8.8.8".toList] else none

/-- `validated_dsn_is_public` for a host that is matched by a wildcard of the allowlist. -/
theorem validated_dsn_is_public_at_oneHost :
    ∃ parsed host pairs, oneHostNet.urlparse "postgres://db.example.com/app".toList = some parsed ∧
      parsed.hostname = some host ∧ oneHostNet.parseQsl parsed.query = some pairs ∧
      ["8.8.8.8".toList] ≠ [] ∧
      (∀ text ∈ ["8.8.8.8".toList], ∃ e ∈ (namedHosts asciiUnicode host pairs).zipIdx,
        isAllowedHost asciiUnicode "*.example.com".toList (normalizeHost asciiUnicode e.1) = true ∧
        ∃ ip, HasAddress asciiUnicode oneHostNet oneHostResolver none e.2 e.1 ip ∧
          text = oneHostNet.text (unmapped oneHostNet ip) ∧
          oneHostNet.Public (unmapped oneHostNet ip)) ∧
      ∀ e ∈ (namedHosts asciiUnicode host pairs).zipIdx,
        isAllowedHost asciiUnicode "*.example.com".toList (normalizeHost asciiUnicode e.1) = true ∧
        ∀ ip, HasAddress asciiUnicode oneHostNet oneHostResolver none e.2 e.1 ip →
          oneHostNet.Public (unmapped oneHostNet ip) := by
  have hok : validatePostgresDsnTarget asciiUnicode oneHostNet "*.example.com".toList
      oneHostResolver "postgres://db.example.com/app".toList =
        .ok ⟨"db.example.com".toList, ["8.8.8.8".toList], none⟩ := rfl
  exact validated_dsn_is_public asciiUnicode oneHostNet hok

end PgErdCloud.Introspect
