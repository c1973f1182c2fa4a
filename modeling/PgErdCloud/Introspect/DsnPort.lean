/-
  The port of an accepted connection string. The parameters of the query are checked to name a
  port from 1 to 65535, and the first one wins. Only the standard library checks the authority,
  and it lets the port 0 pass.

  `port_usable_iff` is about every DSN that is accepted: its port can be connected to exactly when
  the authority does not give the port zero, or the query gives one.
-/
import PgErdCloud.Lib.Url
import PgErdCloud.Introspect.DsnSafety

namespace PgErdCloud.Introspect

open Lib Lib.PyStr Lib.Fallible Lib.Url

/-! ## The standard library -/

/-- `urlparse`: the split, with the properties that the guard reads. -/
def urlparse (unicode : Unicode) (lib : UrlLib) (dsn : Str) : Option ParsedUrl :=
  (urlsplit lib dsn).map fun parsed =>
    ⟨parsed.scheme, parsed.hostname unicode, parsed.port, parsed.query⟩

/-- The guard's library with the standard one's URLs and numbers; the addresses are given. -/
def withUrls {Ip : Type} (unicode : Unicode) (lib : UrlLib) (decimal : Char → Option Nat)
    (addresses : StdNet Ip) : StdNet Ip :=
  { addresses with
    urlparse := urlparse unicode lib
    parseQsl := fun query => some (Url.parseQsl query)
    parseInt := PyInt.parseInt decimal }

/-! ## What the port should be -/

/-- The values of the port parameters. -/
def portParameters (unicode : Unicode) (lib : UrlLib) (dsn : Str) : List Str :=
  match urlsplit lib dsn with
  | some parsed => queryValues unicode (Url.parseQsl parsed.query) "port".toList
  | none => []

/-- The port of the authority, if it names one. -/
def authorityPort (lib : UrlLib) (dsn : Str) : Option Nat :=
  ((urlsplit lib dsn).bind SplitResult.port).join

/-- The first port of the parameters, each of which may list several. -/
def firstPort (decimal : Char → Option Nat) (parameters : List Str) : Option Int :=
  (parameters.flatMap (split ',')).head?.bind fun text => PyInt.parseInt decimal (strip text)

/-- A port that can be connected to, if there is one, taken from where it is said to be. -/
structure PortUsable (decimal : Char → Option Nat) (parameters : List Str)
    (authority port : Option Nat) : Prop where
  range : ∀ n ∈ port, 1 ≤ n ∧ n ≤ 65535
  source : port.map Nat.cast =
    if parameters ≠ [] then firstPort decimal parameters else authority.map Nat.cast

/-! ## The parameters -/

section
variable {Ip : Type} {net : StdNet Ip}

theorem validateQueryPort_ok {value : Str} {port : Nat}
    (h : validateQueryPort net value = .ok port) :
    net.parseInt (strip value) = some (port : Int) ∧ 1 ≤ port ∧ port ≤ 65535 := by
  unfold validateQueryPort at h
  split_ifs at h with hblank
  · exact absurd h fail_ne_ok
  cases hint : net.parseInt (strip value) with
  | none =>
      rw [hint] at h
      exact absurd h fail_ne_ok
  | some n =>
      simp only [hint] at h
      split_ifs at h with hrange
      · exact absurd h fail_ne_ok
      · obtain rfl := Except.ok.inj h
        push Not at hrange
        have hcast : ((n.toNat : Nat) : Int) = n := Int.toNat_of_nonneg (by omega)
        refine ⟨by rw [hcast], ?_, ?_⟩ <;> omega

/-- If a parameter is given its first port is returned, and it is in range. -/
theorem validateQueryPorts_ok {values : List Str} {port : Option Nat}
    (h : validateQueryPorts net values = .ok port) :
    (values = [] ∧ port = none) ∨
      ∃ text rest n, values.flatMap (split ',') = text :: rest ∧ port = some n ∧
        net.parseInt (strip text) = some (n : Int) ∧ 1 ≤ n ∧ n ≤ 65535 := by
  unfold validateQueryPorts at h
  obtain ⟨ports, hports, h⟩ := bind_eq_ok.mp h
  obtain rfl := Except.ok.inj h
  have hall := mapM_eq_ok.mp hports
  cases values with
  | nil =>
      rw [List.flatMap_nil, List.forall₂_nil_left_iff] at hall
      subst hall
      exact .inl ⟨rfl, rfl⟩
  | cons value values =>
      right
      cases hparts : (value :: values).flatMap (split ',') with
      | nil =>
          -- a text has at least one part
          have hnil : split ',' value = [] :=
            List.flatMap_eq_nil_iff.mp hparts value List.mem_cons_self
          exact absurd hnil (List.splitOn_ne_nil ',' value)
      | cons text rest =>
          rw [hparts] at hall
          obtain ⟨n, ports', hfirst, -, rfl⟩ := List.forall₂_cons_left_iff.mp hall
          obtain ⟨hint, hrange⟩ := validateQueryPort_ok hfirst
          exact ⟨text, rest, n, rfl, rfl, hint, hrange⟩

end

/-! ## The port -/

variable {unicode : Unicode} {lib : UrlLib} {decimal : Char → Option Nat}
variable {Ip : Type} [DecidableEq Ip] {addresses : StdNet Ip}
variable {setting : Str} {resolver : Resolver} {dsn : Str} {target : ValidatedDsnTarget}

/-- Where the port of an accepted connection string comes from. -/
theorem port_of_accepted
    (h : validatePostgresDsnTarget unicode (withUrls unicode lib decimal addresses) setting
      resolver dsn = .ok target) :
    ∃ override, validateQueryPorts (withUrls unicode lib decimal addresses)
        (portParameters unicode lib dsn) = .ok override ∧
      target.port = override.or (authorityPort lib dsn) := by
  unfold validatePostgresDsnTarget at h
  cases hsplit : urlsplit lib dsn with
  | none => simp [withUrls, urlparse, hsplit] at h
  | some parsed =>
  have hparsed : (withUrls unicode lib decimal addresses).urlparse dsn =
      some ⟨parsed.scheme, parsed.hostname unicode, parsed.port, parsed.query⟩ := by
    simp [withUrls, urlparse, hsplit]
  have hpairs : (withUrls unicode lib decimal addresses).parseQsl parsed.query =
      some (Url.parseQsl parsed.query) := rfl
  simp only [hparsed] at h
  split_ifs at h with hscheme
  case neg => exact absurd h fail_ne_ok
  cases hhost : (parsed.hostname unicode).filter (· ≠ []) with
  | none =>
      simp only [hhost] at h
      exact absurd h fail_ne_ok
  | some host =>
  cases hport : parsed.port with
  | none =>
      simp only [hhost, hport] at h
      exact absurd h fail_ne_ok
  | some urlPort =>
  simp only [hhost, hport, hpairs] at h
  obtain ⟨override, hoverride, h⟩ := bind_eq_ok.mp h
  obtain ⟨primary, -, h⟩ := bind_eq_ok.mp h
  obtain ⟨hostValues, -, h⟩ := bind_eq_ok.mp h
  obtain ⟨queryHosts, -, h⟩ := bind_eq_ok.mp h
  obtain ⟨hostaddrValues, -, h⟩ := bind_eq_ok.mp h
  obtain ⟨queryHostaddrs, -, h⟩ := bind_eq_ok.mp h
  obtain rfl := Except.ok.inj h
  have hparameters : portParameters unicode lib dsn =
      queryValues unicode (Url.parseQsl parsed.query) "port".toList := by
    unfold portParameters
    rw [hsplit]
  have hauthority : authorityPort lib dsn = urlPort := by
    unfold authorityPort
    rw [hsplit, Option.bind_some, hport]
    rfl
  rw [hparameters, hauthority]
  exact ⟨override, hoverride, rfl⟩

theorem authorityPort_le {n : Nat} (h : authorityPort lib dsn = some n) : n ≤ 65535 := by
  unfold authorityPort at h
  cases hsplit : urlsplit lib dsn with
  | none =>
      rw [hsplit] at h
      exact nomatch h
  | some parsed =>
      rw [hsplit, Option.bind_some, Option.join_eq_some_iff] at h
      exact SplitResult.port_le h

/-- **Only the port 0 of an authority is wrong**, and only where no parameter overrides it. -/
theorem port_usable_iff
    (h : validatePostgresDsnTarget unicode (withUrls unicode lib decimal addresses) setting
      resolver dsn = .ok target) :
    PortUsable decimal (portParameters unicode lib dsn) (authorityPort lib dsn) target.port ↔
      portParameters unicode lib dsn ≠ [] ∨ authorityPort lib dsn ≠ some 0 := by
  obtain ⟨override, hoverride, hport⟩ := port_of_accepted h
  rcases validateQueryPorts_ok hoverride with ⟨hnone, rfl⟩ | hgiven
  · have hport : target.port = authorityPort lib dsn := hport
    rw [hport, hnone]
    constructor
    · rintro ⟨hrange, -⟩
      right
      intro hzero
      exact absurd (hrange 0 hzero).1 (by decide)
    · rintro (habs | hzero)
      · exact absurd rfl habs
      · refine ⟨fun n hn => ⟨?_, authorityPort_le hn⟩, by rw [if_neg (by simp)]⟩
        by_contra hsmall
        obtain rfl : n = 0 := by omega
        exact hzero hn
  · obtain ⟨text, rest, n, hparts, rfl, hint, hrange⟩ := hgiven
    have hport : target.port = some n := hport
    have hne : portParameters unicode lib dsn ≠ [] := by
      intro hnil
      rw [hnil] at hparts
      exact nomatch hparts
    have hfirst : firstPort decimal (portParameters unicode lib dsn) = some (n : Int) := by
      unfold firstPort
      rw [hparts]
      exact hint
    rw [hport]
    refine ⟨fun _ => .inl hne, fun _ => ⟨?_, ?_⟩⟩
    · intro m hm
      obtain rfl := Option.some.inj hm
      exact hrange
    · rw [if_pos hne, hfirst]
      rfl

/-- A library without IPv6, for texts of ASCII. -/
def plainUrlLib : UrlLib := ⟨fun _ => false, id⟩

theorem port_usable_iff_parameter :
    let dsn := "postgres://8.8.8.8:0/app?port=6432,5432".toList
    PortUsable (fun _ => none) (portParameters asciiUnicode plainUrlLib dsn)
        (authorityPort plainUrlLib dsn) (some 6432) ↔
      portParameters asciiUnicode plainUrlLib dsn ≠ [] ∨ authorityPort plainUrlLib dsn ≠ some 0 :=
  have haccepted : validatePostgresDsnTarget asciiUnicode
      (withUrls asciiUnicode plainUrlLib (fun _ => none) oneHostNet) "8.8.8.8".toList
      oneHostResolver "postgres://8.8.8.8:0/app?port=6432,5432".toList =
        .ok ⟨"8.8.8.8".toList, ["8.8.8.8".toList], some 6432⟩ := by decide +kernel
  port_usable_iff haccepted

/-- The port 0 of the authority is returned. -/
theorem port_zero_accepted :
    let dsn := "postgres://8.8.8.8:0/app".toList
    validatePostgresDsnTarget asciiUnicode
        (withUrls asciiUnicode plainUrlLib (fun _ => none) oneHostNet) "8.8.8.8".toList
        oneHostResolver dsn = .ok ⟨"8.8.8.8".toList, ["8.8.8.8".toList], some 0⟩ ∧
      ¬ PortUsable (fun _ => none) (portParameters asciiUnicode plainUrlLib dsn)
        (authorityPort plainUrlLib dsn) (some 0) := by
  refine ⟨by decide +kernel, ?_⟩
  rintro ⟨hrange, -⟩
  exact absurd (hrange 0 rfl).1 (by decide)

end PgErdCloud.Introspect
