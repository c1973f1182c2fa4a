/-
  The parts of Python's `urllib.parse` that read the authority of a URL and that quote and
  unquote a text.

  A byte is a number. The texts have no surrogates, so encoding never fails.
-/
import PgErdCloud.Lib.Cut
import PgErdCloud.Lib.PyInt

namespace PgErdCloud.Lib.Url

open PyStr

/-! ## UTF-8 -/

/-- The bytes of a text. -/
def utf8 (s : Str) : List Nat :=
  s.flatMap fun ch => (String.utf8EncodeChar ch).map UInt8.toNat

/-- A sequence that has begun: how many bytes it still needs, the range of the next one, and
    the value so far. -/
structure Pending where
  more : Nat
  low : Nat
  high : Nat
  value : Nat

/-- The sequence that a byte begins, which says how long it is. -/
def Pending.ofLead (b : Nat) : Option Pending :=
  if 0xC2 ≤ b && b ≤ 0xDF then some ⟨1, 0x80, 0xBF, b - 0xC0⟩
  else if b = 0xE0 then some ⟨2, 0xA0, 0xBF, 0⟩
  else if b = 0xED then some ⟨2, 0x80, 0x9F, 0xD⟩
  else if 0xE1 ≤ b && b ≤ 0xEF then some ⟨2, 0x80, 0xBF, b - 0xE0⟩
  else if b = 0xF0 then some ⟨3, 0x90, 0xBF, 0⟩
  else if b = 0xF4 then some ⟨3, 0x80, 0x8F, 4⟩
  else if 0xF1 ≤ b && b ≤ 0xF3 then some ⟨3, 0x80, 0xBF, b - 0xF0⟩
  else none

/-- What stands for bytes that are no UTF-8. -/
def replacementChar : Char := '\ufffd'

/-- What a byte gives that does not continue a sequence. -/
def decodeLead (b : Nat) : Str × Option Pending :=
  if b < 0x80 then ([Char.ofNat b], none)
  else match Pending.ofLead b with
    | some pending => ([], some pending)
    | none => ([replacementChar], none)

/-- `bytes.decode("utf-8", errors="replace")`, within a sequence: one character takes the place
    of the longest part that could have begun a sequence. -/
def decodeFrom : Option Pending → List Nat → Str
  | none, [] => []
  | some _, [] => [replacementChar]
  | none, b :: bytes => (decodeLead b).1 ++ decodeFrom (decodeLead b).2 bytes
  | some pending, b :: bytes =>
      if pending.low ≤ b && b ≤ pending.high then
        let value := pending.value * 64 + (b - 0x80)
        if pending.more ≤ 1 then Char.ofNat value :: decodeFrom none bytes
        else decodeFrom (some ⟨pending.more - 1, 0x80, 0xBF, value⟩) bytes
      else replacementChar :: ((decodeLead b).1 ++ decodeFrom (decodeLead b).2 bytes)

/-- `bytes.decode("utf-8", "replace")` -/
def decode (bytes : List Nat) : Str := decodeFrom none bytes

/-! ## Quoting -/

/-- A digit of a percent escape, as it is written. -/
def hexDigit (n : Nat) : Char := ("0123456789ABCDEF".toList).getD n '0'

/-- The value of such a digit, in either letter case. -/
def hexValue (ch : Char) : Option Nat :=
  if ch.isDigit then some (ch.toNat - '0'.toNat)
  else if 'a' ≤ ch ∧ ch ≤ 'f' then some (ch.toNat - 'a'.toNat + 10)
  else if 'A' ≤ ch ∧ ch ≤ 'F' then some (ch.toNat - 'A'.toNat + 10)
  else none

/-- `_ALWAYS_SAFE` -/
def alwaysSafe (ch : Char) : Bool := ch.isAlphanum || ch ∈ "_.-~".toList

/-- `quote(s, safe)`; the text `safe` is of ASCII. -/
def quote (s safe : Str) : Str :=
  (utf8 s).flatMap fun b =>
    if b < 0x80 && (alwaysSafe (Char.ofNat b) || Char.ofNat b ∈ safe) then [Char.ofNat b]
    else ['%', hexDigit (b / 16), hexDigit (b % 16)]

/-- `quote_plus(s, safe)` -/
def quotePlus (s safe : Str) : Str :=
  if ' ' ∈ s then replaceChar ' ' ['+'] (quote s (safe ++ [' '])) else quote s safe

/-- `_unquote_impl` on a text of ASCII. -/
def unquoteToBytes : Str → List Nat
  | [] => []
  | '%' :: a :: b :: s =>
      match hexValue a, hexValue b with
      | some high, some low => (high * 16 + low) :: unquoteToBytes s
      | _, _ => '%'.toNat :: unquoteToBytes (a :: b :: s)
  | ch :: s => ch.toNat :: unquoteToBytes s

/-- `_generate_unquoted_parts`: only the parts of ASCII are decoded. -/
def unquotedParts (s : Str) : List Str :=
  (s.splitBy fun a b => (a.toNat < 128) = (b.toNat < 128)).map fun part =>
    if isAscii part then decode (unquoteToBytes part) else part

/-- `unquote(s)` -/
def unquote (s : Str) : Str := if '%' ∈ s then (unquotedParts s).flatten else s

/-- `unquote_plus(s)` -/
def unquotePlus (s : Str) : Str := unquote (replaceChar '+' [' '] s)

/-! ## Splitting a URL -/

/-- The standard library's reading of an IPv6 address, and its Unicode normal form. -/
structure UrlLib where
  isIpv6Address : Str → Bool
  nfkc : Str → Str

/-- What `urlsplit` gives. -/
structure SplitResult where
  scheme : Str
  netloc : Str
  path : Str
  query : Str
  fragment : Str

/-- `_WHATWG_C0_CONTROL_OR_SPACE` -/
def isC0ControlOrSpace (ch : Char) : Bool := ch.toNat ≤ 0x20

/-- `_UNSAFE_URL_BYTES_TO_REMOVE` -/
def unsafeToRemove : Str := ['\t', '\r', '\n']

/-- `scheme_chars` -/
def isSchemeChar (ch : Char) : Bool := ch.isAlphanum || ch ∈ "+-.".toList

/-- The scheme of a URL, and the URL behind it. -/
def splitScheme (url : Str) : Str × Str :=
  match cutAt ":".toList url with
  | some (before, after) =>
      if before.head?.any Char.isAlpha && before.all isSchemeChar then
        (before.map Char.toLower, after)
      else ([], url)
  | none => ([], url)

/-- `_splitnetloc(url, start)` behind the start -/
def splitNetloc (url : Str) : Str × Str := url.span (· ∉ "/?#".toList)

/-- `_check_bracketed_host` accepts the host. -/
def bracketedHostOk (lib : UrlLib) : Str → Bool
  | 'v' :: s =>
      let version := s.takeWhile fun ch => (hexValue ch).isSome
      match s.dropWhile fun ch => (hexValue ch).isSome with
      | '.' :: rest => version ≠ [] && rest ≠ [] && '\n' ∉ rest
      | _ => false
  | hostname => lib.isIpv6Address hostname

/-- `_check_bracketed_netloc` accepts the authority. -/
def bracketedNetlocOk (lib : UrlLib) (netloc : Str) : Bool :=
  let hostnameAndPort := ((cutAtLast '@' netloc).map Prod.snd).getD netloc
  match cutAt ['['] hostnameAndPort with
  | some (beforeBracket, bracketed) =>
      let (hostname, port) := partition ']' bracketed
      beforeBracket = [] && (port = [] || startsWith port ":".toList) &&
        bracketedHostOk lib hostname
  | none => bracketedHostOk lib (partition ':' hostnameAndPort).1

/-- `_checknetloc` accepts the authority. -/
def netlocOk (lib : UrlLib) (netloc : Str) : Bool :=
  let n := netloc.filter (· ∉ "@:#?".toList)
  isAscii netloc || n = lib.nfkc n || (lib.nfkc n).all (· ∉ "/?#@:".toList)

/-- `urlsplit(url)`; `none` where it raises `ValueError`. -/
def urlsplit (lib : UrlLib) (url : Str) : Option SplitResult :=
  let url := (url.dropWhile isC0ControlOrSpace).filter (· ∉ unsafeToRemove)
  let (scheme, url) := splitScheme url
  let (netloc, url) :=
    if startsWith url "//".toList then splitNetloc (url.drop 2) else ([], url)
  let (url, fragment) := partition '#' url
  let (path, query) := partition '?' url
  if decide ('[' ∈ netloc) = decide (']' ∈ netloc) ∧
      ('[' ∈ netloc → bracketedNetlocOk lib netloc = true) ∧ netlocOk lib netloc = true then
    some ⟨scheme, netloc, path, query, fragment⟩
  else none

/-- The property `password` of a result. -/
def SplitResult.password (parsed : SplitResult) : Option Str :=
  (cutAtLast '@' parsed.netloc).bind fun cut => (cutAt [':'] cut.1).map Prod.snd

/-- `_hostinfo`: the host and the port as they are written. -/
def SplitResult.hostinfo (parsed : SplitResult) : Str × Str :=
  let hostinfo := ((cutAtLast '@' parsed.netloc).map Prod.snd).getD parsed.netloc
  match cutAt ['['] hostinfo with
  | some (_, bracketed) =>
      let (hostname, port) := partition ']' bracketed
      (hostname, (partition ':' port).2)
  | none => partition ':' hostinfo

/-- The property `hostname`; a zone behind `%` keeps its case. -/
def SplitResult.hostname (unicode : Unicode) (parsed : SplitResult) : Option Str :=
  let hostname := parsed.hostinfo.1
  if hostname = [] then none
  else match cutAt ['%'] hostname with
    | some (address, zone) => some (unicode.lower address ++ '%' :: zone)
    | none => some (unicode.lower hostname)

/-- The property `port`; the outer `none` is the `ValueError`. -/
def SplitResult.port (parsed : SplitResult) : Option (Option Nat) :=
  let port := parsed.hostinfo.2
  if port = [] then some none
  else if port.all Char.isDigit then
    match PyInt.unsigned (fun _ => none) port with
    | some n => if n ≤ 65535 then some (some n) else none
    | none => none
  else none

/-- `parse_qsl(query, keep_blank_values=True)` -/
def parseQsl (query : Str) : List (Str × Str) :=
  ((split '&' query).filter (· ≠ [])).map fun nameValue =>
    let (name, value) := partition '=' nameValue
    (unquotePlus name, unquotePlus value)

/-! ## The authority -/

theorem SplitResult.port_le {parsed : SplitResult} {n : Nat}
    (h : parsed.port = some (some n)) : n ≤ 65535 := by
  simp only [SplitResult.port] at h
  split_ifs at h
  · exact nomatch h
  · split at h
    · split_ifs at h with hle
      exact (Option.some.inj (Option.some.inj h)) ▸ hle
    · exact nomatch h

theorem splitNetloc_append {netloc : Str} (rest : Str)
    (h : ∀ ch ∈ netloc, ch ∉ "/?#".toList) :
    splitNetloc (netloc ++ rest) =
      (netloc ++ (splitNetloc rest).1, (splitNetloc rest).2) := by
  have hall : ∀ ch ∈ netloc, decide (ch ∉ "/?#".toList) = true := fun ch hch =>
    decide_eq_true (h ch hch)
  rw [splitNetloc, splitNetloc, List.span_eq_takeWhile_dropWhile,
    List.span_eq_takeWhile_dropWhile, List.takeWhile_append_of_pos hall,
    List.dropWhile_append_of_pos hall]

theorem mem_of_mem_splitNetloc {ch : Char} {s : Str} (h : ch ∈ (splitNetloc s).1) : ch ∈ s := by
  rw [splitNetloc, List.span_eq_takeWhile_dropWhile] at h
  exact (List.takeWhile_prefix _).mem h

/-- A URL without the characters that are removed before it is split. -/
def clean (url : Str) : Str := url.filter (· ∉ unsafeToRemove)

/-- The scheme is one that `urlsplit` knows as such. -/
def schemeOk (scheme : Str) : Bool := scheme.head?.any Char.isAlpha && scheme.all isSchemeChar

/-- The first character of the text, if there is one, and each character meet the conditions
    under which a text before `://` is kept whole. -/
def KeptScheme (scheme : Str) : Prop :=
  ∀ ch ∈ scheme, isC0ControlOrSpace ch = false ∧ ch ∉ ":/".toList

theorem KeptScheme.clean_append {scheme : Str} (h : KeptScheme scheme) (rest : Str) :
    ((scheme ++ ("://".toList ++ rest)).dropWhile isC0ControlOrSpace).filter
      (· ∉ unsafeToRemove) = scheme ++ ("://".toList ++ clean rest) := by
  have hdrop : (scheme ++ ("://".toList ++ rest)).dropWhile isC0ControlOrSpace =
      scheme ++ ("://".toList ++ rest) := by
    cases scheme with
    | nil => rfl
    | cons ch scheme =>
        rw [List.cons_append, List.dropWhile_cons_of_neg]
        rw [(h ch List.mem_cons_self).1]
        decide
  have hscheme : scheme.filter (· ∉ unsafeToRemove) = scheme := by
    rw [List.filter_eq_self]
    intro ch hch
    have hc := (h ch hch).1
    rw [decide_eq_true_iff]
    intro hmem
    have hlow : ∀ c ∈ unsafeToRemove, isC0ControlOrSpace c = true := by
      simp [unsafeToRemove, isC0ControlOrSpace]
    rw [hlow ch hmem] at hc
    exact absurd hc (by decide)
  rw [hdrop, List.filter_append, hscheme]
  rfl

/-- **The authority** of a URL whose scheme is known stands up to the first delimiter; of
    another URL it is empty. -/
theorem netloc_of_urlsplit {lib : UrlLib} {scheme rest : Str} {parsed : SplitResult}
    (hkept : KeptScheme scheme)
    (h : urlsplit lib (scheme ++ ("://".toList ++ rest)) = some parsed) :
    parsed.netloc = if schemeOk scheme then (splitNetloc (clean rest)).1 else [] := by
  have hcolon : ':' ∉ scheme := fun hm => (hkept _ hm).2 (by decide)
  have hcut : cutAt ":".toList (scheme ++ ("://".toList ++ clean rest)) =
      some (scheme, "//".toList ++ clean rest) :=
    cutAt_char_append ("//".toList ++ clean rest) hcolon
  unfold urlsplit at h
  rw [hkept.clean_append] at h
  have hscheme : splitScheme (scheme ++ ("://".toList ++ clean rest)) =
      if schemeOk scheme then (scheme.map Char.toLower, "//".toList ++ clean rest)
      else ([], scheme ++ ("://".toList ++ clean rest)) := by
    rw [splitScheme, hcut]
    rfl
  simp only [hscheme] at h
  by_cases hok : schemeOk scheme = true
  · rw [if_pos hok]
    have hstart : startsWith ("//".toList ++ clean rest) "//".toList = true := rfl
    simp only [hok, if_true, hstart] at h
    split_ifs at h
    obtain rfl := Option.some.inj h
    rfl
  · rw [if_neg hok]
    have hstart : startsWith (scheme ++ ("://".toList ++ clean rest)) "//".toList = false := by
      cases scheme with
      | nil => rfl
      | cons ch scheme =>
          have hch : '/' ≠ ch := fun he => (hkept ch List.mem_cons_self).2 (he ▸ by decide)
          simp [startsWith, List.isPrefixOf, hch]
    simp only [hok, Bool.false_eq_true, if_false, hstart] at h
    split_ifs at h
    obtain rfl := Option.some.inj h
    rfl

end PgErdCloud.Lib.Url
