/-
  The tokens against cross-site request forgery (app/csrf.py). The HMAC is a parameter: a
  function of the key and the message.

  `csrf_verification_exact_iff` says for every token, secret and time what is verified, and that a
  generated token is verified while it lasts. Nothing is assumed of the HMAC.
-/
import PgErdCloud.Lib.Base64
import PgErdCloud.Lib.Cut
import PgErdCloud.Lib.PyInt
import PgErdCloud.Lib.Utf8

namespace PgErdCloud.Auth

open Lib Lib.PyStr

/-! ## Tokens -/

/-- HMAC-SHA-256, from the key and the message to the digest. -/
abbrev Hmac := List UInt8 → List UInt8 → List UInt8

/-- What is raised instead of an answer. -/
inductive CsrfError
  | unicodeEncodeError
  deriving DecidableEq

/-- `s.encode("ascii")` -/
def encodeAscii (s : Str) : Except CsrfError (List UInt8) :=
  if isAscii s then .ok (encodeUtf8 s) else .error .unicodeEncodeError

/-- `_base64url_encode`: without the padding. -/
def base64urlEncode (value : List UInt8) : Str :=
  rstripChars ['='] (Base64.urlsafeB64encode value)

/-- `none` for the `binascii.Error` or `ValueError`. -/
def base64urlDecode (value : Str) : Option (List UInt8) :=
  Base64.urlsafeB64decode (value ++ Base64.padding value.length)

/-- The text that is signed. -/
def signedText (issuedAt nonce : Str) : Str := issuedAt ++ '.' :: nonce

section
variable (hmac : Hmac)

/-- `_csrf_signature`: the digest of time and nonce under the secret. -/
def csrfSignature (secret issuedAt nonce : Str) : Except CsrfError (List UInt8) :=
  (encodeAscii (signedText issuedAt nonce)).map (hmac (encodeUtf8 secret))

/-- `generate_csrf_token` with the bytes of `secrets.token_bytes`; `none` for a time that `str`
    refuses. -/
def generateCsrfToken (secret : Str) (now : Int) (nonceBytes : List UInt8) :
    Option (Except CsrfError Str) :=
  (PyInt.strInt now).map fun issuedAt => do
    let nonce := base64urlEncode nonceBytes
    let signature ← csrfSignature hmac secret issuedAt nonce
    pure (issuedAt ++ '.' :: (nonce ++ '.' :: base64urlEncode signature))

/-- `verify_csrf_token` at the time `now`. -/
def verifyCsrfToken (decimal : Char → Option Nat) (token secret : Str) (ttlSeconds now : Int) :
    Except CsrfError Bool :=
  match split '.' token with
  | [issuedAt, nonce, signature] =>
      match PyInt.parseInt decimal issuedAt, base64urlDecode signature with
      | some issuedAtInt, some signatureBytes =>
          if now - issuedAtInt > ttlSeconds ∨ issuedAtInt > now then .ok false
          -- outside of the `try`
          else (csrfSignature hmac secret issuedAt nonce).map (signatureBytes == ·)
      | _, _ => .ok false
  | _ => .ok false

end

/-! ## What a valid token is -/

/-- The token has three parts, was issued not before the time to live, and its last part is the
    signature of the others. -/
def IsValid (hmac : Hmac) (decimal : Char → Option Nat) (token secret : Str)
    (ttlSeconds now : Int) : Prop :=
  ∃ issuedAt nonce signature issuedAtInt,
    token = issuedAt ++ '.' :: (nonce ++ '.' :: signature) ∧
    '.' ∉ issuedAt ∧ '.' ∉ nonce ∧ '.' ∉ signature ∧
    PyInt.parseInt decimal issuedAt = some issuedAtInt ∧
    0 ≤ now - issuedAtInt ∧ now - issuedAtInt ≤ ttlSeconds ∧
    base64urlDecode signature =
      some (hmac (encodeUtf8 secret) (encodeUtf8 (signedText issuedAt nonce)))

/-- The verification answers, and it answers rightly. -/
def Verifies (hmac : Hmac) (decimal : Char → Option Nat) (token secret : Str)
    (ttlSeconds now : Int) : Prop :=
  (verifyCsrfToken hmac decimal token secret ttlSeconds now = .ok true ∧
    IsValid hmac decimal token secret ttlSeconds now) ∨
  (verifyCsrfToken hmac decimal token secret ttlSeconds now = .ok false ∧
    ¬ IsValid hmac decimal token secret ttlSeconds now)

/-- If the time of the token is right and its signature can be decoded, then what was signed is
    text of ASCII. -/
def SignedAscii (decimal : Char → Option Nat) (token : Str) (ttlSeconds now : Int) : Prop :=
  ∀ issuedAt nonce signature issuedAtInt, split '.' token = [issuedAt, nonce, signature] →
    PyInt.parseInt decimal issuedAt = some issuedAtInt →
    (base64urlDecode signature).isSome = true →
    0 ≤ now - issuedAtInt → now - issuedAtInt ≤ ttlSeconds →
    isAscii issuedAt = true ∧ isAscii nonce = true

/-! ## Parts -/

theorem join_three (a b c : Str) :
    join ['.'] [a, b, c] = a ++ '.' :: (b ++ '.' :: c) := by
  rw [join_cons_cons, join_cons_cons]
  simp [join]

theorem split_three {a b c : Str} (ha : '.' ∉ a) (hb : '.' ∉ b) (hc : '.' ∉ c) :
    split '.' (a ++ '.' :: (b ++ '.' :: c)) = [a, b, c] := by
  rw [← join_three]
  refine split_join ?_ (List.cons_ne_nil _ _)
  simp only [List.forall_mem_cons]
  exact ⟨ha, hb, hc, fun _ hm => nomatch hm⟩

theorem of_split_three {token a b c : Str} (h : split '.' token = [a, b, c]) :
    token = a ++ '.' :: (b ++ '.' :: c) ∧ '.' ∉ a ∧ '.' ∉ b ∧ '.' ∉ c := by
  have hparts : ∀ part ∈ [a, b, c], '.' ∉ part := fun part hm =>
    not_mem_of_mem_split (h ▸ hm)
  refine ⟨?_, hparts a ?_, hparts b ?_, hparts c ?_⟩
  · rw [← join_three, ← h, join_split]
  · simp
  · simp
  · simp

/-! ## The verification is right -/

theorem isAscii_signedText (issuedAt nonce : Str) :
    isAscii (signedText issuedAt nonce) = (isAscii issuedAt && isAscii nonce) := by
  have hdot : decide ('.'.toNat < 128) = true := by decide
  unfold isAscii signedText
  rw [List.all_append, List.all_cons, hdot, Bool.true_and]

section
variable (hmac : Hmac) (decimal : Char → Option Nat) (secret : Str) (ttlSeconds now : Int)
variable {token issuedAt nonce signature : Str}

/-- What is valid of a token whose parts are known. -/
theorem isValid_iff (hsplit : split '.' token = [issuedAt, nonce, signature]) :
    IsValid hmac decimal token secret ttlSeconds now ↔
      ∃ issuedAtInt, PyInt.parseInt decimal issuedAt = some issuedAtInt ∧
        0 ≤ now - issuedAtInt ∧ now - issuedAtInt ≤ ttlSeconds ∧
        base64urlDecode signature =
          some (hmac (encodeUtf8 secret) (encodeUtf8 (signedText issuedAt nonce))) := by
  obtain ⟨htoken, hi, hn, hs⟩ := of_split_three hsplit
  constructor
  · rintro ⟨issuedAt', nonce', signature', issuedAtInt, htoken', hi', hn', hs', hvalid⟩
    rw [htoken', split_three hi' hn' hs'] at hsplit
    obtain ⟨rfl, rfl, rfl⟩ :
        issuedAt' = issuedAt ∧ nonce' = nonce ∧ signature' = signature := by
      simpa using hsplit
    exact ⟨issuedAtInt, hvalid⟩
  · rintro ⟨issuedAtInt, hvalid⟩
    exact ⟨issuedAt, nonce, signature, issuedAtInt, htoken, hi, hn, hs, hvalid⟩

/-- A token that does not have three parts is not valid. -/
theorem not_isValid_of_split
    (hsplit : ∀ issuedAt nonce signature, split '.' token ≠ [issuedAt, nonce, signature]) :
    ¬ IsValid hmac decimal token secret ttlSeconds now := by
  rintro ⟨issuedAt, nonce, signature, issuedAtInt, rfl, hi, hn, hs, -⟩
  exact hsplit issuedAt nonce signature (split_three hi hn hs)

theorem signedAscii_iff (hsplit : split '.' token = [issuedAt, nonce, signature]) :
    SignedAscii decimal token ttlSeconds now ↔
      ∀ issuedAtInt, PyInt.parseInt decimal issuedAt = some issuedAtInt →
        (base64urlDecode signature).isSome = true →
        0 ≤ now - issuedAtInt → now - issuedAtInt ≤ ttlSeconds →
        isAscii issuedAt = true ∧ isAscii nonce = true := by
  constructor
  · intro h issuedAtInt
    exact h issuedAt nonce signature issuedAtInt hsplit
  · intro h issuedAt' nonce' signature' issuedAtInt hsplit'
    obtain ⟨rfl, rfl, rfl⟩ :
        issuedAt = issuedAt' ∧ nonce = nonce' ∧ signature = signature' := by
      simpa using hsplit.symm.trans hsplit'
    exact h issuedAtInt

/-- What the verification does with a token of three parts. -/
theorem verifyCsrfToken_of_split (hsplit : split '.' token = [issuedAt, nonce, signature]) :
    verifyCsrfToken hmac decimal token secret ttlSeconds now =
      match PyInt.parseInt decimal issuedAt, base64urlDecode signature with
      | some issuedAtInt, some signatureBytes =>
          if now - issuedAtInt > ttlSeconds ∨ issuedAtInt > now then .ok false
          else (csrfSignature hmac secret issuedAt nonce).map (signatureBytes == ·)
      | _, _ => .ok false := by
  unfold verifyCsrfToken
  rw [hsplit]

theorem csrfSignature_of_ascii (h : isAscii (signedText issuedAt nonce) = true) :
    csrfSignature hmac secret issuedAt nonce =
      .ok (hmac (encodeUtf8 secret) (encodeUtf8 (signedText issuedAt nonce))) := by
  unfold csrfSignature encodeAscii
  rw [if_pos h]
  rfl

theorem csrfSignature_of_not_ascii (h : isAscii (signedText issuedAt nonce) = false) :
    csrfSignature hmac secret issuedAt nonce = .error .unicodeEncodeError := by
  unfold csrfSignature encodeAscii
  rw [if_neg (by rw [h]; exact Bool.false_ne_true)]
  rfl

/-- The verification is right about a token that it rejects before the signature. -/
theorem verifies_of_rejected {hmac : Hmac} {decimal : Char → Option Nat}
    {token secret : Str} {ttlSeconds now : Int}
    (hfalse : verifyCsrfToken hmac decimal token secret ttlSeconds now = .ok false)
    (hinvalid : ¬ IsValid hmac decimal token secret ttlSeconds now) :
    Verifies hmac decimal token secret ttlSeconds now := .inr ⟨hfalse, hinvalid⟩

theorem verifies_iff_of_split (hsplit : split '.' token = [issuedAt, nonce, signature])
    {issuedAtInt : Int} (hint : PyInt.parseInt decimal issuedAt = some issuedAtInt)
    {signatureBytes : List UInt8} (hbytes : base64urlDecode signature = some signatureBytes)
    (htime : 0 ≤ now - issuedAtInt ∧ now - issuedAtInt ≤ ttlSeconds) :
    Verifies hmac decimal token secret ttlSeconds now ↔
      isAscii issuedAt = true ∧ isAscii nonce = true := by
  have hverify := verifyCsrfToken_of_split hmac decimal secret ttlSeconds now hsplit
  have hpassed : ¬ (now - issuedAtInt > ttlSeconds ∨ issuedAtInt > now) := by omega
  rw [hint, hbytes] at hverify
  simp only [if_neg hpassed] at hverify
  have hvalid : IsValid hmac decimal token secret ttlSeconds now ↔
      signatureBytes = hmac (encodeUtf8 secret) (encodeUtf8 (signedText issuedAt nonce)) := by
    rw [isValid_iff hmac decimal secret ttlSeconds now hsplit, hint, hbytes]
    constructor
    · rintro ⟨n, -, -, -, heq⟩
      exact Option.some.inj heq
    · intro heq
      exact ⟨issuedAtInt, rfl, htime.1, htime.2, congrArg some heq⟩
  have hascii := isAscii_signedText issuedAt nonce
  cases hsigned : isAscii (signedText issuedAt nonce) with
  | true =>
      rw [csrfSignature_of_ascii hmac secret hsigned] at hverify
      have hanswer : verifyCsrfToken hmac decimal token secret ttlSeconds now =
          .ok (signatureBytes ==
            hmac (encodeUtf8 secret) (encodeUtf8 (signedText issuedAt nonce))) := hverify
      rw [hsigned, eq_comm, Bool.and_eq_true] at hascii
      refine ⟨fun _ => hascii, fun _ => ?_⟩
      by_cases heq : signatureBytes =
          hmac (encodeUtf8 secret) (encodeUtf8 (signedText issuedAt nonce))
      · left
        rw [hanswer, hvalid, beq_iff_eq.mpr heq]
        exact ⟨rfl, heq⟩
      · right
        rw [hanswer, hvalid, beq_eq_false_iff_ne.mpr heq]
        exact ⟨rfl, heq⟩
  | false =>
      rw [csrfSignature_of_not_ascii hmac secret hsigned] at hverify
      have hraised : verifyCsrfToken hmac decimal token secret ttlSeconds now =
          .error .unicodeEncodeError := hverify
      rw [hsigned, eq_comm] at hascii
      constructor
      · rintro (⟨h, -⟩ | ⟨h, -⟩)
        · rw [hraised] at h
          exact nomatch h
        · rw [hraised] at h
          exact nomatch h
      · rintro ⟨hi, hn⟩
        rw [hi, hn] at hascii
        exact absurd hascii (by decide)

/-- The verification answers rightly exactly when what was signed is ASCII. -/
theorem verifies_iff_signedAscii :
    Verifies hmac decimal token secret ttlSeconds now ↔
      SignedAscii decimal token ttlSeconds now := by
  by_cases hthree : ∃ issuedAt nonce signature, split '.' token = [issuedAt, nonce, signature]
  · obtain ⟨issuedAt, nonce, signature, hsplit⟩ := hthree
    have hverify := verifyCsrfToken_of_split hmac decimal secret ttlSeconds now hsplit
    have hvalid := isValid_iff hmac decimal secret ttlSeconds now hsplit
    have hsigned := signedAscii_iff decimal ttlSeconds now hsplit
    cases hint : PyInt.parseInt decimal issuedAt with
    | none =>
        rw [hint] at hverify hvalid hsigned
        refine iff_of_true (verifies_of_rejected hverify ?_) ?_
        · rw [hvalid]
          rintro ⟨n, hn, -⟩
          exact nomatch hn
        · rw [hsigned]
          intro n hn
          exact nomatch hn
    | some issuedAtInt =>
        cases hbytes : base64urlDecode signature with
        | none =>
            rw [hint, hbytes] at hverify
            rw [hbytes] at hvalid hsigned
            refine iff_of_true (verifies_of_rejected hverify ?_) ?_
            · rw [hvalid]
              rintro ⟨n, -, -, -, hn⟩
              exact nomatch hn
            · rw [hsigned]
              intro n _ hn
              exact nomatch hn
        | some signatureBytes =>
            by_cases htime : 0 ≤ now - issuedAtInt ∧ now - issuedAtInt ≤ ttlSeconds
            · have hiff := verifies_iff_of_split hmac decimal secret ttlSeconds now hsplit hint
                hbytes htime
              rw [hiff, hsigned]
              constructor
              · intro hascii _ _ _ _ _
                exact hascii
              · intro h
                exact h issuedAtInt hint (by rw [hbytes]; rfl) htime.1 htime.2
            · have hlate : now - issuedAtInt > ttlSeconds ∨ issuedAtInt > now := by omega
              rw [hint, hbytes] at hverify
              rw [hint] at hvalid hsigned
              simp only [if_pos hlate] at hverify
              refine iff_of_true (verifies_of_rejected hverify ?_) ?_
              · rw [hvalid]
                rintro ⟨n, hn, hlow, hhigh, -⟩
                obtain rfl := Option.some.inj hn
                exact htime ⟨hlow, hhigh⟩
              · rw [hsigned]
                intro n hn _ hlow hhigh
                obtain rfl := Option.some.inj hn
                exact absurd ⟨hlow, hhigh⟩ htime
  · push Not at hthree
    have hverify : verifyCsrfToken hmac decimal token secret ttlSeconds now = .ok false := by
      unfold verifyCsrfToken
      split
      · exact absurd ‹_› (hthree _ _ _)
      · rfl
    have hinvalid := not_isValid_of_split hmac decimal secret ttlSeconds now hthree
    refine iff_of_true (verifies_of_rejected hverify hinvalid) ?_
    intro i n s issuedAtInt hsplit
    exact absurd hsplit (hthree i n s)

end

/-! ## Generated tokens -/

theorem isAscii_of_forall {s : Str} (h : ∀ ch ∈ s, ch.toNat < 128) : isAscii s = true := by
  unfold isAscii
  rw [List.all_eq_true]
  intro ch hm
  exact decide_eq_true (h ch hm)

theorem map_toUrlsafe_padding (length : Nat) :
    (Base64.padding length).map Base64.toUrlsafe = Base64.padding length := by
  unfold Base64.padding
  rw [List.map_replicate]
  rfl

theorem mem_map_toUrlsafe_symbols {bytes : List UInt8} {ch : Char}
    (h : ch ∈ (Base64.symbols bytes).map Base64.toUrlsafe) :
    ch.toNat < 128 ∧ ch ≠ '=' ∧ ch ≠ '.' := by
  obtain ⟨c, hc, rfl⟩ := List.mem_map.mp h
  obtain ⟨n, hn, rfl⟩ := Base64.mem_symbols hc
  exact Base64.toUrlsafe_symbol n hn

/-- The padding is what is stripped. -/
theorem base64urlEncode_eq (bytes : List UInt8) :
    base64urlEncode bytes = (Base64.symbols bytes).map Base64.toUrlsafe := by
  unfold base64urlEncode Base64.urlsafeB64encode Base64.b64encode
  rw [List.map_append, map_toUrlsafe_padding]
  unfold rstripChars lstripChars Base64.padding
  rw [List.reverse_append, List.reverse_replicate]
  have hpad : ∀ n (s : Str), (List.replicate n '=' ++ s).dropWhile (· ∈ ['=']) =
      s.dropWhile (· ∈ ['=']) := by
    intro n s
    induction n with
    | zero => rfl
    | succ n ih =>
        rw [List.replicate_succ, List.cons_append, List.dropWhile_cons_of_pos (by simp), ih]
  have hsymbols : ∀ s : Str, (∀ ch ∈ s, ch ≠ '=') → s.dropWhile (· ∈ ['=']) = s := by
    intro s hs
    cases s with
    | nil => rfl
    | cons ch s =>
        have hne : ch ≠ '=' := hs ch List.mem_cons_self
        rw [List.dropWhile_cons_of_neg (by simpa using hne)]
  rw [hpad, hsymbols, List.reverse_reverse]
  intro ch hm
  exact (mem_map_toUrlsafe_symbols (List.mem_reverse.mp hm)).2.1

theorem base64urlDecode_encode (bytes : List UInt8) :
    base64urlDecode (base64urlEncode bytes) = some bytes := by
  have hascii : isAscii ((Base64.symbols bytes).map Base64.toUrlsafe ++
      Base64.padding (Base64.symbols bytes).length) = true := by
    refine isAscii_of_forall fun ch hm => ?_
    rcases List.mem_append.mp hm with hm | hm
    · exact (mem_map_toUrlsafe_symbols hm).1
    · rw [(List.mem_replicate.mp hm).2]
      decide
  have hback : ((Base64.symbols bytes).map Base64.toUrlsafe).map Base64.ofUrlsafe =
      Base64.symbols bytes := by
    rw [List.map_map]
    conv_rhs => rw [← List.map_id (Base64.symbols bytes)]
    refine List.map_congr_left fun ch hm => ?_
    obtain ⟨n, hn, rfl⟩ := Base64.mem_symbols hm
    exact Base64.urlsafe_symbol n hn
  have hpad : ∀ n, (Base64.padding n).map Base64.ofUrlsafe = Base64.padding n := by
    intro n
    unfold Base64.padding
    rw [List.map_replicate]
    rfl
  unfold base64urlDecode Base64.urlsafeB64decode
  rw [base64urlEncode_eq, List.length_map, if_pos hascii, List.map_append, hback, hpad]
  exact Base64.a2bBase64_b64encode bytes

/-- A number is written in ASCII, without a dot. -/
theorem strInt_chars {i : Int} {s : Str} (h : PyInt.strInt i = some s) :
    isAscii s = true ∧ '.' ∉ s := by
  constructor
  · refine isAscii_of_forall fun ch hm => ?_
    rcases PyInt.mem_strInt h ch hm with rfl | hdigit
    · decide
    · have := PyInt.isDigit_toNat hdigit
      omega
  · intro hm
    rcases PyInt.mem_strInt h '.' hm with heq | hdigit
    · exact absurd heq (by decide)
    · exact absurd hdigit (by decide)

/-- **A generated token verifies** until it expires. -/
theorem generated_verifies (hmac : Hmac) (decimal : Char → Option Nat) {secret : Str}
    {issued : Int} {nonceBytes : List UInt8} {result : Except CsrfError Str}
    (hgen : generateCsrfToken hmac secret issued nonceBytes = some result)
    {ttlSeconds now : Int} (hlow : 0 ≤ now - issued) (hhigh : now - issued ≤ ttlSeconds) :
    ∃ token, result = .ok token ∧
      verifyCsrfToken hmac decimal token secret ttlSeconds now = .ok true := by
  unfold generateCsrfToken at hgen
  obtain ⟨issuedAt, hissued, rfl⟩ := Option.map_eq_some_iff.mp hgen
  obtain ⟨hascii, hdot⟩ := strInt_chars hissued
  have hnonce : isAscii (base64urlEncode nonceBytes) = true := by
    rw [base64urlEncode_eq]
    exact isAscii_of_forall fun ch hm => (mem_map_toUrlsafe_symbols hm).1
  have hnodot : ∀ bytes, '.' ∉ base64urlEncode bytes := by
    intro bytes hm
    rw [base64urlEncode_eq] at hm
    exact (mem_map_toUrlsafe_symbols hm).2.2 rfl
  have hsigned : isAscii (signedText issuedAt (base64urlEncode nonceBytes)) = true := by
    rw [isAscii_signedText, hascii, hnonce]
    rfl
  simp only [csrfSignature_of_ascii hmac secret hsigned]
  refine ⟨_, rfl, ?_⟩
  have hsplit := split_three hdot (hnodot nonceBytes) (hnodot
    (hmac (encodeUtf8 secret) (encodeUtf8 (signedText issuedAt (base64urlEncode nonceBytes)))))
  have hpassed : ¬ (now - issued > ttlSeconds ∨ issued > now) := by omega
  rw [verifyCsrfToken_of_split hmac decimal secret ttlSeconds now hsplit,
    PyInt.parseInt_strInt decimal hissued, base64urlDecode_encode]
  simp only [if_neg hpassed, csrfSignature_of_ascii hmac secret hsigned]
  exact congrArg Except.ok (beq_self_eq_true _)

/-- **The verification is exact but for one kind of token**: it raises where the time is right,
    the signature can be decoded and what was signed is not ASCII. A generated token is never
    of that kind. -/
theorem csrf_verification_exact_iff (hmac : Hmac) (decimal : Char → Option Nat)
    (token secret : Str) (ttlSeconds now : Int) :
    (Verifies hmac decimal token secret ttlSeconds now ↔
        SignedAscii decimal token ttlSeconds now) ∧
      ∀ issued nonceBytes result,
        generateCsrfToken hmac secret issued nonceBytes = some result →
        0 ≤ now - issued → now - issued ≤ ttlSeconds →
        ∃ generated, result = .ok generated ∧
          verifyCsrfToken hmac decimal generated secret ttlSeconds now = .ok true := by
  refine ⟨verifies_iff_signedAscii hmac decimal secret ttlSeconds now, ?_⟩
  intro issued nonceBytes result hgen hlow hhigh
  exact generated_verifies hmac decimal hgen hlow hhigh

/-- A nonce that is not ASCII: a request with this header gets no answer. -/
theorem csrf_raises :
    verifyCsrfToken (fun _ _ => []) (fun _ => none) "100.é.AAAA".toList "secret".toList 43200 100 =
        .error .unicodeEncodeError ∧
      ¬ Verifies (fun _ _ => []) (fun _ => none) "100.é.AAAA".toList "secret".toList
        43200 100 := by
  have hraised : verifyCsrfToken (fun _ _ => []) (fun _ => none) "100.é.AAAA".toList
      "secret".toList 43200 100 = .error .unicodeEncodeError := by decide +kernel
  refine ⟨hraised, ?_⟩
  rintro (⟨h, -⟩ | ⟨h, -⟩)
  · rw [hraised] at h
    exact nomatch h
  · rw [hraised] at h
    exact nomatch h

end PgErdCloud.Auth
