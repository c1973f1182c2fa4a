/-
  A type that is mapped from PostgreSQL to Snowflake and back. The way there goes by classes
  (`SqlType`), and each class has a PostgreSQL text of its own that is of the same class. So a
  second round trip changes nothing.

  `type_roundtrip_stable` is about every text: a second way there and back changes nothing, and
  three families of types come back as they were. Of the digits of Unicode it assumes what
  `DigitFacts` lists.
-/
import PgErdCloud.Ddl.TypeAgreement

namespace PgErdCloud.Ddl

open Lib Lib.PyStr Diff

/-! ## Digits -/

/-- What is documented of decimal digits: those of ASCII are the usual ones, none is white
    space, and `lower` changes letters only. -/
structure DigitFacts (unicode : Unicode) : Prop where
  isDigit_ascii : ∀ ch, ch.toNat < 128 → unicode.isDigit ch = ch.isDigit
  not_isSpace : ∀ ch, unicode.isDigit ch = true → isSpace ch = false
  lower_plain : ∀ s, (∀ ch ∈ s, ch.toNat < 128 ∨ unicode.isDigit ch = true) →
    unicode.lower s = s.map Char.toLower

variable {unicode : Unicode}

/-- A number as it stands in the arguments of a type. -/
def Digits (unicode : Unicode) (s : Str) : Prop :=
  s ≠ [] ∧ ∀ ch ∈ s, unicode.isDigit ch = true

/-- No letter, so it has no case. -/
theorem toLower_of_digit (hunicode : DigitFacts unicode) {ch : Char}
    (h : unicode.isDigit ch = true) : ch.toLower = ch := by
  unfold Char.toLower
  split_ifs with hupper
  · have htoNat : ch.val.toNat = ch.toNat := rfl
    have hlow : 65 ≤ ch.toNat := UInt32.le_iff_toNat_le.mp hupper.1
    have hhigh : ch.toNat ≤ 90 := UInt32.le_iff_toNat_le.mp hupper.2
    rw [hunicode.isDigit_ascii ch (by omega)] at h
    simp only [Char.isDigit, Bool.and_eq_true, decide_eq_true_eq, ge_iff_le,
      UInt32.le_iff_toNat_le, htoNat] at h
    have hdigit : ch.toNat ≤ 57 := h.2
    omega
  · rfl

theorem takeDigits_append {digits : Str} (hdigits : Digits unicode digits) {ch : Char}
    (hch : unicode.isDigit ch = false) (rest : Str) :
    takeDigits unicode (digits ++ ch :: rest) = some (digits, ch :: rest) := by
  have htake : (digits ++ ch :: rest).takeWhile unicode.isDigit = digits := by
    rw [List.takeWhile_append_of_pos hdigits.2, List.takeWhile_cons_of_neg (by simp [hch]),
      List.append_nil]
  have hdrop : (digits ++ ch :: rest).dropWhile unicode.isDigit = ch :: rest := by
    rw [List.dropWhile_append_of_pos hdigits.2, List.dropWhile_cons_of_neg (by simp [hch])]
  unfold takeDigits
  simp only [htake, hdrop, if_neg hdigits.1]

theorem dropWhile_spaces {gap : Str} (hgap : ∀ ch ∈ gap, isSpace ch = true) {ch : Char}
    (hch : isSpace ch = false) (rest : Str) :
    (gap ++ ch :: rest).dropWhile isSpace = ch :: rest := by
  rw [List.dropWhile_append_of_pos hgap, List.dropWhile_cons_of_neg (by simp [hch])]

theorem dropWhile_digits (hunicode : DigitFacts unicode) {gap digits : Str}
    (hgap : ∀ ch ∈ gap, isSpace ch = true) (hdigits : Digits unicode digits) (rest : Str) :
    (gap ++ (digits ++ rest)).dropWhile isSpace = digits ++ rest := by
  obtain ⟨ch, digits', rfl⟩ := List.exists_cons_of_ne_nil hdigits.1
  exact dropWhile_spaces hgap
    (hunicode.not_isSpace ch (hdigits.2 ch List.mem_cons_self)) (digits' ++ rest)

/-! ## Arguments -/

/-- `(n)` -/
def lengthText (n : Str) : Str := '(' :: (n ++ [')'])

/-- `(p,s)`, with white space around the comma. -/
def precisionText (p before after s : Str) : Str :=
  '(' :: (p ++ (before ++ ',' :: (after ++ (s ++ [')']))))

section
variable (hunicode : DigitFacts unicode)
include hunicode

theorem not_isDigit_close : unicode.isDigit ')' = false :=
  hunicode.isDigit_ascii ')' (by decide)

theorem not_isDigit_comma : unicode.isDigit ',' = false :=
  hunicode.isDigit_ascii ',' (by decide)

theorem matchLength_text {n : Str} (hn : Digits unicode n) :
    matchLength unicode (lengthText n) = some (some n) := by
  unfold matchLength lengthText
  simp only [takeDigits_append hn (not_isDigit_close hunicode)]

theorem matchPrecision_text {p before after s : Str} (hp : Digits unicode p)
    (hs : Digits unicode s) (hbefore : ∀ ch ∈ before, isSpace ch = true)
    (hafter : ∀ ch ∈ after, isSpace ch = true) :
    matchPrecision unicode (precisionText p before after s) = some (some (p, some s)) := by
  have hcomma : isSpace ',' = false := by decide
  have htake : takeDigits unicode (p ++ (before ++ ',' :: (after ++ (s ++ [')'])))) =
      some (p, before ++ ',' :: (after ++ (s ++ [')']))) := by
    cases before with
    | nil => exact takeDigits_append hp (not_isDigit_comma hunicode) _
    | cons ch before =>
        refine takeDigits_append hp ?_ _
        by_contra hdigit
        rw [Bool.not_eq_false] at hdigit
        have hspace := hbefore ch List.mem_cons_self
        rw [hunicode.not_isSpace ch hdigit] at hspace
        exact absurd hspace Bool.false_ne_true
  have hdrop := dropWhile_spaces hbefore hcomma (after ++ (s ++ [')']))
  have hscale := takeDigits_append hs (not_isDigit_close hunicode) []
  unfold matchPrecision precisionText
  simp only [htake]
  split
  · next heq => exact nomatch heq
  · next heq =>
      -- what follows the precision is not the closing parenthesis
      obtain ⟨-, hrest⟩ := Prod.mk.inj (Option.some.inj heq)
      rw [hrest] at hdrop
      exact absurd hdrop (by simp [isSpace])
  · next heq =>
      obtain ⟨rfl, rfl⟩ := Prod.mk.inj (Option.some.inj heq)
      simp only [hdrop, dropWhile_digits hunicode hafter hs, hscale]

end

/-! ## Normalized texts -/

theorem collapseSpaces_of_forall {s : Str} (h : ∀ ch ∈ s, isSpace ch = false) (inSpace : Bool) :
    collapseSpaces inSpace s = s := by
  induction s generalizing inSpace with
  | nil => rfl
  | cons ch s ih =>
      have hch : isSpace ch ≠ true := by
        rw [h ch List.mem_cons_self]
        exact Bool.false_ne_true
      unfold collapseSpaces
      rw [if_neg hch, ih fun c hc => h c (List.mem_cons_of_mem _ hc)]

theorem collapseSpaces_append {word : Str} (hne : word ≠ [])
    (h : ∀ ch ∈ word, isSpace ch = false) (rest : Str) (inSpace : Bool) :
    collapseSpaces inSpace (word ++ rest) = word ++ collapseSpaces false rest := by
  induction word generalizing inSpace with
  | nil => exact absurd rfl hne
  | cons ch word ih =>
      have hch : isSpace ch ≠ true := by
        rw [h ch List.mem_cons_self]
        exact Bool.false_ne_true
      rw [List.cons_append, collapseSpaces, if_neg hch]
      cases word with
      | nil => rfl
      | cons c word =>
          rw [ih (List.cons_ne_nil _ _) (fun d hd => h d (List.mem_cons_of_mem _ hd)) false]
          rfl

/-- A word of ASCII, in any case. -/
def plainWord (s : Str) : Bool :=
  s.all fun ch => ch.toNat < 128 && !isSpace ch && !isSpace ch.toLower

theorem of_plainWord {s : Str} (h : plainWord s = true) :
    ∀ ch ∈ s, ch.toNat < 128 ∧ isSpace ch = false ∧ isSpace ch.toLower = false := by
  intro ch hm
  simpa [and_assoc] using List.all_eq_true.mp h ch hm

/-- The arguments of a type: digits, parentheses and commas. -/
def ArgumentChars (unicode : Unicode) (s : Str) : Prop :=
  ∀ ch ∈ s, unicode.isDigit ch = true ∨ ch = '(' ∨ ch = ')' ∨ ch = ','

theorem ArgumentChars.lower (hunicode : DigitFacts unicode) {s : Str}
    (h : ArgumentChars unicode s) : s.map Char.toLower = s := by
  conv_rhs => rw [← List.map_id s]
  refine List.map_congr_left fun ch hm => ?_
  rcases h ch hm with hdigit | rfl | rfl | rfl
  · exact toLower_of_digit hunicode hdigit
  · rfl
  · rfl
  · rfl

theorem ArgumentChars.not_isSpace (hunicode : DigitFacts unicode) {s : Str}
    (h : ArgumentChars unicode s) : ∀ ch ∈ s, isSpace ch = false := by
  intro ch hm
  rcases h ch hm with hdigit | rfl | rfl | rfl
  · exact hunicode.not_isSpace ch hdigit
  · rfl
  · rfl
  · rfl

/-- A name with its arguments is only written in lower case. -/
theorem normalizeTypeText_arguments (hunicode : DigitFacts unicode) {name arguments : Str}
    (hname : plainWord name = true) (harguments : ArgumentChars unicode arguments) :
    normalizeTypeText unicode (name ++ arguments) = name.map Char.toLower ++ arguments := by
  have hword := of_plainWord hname
  have hspace : ∀ ch ∈ name ++ arguments, isSpace ch = false := by
    intro ch hm
    rcases List.mem_append.mp hm with hm | hm
    · exact (hword ch hm).2.1
    · exact harguments.not_isSpace hunicode ch hm
  have hstrip : strip (name ++ arguments) = name ++ arguments :=
    strip_of_ends (fun ch hm => hspace ch (List.mem_of_mem_head? hm))
      (fun ch hm => hspace ch (List.mem_of_mem_getLast? hm))
  have hplain : ∀ ch ∈ name ++ arguments, ch.toNat < 128 ∨ unicode.isDigit ch = true := by
    intro ch hm
    rcases List.mem_append.mp hm with hm | hm
    · exact .inl (hword ch hm).1
    · rcases harguments ch hm with hdigit | rfl | rfl | rfl
      · exact .inr hdigit
      · exact .inl (by decide)
      · exact .inl (by decide)
      · exact .inl (by decide)
  have hlower : ∀ ch ∈ name.map Char.toLower ++ arguments, isSpace ch = false := by
    intro ch hm
    rcases List.mem_append.mp hm with hm | hm
    · obtain ⟨c, hc, rfl⟩ := List.mem_map.mp hm
      exact (hword c hc).2.2
    · exact harguments.not_isSpace hunicode ch hm
  unfold normalizeTypeText
  rw [hstrip, hunicode.lower_plain _ hplain, List.map_append, harguments.lower hunicode,
    collapseSpaces_of_forall hlower]

/-- A text of ASCII is known to the last character. -/
theorem normalizeTypeText_ascii (hunicode : DigitFacts unicode) {s : Str}
    (h : isAscii (strip s) = true) :
    normalizeTypeText unicode s = collapseSpaces false ((strip s).map Char.toLower) := by
  unfold normalizeTypeText
  rw [hunicode.lower_plain _ fun ch hm => .inl (by
    simpa using List.all_eq_true.mp h ch hm)]

/-! ## What the patterns accept -/

theorem matchNamed_cons_of_not {α : Type} {name : Str} {names : List Str}
    {tail : Str → Option α} {s : Str} (h : startsWith s name = false) :
    matchNamed (name :: names) tail s = matchNamed names tail s := by
  unfold matchNamed
  rw [List.findSome?_cons, if_neg (by rw [h]; exact Bool.false_ne_true)]

theorem matchNamed_cons_of_name {α : Type} {name : Str} {names : List Str}
    {tail : Str → Option α} {gap rest : Str} {x : α} (hgap : ∀ ch ∈ gap, isSpace ch = true)
    (htail : tail ('(' :: rest) = some x) :
    matchNamed (name :: names) tail (name ++ (gap ++ '(' :: rest)) = some x := by
  have hstart : startsWith (name ++ (gap ++ '(' :: rest)) name = true :=
    List.isPrefixOf_iff_prefix.mpr (List.prefix_append _ _)
  unfold matchNamed
  rw [List.findSome?_cons, if_pos hstart, List.drop_left,
    dropWhile_spaces hgap (by decide), htail]

theorem lookup_eq_none {α : Type} {table : List (Str × α)} {s : Str} (hs : '(' ∈ s)
    (htable : ∀ e ∈ table, '(' ∉ e.1) : table.lookup s = none := by
  rw [List.lookup_eq_none_iff]
  intro e hm
  rw [bne_iff_ne]
  rintro rfl
  exact htable e hm hs

/-! ## The classes that are written -/

/-- The arguments that fit the kind. -/
def SqlType.Written (unicode : Unicode) (type : SqlType) : Prop :=
  type.arguments = none ∨
    match type.kind with
    | .number => ∃ p s, type.arguments = some (p, some s) ∧ Digits unicode p ∧ Digits unicode s
    | .varchar | .char => ∃ n, type.arguments = some (n, none) ∧ Digits unicode n
    | _ => False

theorem digits_of_takeDigits {s digits rest : Str}
    (h : takeDigits unicode s = some (digits, rest)) : Digits unicode digits := by
  refine ⟨?_, takeDigits_eq_some unicode h⟩
  unfold takeDigits at h
  dsimp only at h
  split_ifs at h with hne
  obtain ⟨rfl, -⟩ := Prod.mk.inj (Option.some.inj h)
  exact hne

theorem digits_of_matchLength {s n : Str} (h : matchLength unicode s = some (some n)) :
    Digits unicode n := by
  unfold matchLength at h
  split at h
  · exact absurd h (by simp)
  · split at h
    · next hdigits =>
        rw [Option.some.injEq, Option.some.injEq] at h
        exact h ▸ digits_of_takeDigits hdigits
    · exact absurd h (by simp)
  · exact absurd h (by simp)

theorem digits_of_matchPrecision {s p : Str} {scale : Option Str}
    (h : matchPrecision unicode s = some (some (p, scale))) :
    Digits unicode p ∧ ∀ s ∈ scale, Digits unicode s := by
  unfold matchPrecision at h
  split at h
  · exact absurd h (by simp)
  · split at h
    · exact nomatch h
    · next hdigits =>
        simp only [Option.some.injEq, Prod.mk.injEq] at h
        obtain ⟨rfl, rfl⟩ := h
        exact ⟨digits_of_takeDigits hdigits, fun s hs => nomatch hs⟩
    · next hdigits =>
        split at h
        · split at h
          · next hscale =>
              simp only [Option.some.injEq, Prod.mk.injEq] at h
              obtain ⟨rfl, rfl⟩ := h
              refine ⟨digits_of_takeDigits hdigits, fun s hs => ?_⟩
              exact Option.some.inj hs ▸ digits_of_takeDigits hscale
          · exact nomatch h
        · exact nomatch h
  · exact absurd h (by simp)

theorem digits_of_ascii (hunicode : DigitFacts unicode) {s : Str} (hne : s ≠ [])
    (h : s.all Char.isDigit = true) : Digits unicode s := by
  refine ⟨hne, fun ch hm => ?_⟩
  have hdigit := List.all_eq_true.mp h ch hm
  have hascii : ch.toNat < 128 := by
    have htoNat : ch.val.toNat = ch.toNat := rfl
    simp only [Char.isDigit, Bool.and_eq_true, decide_eq_true_eq, ge_iff_le,
      UInt32.le_iff_toNat_le, htoNat] at hdigit
    have hhigh : ch.toNat ≤ 57 := hdigit.2
    omega
  rw [hunicode.isDigit_ascii ch hascii]
  exact hdigit

/-- The class of a type is written with arguments that fit. -/
theorem written_scalarType (hunicode : DigitFacts unicode) (dataType : Str) :
    (scalarType unicode dataType).Written unicode := by
  have hnamed : ∀ e ∈ namedClasses, e.2.Written unicode := by
    have hdigits : ∀ s : Str, s ≠ [] → s.all Char.isDigit = true → Digits unicode s :=
      fun s => digits_of_ascii hunicode
    have hinteger : ∀ s : Str, s ≠ [] → s.all Char.isDigit = true →
        (integerType s).Written unicode := fun s hne hs =>
      .inr ⟨s, "0".toList, rfl, hdigits s hne hs, hdigits _ (by decide) (by decide)⟩
    have huuid : (SqlType.mk .varchar (some ("36".toList, none))).Written unicode :=
      .inr ⟨"36".toList, rfl, hdigits _ (by decide) (by decide)⟩
    have hbare : ∀ kind, (SqlType.mk kind none).Written unicode := fun kind => .inl rfl
    simp only [namedClasses, List.forall_mem_cons, List.not_mem_nil, false_imp_iff,
      implies_true, and_true]
    exact ⟨hinteger _ (by decide) (by decide), hinteger _ (by decide) (by decide),
      hinteger _ (by decide) (by decide), hbare _, hbare _, hbare _, hbare _, hbare _, hbare _,
      hbare _, hbare _, huuid, hbare _, hbare _, hbare _, hbare _, hbare _⟩
  unfold scalarType
  dsimp only
  split
  · next type hlookup =>
      obtain ⟨before, after, heq, -⟩ := List.lookup_eq_some_iff.mp hlookup
      exact hnamed (_, type) (by rw [heq]; exact List.mem_append_cons_self)
  split
  · next precision hprecision =>
      cases precision with
      | none => exact .inl rfl
      | some found =>
          obtain ⟨p, scale⟩ := found
          obtain ⟨rest, hrest⟩ := exists_of_matchNamed hprecision
          obtain ⟨hp, hscale⟩ := digits_of_matchPrecision hrest
          right
          cases scale with
          | none =>
              exact ⟨p, "0".toList, rfl, hp, digits_of_ascii hunicode (by decide) (by decide)⟩
          | some s => exact ⟨p, s, rfl, hp, hscale s rfl⟩
  split
  · next length hlength =>
      cases length with
      | none => exact .inl rfl
      | some n =>
          obtain ⟨rest, hrest⟩ := exists_of_matchNamed hlength
          exact .inr ⟨n, rfl, digits_of_matchLength hrest⟩
  split
  · next length hlength =>
      cases length with
      | none => exact .inl rfl
      | some n =>
          obtain ⟨rest, hrest⟩ := exists_of_matchNamed hlength
          exact .inr ⟨n, rfl, digits_of_matchLength hrest⟩
  split_ifs
  · exact .inl rfl
  · exact .inl rfl
  · exact .inl rfl
  · exact .inl rfl

/-! ## There and back -/

/-- The PostgreSQL name of a class. -/
def SqlType.postgresName (type : SqlType) : Str :=
  match type.kind with
  | .number => "numeric".toList
  | .float => "double precision".toList
  | .boolean => "boolean".toList
  | .varchar => if type.arguments = none then "text".toList else "character varying".toList
  | .char => "character".toList
  | .variant => "jsonb".toList
  | .binary => "bytea".toList
  | .date => "date".toList
  | .time => "time".toList
  | .timestampTz => "timestamp with time zone".toList
  | .timestampNtz => "timestamp without time zone".toList

/-- The type as PostgreSQL prints it. -/
def SqlType.postgresText (type : SqlType) : Str :=
  type.postgresName ++ argumentsText type.arguments

/-- A column with nothing but the text of its type. -/
def ofText (dataType : Str) : ColumnType := ⟨some dataType, none, false⟩

theorem argumentsText_precision (p s : Str) :
    argumentsText (some (p, some s)) = precisionText p [] [] s := by
  simp [argumentsText, precisionText]

theorem argumentsText_length (n : Str) : argumentsText (some (n, none)) = lengthText n := by
  simp [argumentsText, lengthText]

theorem argumentChars_precision {p s : Str} (hp : Digits unicode p) (hs : Digits unicode s) :
    ArgumentChars unicode (precisionText p [] [] s) := by
  intro ch hm
  simp only [precisionText, List.nil_append, List.mem_cons, List.mem_append, List.not_mem_nil,
    or_false] at hm
  rcases hm with rfl | hm | rfl | hm | rfl
  · simp
  · exact .inl (hp.2 ch hm)
  · simp
  · exact .inl (hs.2 ch hm)
  · simp

theorem argumentChars_length {n : Str} (hn : Digits unicode n) :
    ArgumentChars unicode (lengthText n) := by
  intro ch hm
  simp only [lengthText, List.mem_cons, List.mem_append, List.not_mem_nil, or_false] at hm
  rcases hm with rfl | hm | rfl
  · simp
  · exact .inl (hn.2 ch hm)
  · simp

/-! Without a parenthesis the digits do not matter, and ASCII decides. -/

section
variable (hunicode : DigitFacts unicode)
include hunicode

theorem normalizeTypeText_eq_ascii {s : Str} (h : isAscii (strip s) = true) :
    normalizeTypeText unicode s = normalizeTypeText asciiUnicode s :=
  normalizeTypeText_ascii hunicode h

end

theorem matchNamed_congr {α : Type} {names : List Str} {tail tail' : Str → Option α} {s : Str}
    (h : ∀ rest, rest ⊆ s → tail rest = tail' rest) :
    matchNamed names tail s = matchNamed names tail' s := by
  unfold matchNamed
  congr 1
  funext name
  have hsub : (s.drop name.length).dropWhile isSpace ⊆ s :=
    ((List.dropWhile_sublist _).trans (List.drop_sublist _ _)).subset
  rw [h _ hsub]

theorem matchLength_eq_ascii {s : Str} (h : '(' ∉ s) :
    matchLength unicode s = matchLength asciiUnicode s := by
  unfold matchLength
  split
  · rfl
  · exact absurd List.mem_cons_self h
  · rfl

theorem matchPrecision_eq_ascii {s : Str} (h : '(' ∉ s) :
    matchPrecision unicode s = matchPrecision asciiUnicode s := by
  unfold matchPrecision
  split
  · rfl
  · exact absurd List.mem_cons_self h
  · rfl

section
variable (hunicode : DigitFacts unicode) {s : Str} (hascii : isAscii (strip s) = true)
  (hparen : '(' ∉ normalizeTypeText asciiUnicode s)
include hunicode hascii hparen

theorem snowflakeTypeToPostgres_eq_ascii :
    snowflakeTypeToPostgres unicode (ofText s) =
      snowflakeTypeToPostgres asciiUnicode (ofText s) := by
  unfold snowflakeTypeToPostgres ofText
  simp only [normalizeTypeText_eq_ascii hunicode hascii]
  generalize normalizeTypeText asciiUnicode s = normalized at hparen
  have hprecision : ∀ names, matchNamed names (matchPrecision unicode) normalized =
      matchNamed names (matchPrecision asciiUnicode) normalized := fun names =>
    matchNamed_congr fun rest hsub => matchPrecision_eq_ascii fun hm => hparen (hsub hm)
  have hlength : ∀ names, matchNamed names (matchLength unicode) normalized =
      matchNamed names (matchLength asciiUnicode) normalized := fun names =>
    matchNamed_congr fun rest hsub => matchLength_eq_ascii fun hm => hparen (hsub hm)
  simp only [hprecision, hlength]

theorem scalarType_eq_ascii : scalarType unicode s = scalarType asciiUnicode s := by
  unfold scalarType
  simp only [normalizeTypeText_eq_ascii hunicode hascii]
  generalize normalizeTypeText asciiUnicode s = normalized at hparen
  have hprecision : ∀ names, matchNamed names (matchPrecision unicode) normalized =
      matchNamed names (matchPrecision asciiUnicode) normalized := fun names =>
    matchNamed_congr fun rest hsub => matchPrecision_eq_ascii fun hm => hparen (hsub hm)
  have hlength : ∀ names, matchNamed names (matchLength unicode) normalized =
      matchNamed names (matchLength asciiUnicode) normalized := fun names =>
    matchNamed_congr fun rest hsub => matchLength_eq_ascii fun hm => hparen (hsub hm)
  simp only [hprecision, hlength]

end

theorem isArrayText_eq_ascii (hunicode : DigitFacts unicode) {s : Str}
    (hascii : isAscii (strip s) = true) : isArrayText unicode s = isArrayText asciiUnicode s := by
  unfold isArrayText
  rw [normalizeTypeText_eq_ascii hunicode hascii]

theorem snowflakeTypeToPostgres_bare_ascii :
    (∀ kind : TypeKind, isAscii (strip kind.name) = true ∧
      '(' ∉ normalizeTypeText asciiUnicode kind.name ∧
      snowflakeTypeToPostgres asciiUnicode (ofText kind.name) =
        (SqlType.mk kind none).postgresText) ∧
    isAscii (strip "ARRAY".toList) = true ∧
      '(' ∉ normalizeTypeText asciiUnicode "ARRAY".toList ∧
      snowflakeTypeToPostgres asciiUnicode (ofText "ARRAY".toList) = "jsonb".toList := by
  constructor
  · intro kind
    cases kind <;> decide +kernel
  · decide +kernel

theorem scalarType_bare_ascii (kind : TypeKind) :
    isAscii (strip (SqlType.mk kind none).postgresText) = true ∧
      '(' ∉ normalizeTypeText asciiUnicode (SqlType.mk kind none).postgresText ∧
      scalarType asciiUnicode (SqlType.mk kind none).postgresText = ⟨kind, none⟩ ∧
      isArrayText asciiUnicode (SqlType.mk kind none).postgresText = false := by
  cases kind <;> decide +kernel

section
variable (hunicode : DigitFacts unicode)
include hunicode

/-- A type without arguments, back to PostgreSQL. -/
theorem snowflakeTypeToPostgres_bare (kind : TypeKind) :
    snowflakeTypeToPostgres unicode (ofText kind.name) = (SqlType.mk kind none).postgresText := by
  obtain ⟨hascii, hparen, heq⟩ := snowflakeTypeToPostgres_bare_ascii.1 kind
  rw [snowflakeTypeToPostgres_eq_ascii hunicode hascii hparen, heq]

theorem snowflakeTypeToPostgres_array :
    snowflakeTypeToPostgres unicode (ofText "ARRAY".toList) = "jsonb".toList := by
  obtain ⟨hascii, hparen, heq⟩ := snowflakeTypeToPostgres_bare_ascii.2
  rw [snowflakeTypeToPostgres_eq_ascii hunicode hascii hparen, heq]

/-- The class of a PostgreSQL name. -/
theorem scalarType_bare (kind : TypeKind) :
    scalarType unicode (SqlType.mk kind none).postgresText = ⟨kind, none⟩ ∧
      isArrayText unicode (SqlType.mk kind none).postgresText = false := by
  obtain ⟨hascii, hparen, heq⟩ := scalarType_bare_ascii kind
  rw [isArrayText_eq_ascii hunicode hascii, scalarType_eq_ascii hunicode hascii hparen]
  exact heq

end

/-! ## Spellings -/

/-- The text is one of the names in some case, with a precision and a scale, and with any white
    space where the mapping takes it. -/
def SpelledPrecision (unicode : Unicode) (names : List Str) (p s dataType : Str) : Prop :=
  ∃ name ∈ names, ∃ gap before after : Str, (∀ ch ∈ gap, isSpace ch = true) ∧
    (∀ ch ∈ before, isSpace ch = true) ∧ (∀ ch ∈ after, isSpace ch = true) ∧
    normalizeTypeText unicode dataType = name ++ (gap ++ precisionText p before after s)

/-- The same with a length. -/
def SpelledLength (unicode : Unicode) (names : List Str) (n dataType : Str) : Prop :=
  ∃ name ∈ names, ∃ gap : Str, (∀ ch ∈ gap, isSpace ch = true) ∧
    normalizeTypeText unicode dataType = name ++ (gap ++ lengthText n)

/-- Arguments stand in parentheses. -/
theorem precisionText_eq (p before after s : Str) :
    precisionText p before after s = '(' :: ((p ++ (before ++ ',' :: (after ++ s))) ++ [')']) := by
  simp [precisionText]

theorem startsWith_iff {s start : Str} : startsWith s start = true ↔ start <+: s :=
  List.isPrefixOf_iff_prefix

theorem not_startsWith_iff {s start : Str} : startsWith s start = false ↔ ¬ start <+: s := by
  rw [← startsWith_iff, Bool.not_eq_true]

/-- What the other word has behind the name goes on with neither white space nor a
    parenthesis. -/
def goesOn (more : Str) : Bool := (more.dropWhile isSpace).head?.any (· ≠ '(')

theorem not_prefix_of_goesOn {more gap rest : Str} (h : goesOn more = true)
    (hgap : ∀ ch ∈ gap, isSpace ch = true) : ¬ more <+: gap ++ '(' :: rest := by
  induction gap generalizing more with
  | nil =>
      intro hprefix
      cases more with
      | nil => exact absurd h (by decide)
      | cons ch more =>
          obtain rfl := (List.cons_prefix_cons.mp hprefix).1
          have hno : goesOn ('(' :: more) = false := rfl
          rw [hno] at h
          exact Bool.false_ne_true h
  | cons space gap ih =>
      intro hprefix
      cases more with
      | nil => exact absurd h (by decide)
      | cons ch more =>
          obtain ⟨rfl, hrest⟩ := List.cons_prefix_cons.mp hprefix
          have hspace := hgap ch List.mem_cons_self
          have hmore : goesOn more = true := by
            rw [goesOn, List.dropWhile_cons_of_pos hspace] at h
            exact h
          exact ih hmore (fun c hc => hgap c (List.mem_cons_of_mem _ hc)) hrest

/-- A text of the name, white space and arguments does not begin with the other word. -/
def misfits (name other : Str) : Bool :=
  !startsWith name other &&
    (!startsWith other name || goesOn (other.drop name.length))

theorem not_startsWith_of_misfits {name other gap rest : Str} (h : misfits name other = true)
    (hgap : ∀ ch ∈ gap, isSpace ch = true) :
    startsWith (name ++ (gap ++ '(' :: rest)) other = false := by
  rw [misfits, Bool.and_eq_true, Bool.not_eq_true', not_startsWith_iff] at h
  rw [not_startsWith_iff]
  intro hprefix
  rcases List.prefix_or_prefix_of_prefix hprefix (List.prefix_append name _) with hin | hin
  · exact h.1 hin
  · obtain ⟨more, rfl⟩ := hin
    have hmore : goesOn more = true := by
      simpa [startsWith_iff.mpr (List.prefix_append name more), List.drop_left] using h.2
    exact not_prefix_of_goesOn hmore hgap ((List.prefix_append_right_inj name).mp hprefix)

/-- A type with arguments is no array. -/
theorem not_isArrayText {dataType name gap arguments : Str}
    (hnormalized : normalizeTypeText unicode dataType =
      name ++ (gap ++ '(' :: (arguments ++ [')'])))
    (hname : misfits name "array".toList = true) (hgap : ∀ ch ∈ gap, isSpace ch = true) :
    isArrayText unicode dataType = false := by
  have hend : endsWith (name ++ (gap ++ '(' :: (arguments ++ [')']))) "[]".toList = false := by
    by_contra hend
    rw [Bool.not_eq_false] at hend
    obtain ⟨before, hbefore⟩ := List.isSuffixOf_iff_suffix.mp hend
    have hlast := congrArg List.getLast? hbefore
    have hclose : (name ++ (gap ++ '(' :: (arguments ++ [')']))).getLast? = some ')' := by
      rw [← List.append_assoc, ← List.cons_append, ← List.append_assoc, List.getLast?_concat]
    rw [hclose, List.getLast?_append] at hlast
    exact absurd hlast (by simp)
  unfold isArrayText
  simp only [hnormalized, hend, not_startsWith_of_misfits hname hgap, Bool.or_self]

/-- The pattern takes the name that the text begins with, if no earlier one fits. -/
theorem matchNamed_of_mem {α : Type} {names : List Str} {tail : Str → Option α}
    {name gap rest : Str} {x : α} (hname : name ∈ names)
    (hothers : ((names.takeWhile (· ≠ name)).all fun other => misfits name other) = true)
    (hgap : ∀ ch ∈ gap, isSpace ch = true) (htail : tail ('(' :: rest) = some x) :
    matchNamed names tail (name ++ (gap ++ '(' :: rest)) = some x := by
  induction names with
  | nil => exact absurd hname List.not_mem_nil
  | cons other names ih =>
      by_cases heq : other = name
      · subst heq
        exact matchNamed_cons_of_name hgap htail
      · rw [List.takeWhile_cons_of_pos (by simpa using heq), List.all_cons,
          Bool.and_eq_true] at hothers
        rw [matchNamed_cons_of_not (not_startsWith_of_misfits hothers.1 hgap)]
        rcases List.mem_cons.mp hname with rfl | hname
        · exact absurd rfl heq
        · exact ih hname hothers.2

/-- The pattern takes none of its names. -/
theorem matchNamed_eq_none {α : Type} {names : List Str} {tail : Str → Option α}
    {name gap rest : Str} (hothers : (names.all fun other => misfits name other) = true)
    (hgap : ∀ ch ∈ gap, isSpace ch = true) :
    matchNamed names tail (name ++ (gap ++ '(' :: rest)) = none := by
  induction names with
  | nil => rfl
  | cons other names ih =>
      rw [List.all_cons, Bool.and_eq_true] at hothers
      rw [matchNamed_cons_of_not (not_startsWith_of_misfits hothers.1 hgap)]
      exact ih hothers.2

/-! ## Names

What the patterns make of the names in front of arguments is checked once, by looking at them. -/

/-- The names of one pattern. -/
abbrev numericNames : List Str := ["numeric".toList, "decimal".toList]

/-- The two names of `varchar` in PostgreSQL. -/
abbrev varcharNames : List Str := ["character varying".toList, "varchar".toList]

/-- The two names of `char` in PostgreSQL. -/
abbrev charNames : List Str := ["character".toList, "char".toList]

/-- The names of one pattern on the way back. -/
abbrev numberNamesBack : List Str := ["number".toList, "numeric".toList, "decimal".toList]

/-- The names that come back from Snowflake as `varchar`. -/
abbrev varcharNamesBack : List Str := ["varchar".toList, "string".toList, "text".toList]

/-- The names that come back from Snowflake as `char`. -/
abbrev charNamesBack : List Str := ["char".toList, "character".toList]

/-- The name comes before all other names that fit. -/
def fitsFirst (names : List Str) (name : Str) : Bool :=
  (names.takeWhile (· ≠ name)).all fun other => misfits name other

/-- A type of this name is taken for none of these. -/
def fitsNone (names : List Str) (name : Str) : Bool := names.all fun other => misfits name other

theorem names_fit :
    (∀ name ∈ numericNames, misfits name "array".toList = true ∧
      fitsFirst numericNames name = true) ∧
    (∀ name ∈ varcharNames, misfits name "array".toList = true ∧
      fitsNone numericNames name = true ∧ fitsFirst varcharNames name = true) ∧
    (∀ name ∈ charNames, misfits name "array".toList = true ∧
      fitsNone numericNames name = true ∧ fitsNone varcharNames name = true ∧
      fitsFirst charNames name = true) := by
  decide +kernel

theorem names_fit_back :
    fitsFirst numberNamesBack "number".toList = true ∧
    (fitsNone numberNamesBack "varchar".toList = true ∧
      fitsFirst varcharNamesBack "varchar".toList = true) ∧
    (fitsNone numberNamesBack "char".toList = true ∧
      fitsNone varcharNamesBack "char".toList = true ∧
      fitsFirst charNamesBack "char".toList = true) := by
  decide +kernel

/-- The name in front of arguments, and what normalizing makes of it. -/
def plainNames : List (Str × Str) :=
  [("NUMBER", "number"), ("VARCHAR", "varchar"), ("CHAR", "char"), ("numeric", "numeric"),
    ("character", "character"), ("varying", "varying")].map fun e => (e.1.toList, e.2.toList)

theorem plainNames_lower : ∀ e ∈ plainNames, plainWord e.1 = true ∧ e.1.map Char.toLower = e.2 := by
  decide +kernel

/-- No exact name has arguments. -/
theorem exact_names : (∀ e ∈ namedClasses, '(' ∉ e.1) ∧ ∀ e ∈ snowflakeExact, '(' ∉ e.1 := by
  decide +kernel

theorem lookup_namedClasses {name gap rest : Str} :
    namedClasses.lookup (name ++ (gap ++ '(' :: rest)) = none :=
  lookup_eq_none (by simp) exact_names.1

theorem lookup_snowflakeExact {name gap rest : Str} :
    snowflakeExact.lookup (name ++ (gap ++ '(' :: rest)) = none :=
  lookup_eq_none (by simp) exact_names.2

section
variable (hunicode : DigitFacts unicode)
include hunicode

theorem normalizeTypeText_plain {e : Str × Str} (he : e ∈ plainNames) {arguments : Str}
    (harguments : ArgumentChars unicode arguments) :
    normalizeTypeText unicode (e.1 ++ arguments) = e.2 ++ arguments := by
  obtain ⟨hplain, hlower⟩ := plainNames_lower e he
  rw [normalizeTypeText_arguments hunicode hplain harguments, hlower]

theorem scalarType_precision {p s dataType : Str} (hp : Digits unicode p)
    (hs : Digits unicode s) (h : SpelledPrecision unicode numericNames p s dataType) :
    scalarType unicode dataType = ⟨.number, some (p, some s)⟩ ∧
      isArrayText unicode dataType = false := by
  obtain ⟨name, hname, gap, before, after, hgap, hbefore, hafter, hnormalized⟩ := h
  have hargs := matchPrecision_text hunicode hp hs hbefore hafter
  rw [precisionText_eq] at hargs hnormalized
  obtain ⟨harray, hfirst⟩ := names_fit.1 name hname
  refine ⟨?_, not_isArrayText hnormalized harray hgap⟩
  unfold scalarType
  simp only [hnormalized, lookup_namedClasses]
  rw [matchNamed_of_mem hname hfirst hgap hargs]
  rfl

theorem scalarType_varchar {n dataType : Str} (hn : Digits unicode n)
    (h : SpelledLength unicode varcharNames n dataType) :
    scalarType unicode dataType = ⟨.varchar, some (n, none)⟩ ∧
      isArrayText unicode dataType = false := by
  obtain ⟨name, hname, gap, hgap, hnormalized⟩ := h
  have hargs := matchLength_text hunicode hn
  unfold lengthText at hargs hnormalized
  obtain ⟨harray, hnumeric, hfirst⟩ := names_fit.2.1 name hname
  refine ⟨?_, not_isArrayText hnormalized harray hgap⟩
  unfold scalarType
  simp only [hnormalized, lookup_namedClasses]
  rw [matchNamed_eq_none hnumeric hgap, matchNamed_of_mem hname hfirst hgap hargs]
  rfl

theorem scalarType_char {n dataType : Str} (hn : Digits unicode n)
    (h : SpelledLength unicode charNames n dataType) :
    scalarType unicode dataType = ⟨.char, some (n, none)⟩ ∧
      isArrayText unicode dataType = false := by
  obtain ⟨name, hname, gap, hgap, hnormalized⟩ := h
  have hargs := matchLength_text hunicode hn
  unfold lengthText at hargs hnormalized
  obtain ⟨harray, hnumeric, hvarchar, hfirst⟩ := names_fit.2.2 name hname
  refine ⟨?_, not_isArrayText hnormalized harray hgap⟩
  unfold scalarType
  simp only [hnormalized, lookup_namedClasses]
  rw [matchNamed_eq_none hnumeric hgap, matchNamed_eq_none hvarchar hgap,
    matchNamed_of_mem hname hfirst hgap hargs]
  rfl

/-! ## Back to PostgreSQL -/

theorem snowflakeTypeToPostgres_number {p s : Str} (hp : Digits unicode p)
    (hs : Digits unicode s) :
    snowflakeTypeToPostgres unicode (ofText (SqlType.mk .number (some (p, some s))).text) =
      (SqlType.mk .number (some (p, some s))).postgresText := by
  have hargs : matchPrecision unicode (precisionText p [] [] s) = some (some (p, some s)) :=
    matchPrecision_text hunicode hp hs (by simp) (by simp)
  have htext : (SqlType.mk .number (some (p, some s))).text =
      "NUMBER".toList ++ precisionText p [] [] s := by
    rw [← argumentsText_precision]
    rfl
  have hnormalized : normalizeTypeText unicode (SqlType.mk .number (some (p, some s))).text =
      "number".toList ++ ([] ++ precisionText p [] [] s) := by
    have hplain : ("NUMBER".toList, "number".toList) ∈ plainNames := by simp [plainNames]
    rw [htext]
    exact normalizeTypeText_plain hunicode hplain (argumentChars_precision hp hs)
  rw [precisionText_eq] at hargs hnormalized
  have hmatch := matchNamed_of_mem List.mem_cons_self names_fit_back.1 (List.forall_mem_nil _) hargs
  unfold snowflakeTypeToPostgres ofText
  simp only [hnormalized, lookup_snowflakeExact]
  rw [hmatch]
  simp [withPrecision, SqlType.postgresText, SqlType.postgresName, argumentsText]

theorem snowflakeTypeToPostgres_varchar {n : Str} (hn : Digits unicode n) :
    snowflakeTypeToPostgres unicode (ofText (SqlType.mk .varchar (some (n, none))).text) =
      (SqlType.mk .varchar (some (n, none))).postgresText := by
  have hargs := matchLength_text hunicode hn
  have htext : (SqlType.mk .varchar (some (n, none))).text =
      "VARCHAR".toList ++ lengthText n := by
    rw [← argumentsText_length]
    rfl
  have hnormalized : normalizeTypeText unicode (SqlType.mk .varchar (some (n, none))).text =
      "varchar".toList ++ ([] ++ lengthText n) := by
    have hplain : ("VARCHAR".toList, "varchar".toList) ∈ plainNames := by simp [plainNames]
    rw [htext]
    exact normalizeTypeText_plain hunicode hplain (argumentChars_length hn)
  unfold lengthText at hargs hnormalized
  obtain ⟨hnumber, hfirst⟩ := names_fit_back.2.1
  have hmatch := matchNamed_of_mem List.mem_cons_self hfirst (List.forall_mem_nil _) hargs
  unfold snowflakeTypeToPostgres ofText
  simp only [hnormalized, lookup_snowflakeExact]
  rw [matchNamed_eq_none hnumber (List.forall_mem_nil _), hmatch]
  simp [withLength, SqlType.postgresText, SqlType.postgresName, argumentsText]

theorem snowflakeTypeToPostgres_char {n : Str} (hn : Digits unicode n) :
    snowflakeTypeToPostgres unicode (ofText (SqlType.mk .char (some (n, none))).text) =
      (SqlType.mk .char (some (n, none))).postgresText := by
  have hargs := matchLength_text hunicode hn
  have htext : (SqlType.mk .char (some (n, none))).text = "CHAR".toList ++ lengthText n := by
    rw [← argumentsText_length]
    rfl
  have hnormalized : normalizeTypeText unicode (SqlType.mk .char (some (n, none))).text =
      "char".toList ++ ([] ++ lengthText n) := by
    have hplain : ("CHAR".toList, "char".toList) ∈ plainNames := by simp [plainNames]
    rw [htext]
    exact normalizeTypeText_plain hunicode hplain (argumentChars_length hn)
  unfold lengthText at hargs hnormalized
  obtain ⟨hnumber, hvarchar, hfirst⟩ := names_fit_back.2.2
  have hmatch := matchNamed_of_mem List.mem_cons_self hfirst (List.forall_mem_nil _) hargs
  unfold snowflakeTypeToPostgres ofText
  simp only [hnormalized, lookup_snowflakeExact]
  rw [matchNamed_eq_none hnumber (List.forall_mem_nil _),
    matchNamed_eq_none hvarchar (List.forall_mem_nil _), hmatch]
  simp [withLength, SqlType.postgresText, SqlType.postgresName, argumentsText]

/-- The one name with a space in it. -/
theorem normalizeTypeText_characterVarying {n : Str} (hn : Digits unicode n) :
    normalizeTypeText unicode ("character varying".toList ++ lengthText n) =
      "character varying".toList ++ lengthText n := by
  have harguments := argumentChars_length hn
  have hlast : ("character varying".toList ++ lengthText n).getLast? = some ')' := by
    unfold lengthText
    rw [← List.cons_append, ← List.append_assoc, List.getLast?_concat]
  have hstrip : strip ("character varying".toList ++ lengthText n) =
      "character varying".toList ++ lengthText n := by
    refine strip_of_ends ?_ ?_
    · intro ch hm
      obtain rfl : 'c' = ch := by simpa using hm
      decide
    · intro ch hm
      rw [hlast] at hm
      obtain rfl : ')' = ch := by simpa using hm
      decide
  have hfirst := (plainNames_lower ("character".toList, "character".toList)
    (by simp [plainNames]))
  have hvarying := (plainNames_lower ("varying".toList, "varying".toList) (by simp [plainNames]))
  have hspelled : "character varying".toList = "character".toList ++ ' ' :: "varying".toList := rfl
  have hname : ∀ ch ∈ "character varying".toList, ch.toNat < 128 := by
    rw [hspelled]
    intro ch hm
    rcases List.mem_append.mp hm with hm | hm
    · exact (of_plainWord hfirst.1 ch hm).1
    · rcases List.mem_cons.mp hm with rfl | hm
      · decide
      · exact (of_plainWord hvarying.1 ch hm).1
  have hplain : ∀ ch ∈ "character varying".toList ++ lengthText n,
      ch.toNat < 128 ∨ unicode.isDigit ch = true := by
    intro ch hm
    rcases List.mem_append.mp hm with hm | hm
    · exact .inl (hname ch hm)
    · rcases harguments ch hm with hdigit | rfl | rfl | rfl
      · exact .inr hdigit
      · exact .inl (by decide)
      · exact .inl (by decide)
      · exact .inl (by decide)
  have hlower : "character varying".toList.map Char.toLower = "character varying".toList := by
    rw [hspelled, List.map_append, List.map_cons, hfirst.2, hvarying.2]
    rfl
  have hwords : "character varying".toList ++ lengthText n =
      "character".toList ++ ' ' :: ("varying".toList ++ lengthText n) := by simp
  have hsecond : ∀ ch ∈ "varying".toList ++ lengthText n, isSpace ch = false := by
    intro ch hm
    rcases List.mem_append.mp hm with hm | hm
    · exact (of_plainWord hvarying.1 ch hm).2.1
    · exact harguments.not_isSpace hunicode ch hm
  unfold normalizeTypeText
  rw [hstrip, hunicode.lower_plain _ hplain, List.map_append, harguments.lower hunicode, hlower,
    hwords, collapseSpaces_append (show "character".toList ≠ [] by simp)
      fun ch hm => (of_plainWord hfirst.1 ch hm).2.1,
    collapseSpaces, if_pos (by decide), if_neg Bool.false_ne_true,
    collapseSpaces_of_forall hsecond]

/-- Every class is mapped to its PostgreSQL text. -/
theorem snowflakeTypeToPostgres_text {type : SqlType} (h : type.Written unicode) :
    snowflakeTypeToPostgres unicode (ofText type.text) = type.postgresText := by
  obtain ⟨kind, arguments⟩ := type
  rcases h with hnone | hargs
  · obtain rfl : arguments = none := hnone
    rw [text_bare]
    exact snowflakeTypeToPostgres_bare hunicode kind
  · cases kind with
    | number =>
        obtain ⟨p, s, harguments, hp, hs⟩ := hargs
        obtain rfl : arguments = some (p, some s) := harguments
        exact snowflakeTypeToPostgres_number hunicode hp hs
    | varchar =>
        obtain ⟨n, harguments, hn⟩ := hargs
        obtain rfl : arguments = some (n, none) := harguments
        exact snowflakeTypeToPostgres_varchar hunicode hn
    | char =>
        obtain ⟨n, harguments, hn⟩ := hargs
        obtain rfl : arguments = some (n, none) := harguments
        exact snowflakeTypeToPostgres_char hunicode hn
    | float | boolean | variant | binary | date | time | timestampTz | timestampNtz =>
        exact hargs.elim

/-- The PostgreSQL text of a class is of this class. -/
theorem scalarType_postgresText {type : SqlType} (h : type.Written unicode) :
    scalarType unicode type.postgresText = type ∧
      isArrayText unicode type.postgresText = false := by
  obtain ⟨kind, arguments⟩ := type
  rcases h with hnone | hargs
  · obtain rfl : arguments = none := hnone
    exact scalarType_bare hunicode kind
  · cases kind with
    | number =>
        obtain ⟨p, s, harguments, hp, hs⟩ := hargs
        obtain rfl : arguments = some (p, some s) := harguments
        refine scalarType_precision hunicode hp hs ⟨"numeric".toList, List.mem_cons_self, [], [],
          [], List.forall_mem_nil _, List.forall_mem_nil _, List.forall_mem_nil _, ?_⟩
        have htext : (SqlType.mk .number (some (p, some s))).postgresText =
            "numeric".toList ++ precisionText p [] [] s := by
          rw [← argumentsText_precision]
          rfl
        have hplain : ("numeric".toList, "numeric".toList) ∈ plainNames := by simp [plainNames]
        rw [htext]
        exact normalizeTypeText_plain hunicode hplain (argumentChars_precision hp hs)
    | varchar =>
        obtain ⟨n, harguments, hn⟩ := hargs
        obtain rfl : arguments = some (n, none) := harguments
        refine scalarType_varchar hunicode hn ⟨"character varying".toList, List.mem_cons_self, [],
          List.forall_mem_nil _, ?_⟩
        have htext : (SqlType.mk .varchar (some (n, none))).postgresText =
            "character varying".toList ++ lengthText n := by
          rw [← argumentsText_length]
          rfl
        rw [htext, normalizeTypeText_characterVarying hunicode hn]
        rfl
    | char =>
        obtain ⟨n, harguments, hn⟩ := hargs
        obtain rfl : arguments = some (n, none) := harguments
        refine scalarType_char hunicode hn ⟨"character".toList, List.mem_cons_self, [],
          List.forall_mem_nil _, ?_⟩
        have htext : (SqlType.mk .char (some (n, none))).postgresText =
            "character".toList ++ lengthText n := by
          rw [← argumentsText_length]
          rfl
        have hplain : ("character".toList, "character".toList) ∈ plainNames := by
          simp [plainNames]
        rw [htext]
        exact normalizeTypeText_plain hunicode hplain (argumentChars_length hn)
    | float | boolean | variant | binary | date | time | timestampTz | timestampNtz =>
        exact hargs.elim

/-- A type of PostgreSQL, in Snowflake and back. -/
theorem roundtrip_eq (dataType : Str) :
    snowflakeTypeToPostgres unicode (ofText (postgresTypeToSnowflake unicode (ofText dataType))) =
      if isArrayText unicode dataType then "jsonb".toList
      else (scalarType unicode dataType).postgresText := by
  unfold ofText
  rw [postgresTypeToSnowflake_eq, Bool.false_or, Option.getD_none]
  split_ifs
  · exact snowflakeTypeToPostgres_array hunicode
  · exact snowflakeTypeToPostgres_text hunicode (written_scalarType hunicode dataType)

end

/-! ## The law -/

/-- **The mapping is stable after one round trip**, and it keeps precisions and lengths in every
    spelling. -/
theorem type_roundtrip_stable (unicode : Unicode) (hunicode : DigitFacts unicode) :
    let f := fun dataType => postgresTypeToSnowflake unicode (ofText dataType)
    let g := fun dataType => snowflakeTypeToPostgres unicode (ofText dataType)
    (∀ t, g (f (g (f t))) = g (f t)) ∧
    (∀ p s t, Digits unicode p → Digits unicode s →
      SpelledPrecision unicode ["numeric".toList, "decimal".toList] p s t →
      g (f t) = "numeric(".toList ++ p ++ ",".toList ++ s ++ ")".toList) ∧
    (∀ n t, Digits unicode n →
      SpelledLength unicode ["character varying".toList, "varchar".toList] n t →
      g (f t) = "character varying(".toList ++ n ++ ")".toList) ∧
    (∀ n t, Digits unicode n →
      SpelledLength unicode ["character".toList, "char".toList] n t →
      g (f t) = "character(".toList ++ n ++ ")".toList) := by
  intro f g
  have hroundtrip : ∀ t, g (f t) = if isArrayText unicode t then "jsonb".toList
      else (scalarType unicode t).postgresText := roundtrip_eq hunicode
  refine ⟨?_, ?_, ?_, ?_⟩
  · intro t
    rw [hroundtrip (g (f t)), hroundtrip t]
    split_ifs with harray hagain hagain
    · rfl
    · have hjsonb := scalarType_bare hunicode .variant
      exact congrArg SqlType.postgresText hjsonb.1
    · have hback := scalarType_postgresText hunicode (written_scalarType hunicode t)
      rw [hback.2] at hagain
      exact absurd hagain Bool.false_ne_true
    · rw [(scalarType_postgresText hunicode (written_scalarType hunicode t)).1]
  · intro p s t hp hs hspelled
    obtain ⟨htype, harray⟩ := scalarType_precision hunicode hp hs hspelled
    rw [hroundtrip, harray, htype]
    simp [SqlType.postgresText, SqlType.postgresName, argumentsText]
  · intro n t hn hspelled
    obtain ⟨htype, harray⟩ := scalarType_varchar hunicode hn hspelled
    rw [hroundtrip, harray, htype]
    simp [SqlType.postgresText, SqlType.postgresName, argumentsText]
  · intro n t hn hspelled
    obtain ⟨htype, harray⟩ := scalarType_char hunicode hn hspelled
    rw [hroundtrip, harray, htype]
    simp [SqlType.postgresText, SqlType.postgresName, argumentsText]

theorem digitFacts_ascii : DigitFacts asciiUnicode where
  isDigit_ascii := fun _ _ => rfl
  not_isSpace := by
    intro ch h
    have htoNat : ch.val.toNat = ch.toNat := rfl
    simp only [asciiUnicode, Char.isDigit, Bool.and_eq_true, decide_eq_true_eq, ge_iff_le,
      UInt32.le_iff_toNat_le, htoNat] at h
    simp at h
    simp [isSpace]
    omega
  lower_plain := fun _ _ => rfl

/-- A precision in capital letters, with spaces. -/
theorem type_roundtrip_stable_decimal :
    snowflakeTypeToPostgres asciiUnicode
        (ofText (postgresTypeToSnowflake asciiUnicode (ofText " DECIMAL  (10 , 2)".toList))) =
      "numeric(".toList ++ "10".toList ++ ",".toList ++ "2".toList ++ ")".toList :=
  (type_roundtrip_stable asciiUnicode digitFacts_ascii).2.1 "10".toList "2".toList
    " DECIMAL  (10 , 2)".toList
    (digits_of_ascii digitFacts_ascii (by decide) (by decide))
    (digits_of_ascii digitFacts_ascii (by decide) (by decide))
    ⟨"decimal".toList, by simp, [' '], [' '], [' '], by simp [isSpace], by simp [isSpace],
      by simp [isSpace], by decide +kernel⟩

end PgErdCloud.Ddl
