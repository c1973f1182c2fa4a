/-
  Python `str` operations on the list of a string's code points.

  `strip`, `split` and the whitespace class follow the Python documentation; `upper` is the
  ASCII case mapping and is only used on text already known to be ASCII.
-/
import Mathlib

namespace PgErdCloud.Lib.PyStr

/-- `str.isspace` for one character, which is also the class `\s` of a `str` pattern. -/
def isSpace (ch : Char) : Bool :=
  let n := ch.toNat
  (9 ≤ n && n ≤ 13) || (28 ≤ n && n ≤ 32) || n == 0x85 || n == 0xA0 || n == 0x1680 ||
    (0x2000 ≤ n && n ≤ 0x200A) || n == 0x2028 || n == 0x2029 || n == 0x202F || n == 0x205F ||
    n == 0x3000

/-- `str.isascii`. -/
def isAscii (s : List Char) : Bool :=
  s.all fun ch => ch.toNat < 128

/-- `str.lstrip()`. -/
def lstrip (s : List Char) : List Char :=
  s.dropWhile isSpace

/-- `str.strip()`. -/
def strip (s : List Char) : List Char :=
  (lstrip (lstrip s).reverse).reverse

/-- `str.lstrip(chars)`. -/
def lstripChars (chars s : List Char) : List Char :=
  s.dropWhile (· ∈ chars)

/-- `str.rstrip(chars)`. -/
def rstripChars (chars s : List Char) : List Char :=
  (lstripChars chars s.reverse).reverse

/-- `str.strip(chars)`. -/
def stripChars (chars s : List Char) : List Char :=
  rstripChars chars (lstripChars chars s)

/-- `str.split(sep)` for a one-character separator. -/
def split (sep : Char) (s : List Char) : List (List Char) :=
  s.splitOn sep

/-- `sub in s`. -/
def contains (sub s : List Char) : Bool :=
  decide (sub <:+: s)

/-- `sep.join(parts)`. -/
def join (sep : List Char) (parts : List (List Char)) : List Char :=
  sep.intercalate parts

/-- `str.upper()` on ASCII text. -/
def upper (s : List Char) : List Char :=
  s.map Char.toUpper

/-- A string as the list of its code points. -/
abbrev Str := List Char

/-- Texts are equal when their characters are. -/
instance lawfulBEqStr : LawfulBEq Str := inferInstance

instance lawfulBEqStrPair : LawfulBEq (Str × Str) := inferInstance

/-- What depends on the Unicode database in use: `str.lower()`, `str.upper()`, the class `\d` of
    a `str` pattern, and `str.isalnum()` of a character. -/
structure Unicode where
  lower : Str → Str
  upper : Str → Str
  isDigit : Char → Bool
  isAlnum : Char → Bool

/-- The part of the database about ASCII text. -/
def asciiUnicode : Unicode :=
  ⟨List.map Char.toLower, List.map Char.toUpper, Char.isDigit, Char.isAlphanum⟩

/-- `s.replace(ch, new)` for a character. -/
def replaceChar (ch : Char) (new : Str) (s : Str) : Str :=
  s.flatMap fun c => if c = ch then new else [c]

/-- `s.endswith(end)`. -/
def endsWith (s ending : Str) : Bool :=
  ending.isSuffixOf s

/-- `s.startswith(start)`. -/
def startsWith (s start : List Char) : Bool :=
  start.isPrefixOf s

/-- Equality up to ASCII letter case. -/
def EqIgnoreCase (s t : List Char) : Prop :=
  s.map Char.toLower = t.map Char.toLower

theorem isSpace_of_isAlphanum {ch : Char} (h : ch.isAlphanum = true) : isSpace ch = false := by
  have htoNat : ch.val.toNat = ch.toNat := rfl
  simp only [Char.isAlphanum, Char.isAlpha, Char.isUpper, Char.isLower, Char.isDigit,
    Bool.or_eq_true, Bool.and_eq_true, decide_eq_true_eq, ge_iff_le, UInt32.le_iff_toNat_le,
    htoNat] at h
  simp at h
  simp [isSpace]
  omega

theorem takeWhile_append_stop {p : Char → Bool} {xs rest : List Char}
    (hxs : ∀ c ∈ xs, p c = true) (hrest : ∀ c ∈ rest.head?, p c = false) :
    (xs ++ rest).takeWhile p = xs := by
  rw [List.takeWhile_append_of_pos hxs]
  cases rest with
  | nil => simp
  | cons a rest => simp [hrest a rfl]

theorem lstrip_of_head {s : List Char} (h : ∀ ch ∈ s.head?, isSpace ch = false) :
    lstrip s = s := by
  cases s with
  | nil => rfl
  | cons a s => simp [lstrip, h a rfl]

theorem lstrip_space_cons {ch : Char} (s : List Char) (h : isSpace ch = true) :
    lstrip (ch :: s) = lstrip s := by
  simp [lstrip, h]

/-- A string that neither begins nor ends with whitespace is left alone by `strip`. -/
theorem strip_of_ends {s : List Char} (hh : ∀ ch ∈ s.head?, isSpace ch = false)
    (hl : ∀ ch ∈ s.getLast?, isSpace ch = false) : strip s = s := by
  have hr : lstrip s.reverse = s.reverse :=
    lstrip_of_head (by rw [List.head?_reverse]; exact hl)
  rw [strip, lstrip_of_head hh, hr, List.reverse_reverse]

theorem strip_space_cons {ch : Char} (s : List Char) (h : isSpace ch = true) :
    strip (ch :: s) = strip s := by
  simp [strip, lstrip_space_cons s h]

/-- `strip` keeps something of a string with a character that is not whitespace. -/
theorem strip_ne_nil {s : List Char} {ch : Char} (h : ch ∈ s) (hs : isSpace ch = false) :
    strip s ≠ [] := by
  have hl : lstrip s ≠ [] := by
    intro he
    rw [lstrip, List.dropWhile_eq_nil_iff] at he
    rw [he ch h] at hs
    exact absurd hs (by decide)
  have hd : isSpace ((lstrip s).head hl) = false := by
    simpa [lstrip] using List.head_dropWhile_not isSpace hl
  intro he
  rw [strip, List.reverse_eq_nil_iff, lstrip, List.dropWhile_eq_nil_iff] at he
  rw [he _ (List.mem_reverse.mpr (List.head_mem hl))] at hd
  exact absurd hd (by decide)

@[simp] theorem join_nil (sep : List Char) : join sep [] = [] := rfl

@[simp] theorem join_singleton (sep part : List Char) : join sep [part] = part := by
  simp [join, List.intercalate]

theorem join_cons_cons (sep p q : List Char) (parts : List (List Char)) :
    join sep (p :: q :: parts) = p ++ (sep ++ join sep (q :: parts)) := by
  simp [join, List.intercalate]

theorem mem_join {sep : List Char} {parts : List (List Char)} {ch : Char}
    (h : ch ∈ join sep parts) : ch ∈ sep ∨ ∃ p ∈ parts, ch ∈ p := by
  induction parts with
  | nil => exact absurd h List.not_mem_nil
  | cons p parts ih =>
      cases parts with
      | nil => exact .inr ⟨p, List.mem_cons_self, by simpa using h⟩
      | cons q parts =>
          rw [join_cons_cons, List.mem_append, List.mem_append] at h
          rcases h with h | h | h
          · exact .inr ⟨p, List.mem_cons_self, h⟩
          · exact .inl h
          · rcases ih h with h | ⟨r, hr, h⟩
            · exact .inl h
            · exact .inr ⟨r, List.mem_cons_of_mem p hr, h⟩

theorem contains_eq_false {sub s : List Char} {ch : Char} (hsub : ch ∈ sub) (hs : ch ∉ s) :
    contains sub s = false := by
  rw [contains, decide_eq_false_iff_not]
  exact fun h => hs (h.mem hsub)

/-- Strings equal up to letter case have the same upper-case form. -/
theorem EqIgnoreCase.upper_eq {s t : List Char} (h : EqIgnoreCase s t) :
    upper s = upper t := by
  have key : ∀ r : List Char, (r.map Char.toLower).map Char.toUpper = upper r := by
    intro r
    simp [upper, Function.comp_def]
  rw [← key s, ← key t, h]

end PgErdCloud.Lib.PyStr
