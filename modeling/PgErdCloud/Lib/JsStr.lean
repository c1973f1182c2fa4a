/-
  JavaScript string operations on the list of a string's code points. A character outside the
  basic multilingual plane is two code units, which is what a pattern without the flag `u`
  reads.
-/
import PgErdCloud.Lib.PyStr

namespace PgErdCloud.Lib.JsStr

open PyStr

/-- How many UTF-16 code units a character has. -/
def utf16Size (ch : Char) : Nat := if ch.toNat < 0x10000 then 1 else 2

/-- `s.replace(/[^…]/g, new)` for the class of the characters that satisfy `keep`. -/
def replaceOthers (keep : Char → Bool) (new : Char) (s : Str) : Str :=
  s.flatMap fun ch => if keep ch then [ch] else List.replicate (utf16Size ch) new

/-- `s.replace(old, "")`: the first occurrence goes. -/
def removeFirst (old : Str) : Str → Str
  | [] => []
  | ch :: s => if old.isPrefixOf (ch :: s) then (ch :: s).drop old.length
      else ch :: removeFirst old s

/-- White space and line terminators. -/
def isSpace (ch : Char) : Bool :=
  let n := ch.toNat
  (9 ≤ n && n ≤ 13) || n == 0x20 || n == 0xA0 || n == 0x1680 || (0x2000 ≤ n && n ≤ 0x200A) ||
    n == 0x2028 || n == 0x2029 || n == 0x202F || n == 0x205F || n == 0x3000 || n == 0xFEFF

/-- `s.trim()` -/
def trim (s : Str) : Str :=
  ((s.dropWhile isSpace).reverse.dropWhile isSpace).reverse

/-- `s.padStart(width, fill)` -/
def padStart (width : Nat) (fill : Char) (s : Str) : Str :=
  List.replicate (width - s.length) fill ++ s

/-- A letter of ASCII, a digit or an underscore. -/
def isWordChar (ch : Char) : Bool := ch.isAlphanum || ch = '_'

/-- `/^[a-zA-Z_][a-zA-Z0-9_]*$/.test(s)` -/
def isIdentifier : Str → Bool
  | [] => false
  | ch :: s => (ch.isAlpha || ch = '_') && s.all isWordChar

/-- A string is falsy when it is empty. -/
def orElse (s other : Str) : Str := if s = [] then other else s

theorem length_replaceOthers_le (keep : Char → Bool) (new : Char) (s : Str) :
    (replaceOthers keep new s).length ≤ 2 * s.length := by
  induction s with
  | nil => exact Nat.le_refl 0
  | cons ch s ih =>
      have hch : (if keep ch then [ch] else List.replicate (utf16Size ch) new).length ≤ 2 := by
        unfold utf16Size
        split_ifs <;> simp
      rw [replaceOthers, List.flatMap_cons, List.length_append, List.length_cons]
      rw [replaceOthers] at ih
      omega

theorem length_le_replaceOthers (keep : Char → Bool) (new : Char) (s : Str) :
    s.length ≤ (replaceOthers keep new s).length := by
  induction s with
  | nil => exact Nat.le_refl 0
  | cons ch s ih =>
      have hch : 1 ≤ (if keep ch then [ch] else List.replicate (utf16Size ch) new).length := by
        unfold utf16Size
        split_ifs <;> simp
      rw [replaceOthers, List.flatMap_cons, List.length_append, List.length_cons]
      rw [replaceOthers] at ih
      omega

theorem isSpace_of_isWordChar {ch : Char} (h : isWordChar ch = true) : isSpace ch = false := by
  rcases Bool.or_eq_true_iff.mp h with halphanum | hline
  · have htoNat : ch.val.toNat = ch.toNat := rfl
    simp only [Char.isAlphanum, Char.isAlpha, Char.isUpper, Char.isLower, Char.isDigit,
      Bool.or_eq_true, Bool.and_eq_true, decide_eq_true_eq, ge_iff_le, UInt32.le_iff_toNat_le,
      htoNat] at halphanum
    simp at halphanum
    simp [isSpace]
    omega
  · rw [of_decide_eq_true hline]
    rfl

theorem isWordChar_of_isIdentifier {s : Str} (h : isIdentifier s = true) {ch : Char}
    (hch : ch ∈ s) : isWordChar ch = true := by
  cases s with
  | nil => exact absurd h Bool.false_ne_true
  | cons first s =>
      obtain ⟨hfirst, hs⟩ := Bool.and_eq_true_iff.mp h
      rcases List.mem_cons.mp hch with rfl | hch
      · simp only [isWordChar, Char.isAlphanum, Bool.or_eq_true] at hfirst ⊢
        exact hfirst.imp_left Or.inl
      · exact List.all_eq_true.mp hs ch hch

theorem trim_eq_rdropWhile (s : Str) : trim s = (s.dropWhile isSpace).rdropWhile isSpace := rfl

theorem isSpace_getLast_trim (s : Str) : ∀ ch ∈ (trim s).getLast?, isSpace ch = false := by
  intro ch hch
  rw [trim, List.getLast?_reverse] at hch
  have hnot := List.head?_dropWhile_not isSpace (s.dropWhile isSpace).reverse
  rw [Option.mem_def.mp hch] at hnot
  simpa using hnot

theorem isSpace_head_trim (s : Str) : ∀ ch ∈ (trim s).head?, isSpace ch = false := by
  intro ch hch
  obtain ⟨rest, hrest⟩ := List.rdropWhile_prefix isSpace (s.dropWhile isSpace)
  have hnot := List.head?_dropWhile_not isSpace s
  rw [← hrest, ← trim_eq_rdropWhile, List.head?_append, Option.mem_def.mp hch] at hnot
  simpa using hnot

/-- A text that begins and ends in visible characters is left as it is. -/
theorem trim_of_ends {s : Str} (hhead : ∀ ch ∈ s.head?, isSpace ch = false)
    (hlast : ∀ ch ∈ s.getLast?, isSpace ch = false) : trim s = s := by
  have hdrop {t : Str} (h : ∀ ch ∈ t.head?, isSpace ch = false) : t.dropWhile isSpace = t := by
    cases t with
    | nil => rfl
    | cons ch t => rw [List.dropWhile_cons, h ch rfl, if_neg Bool.false_ne_true]
  rw [trim, hdrop hhead, hdrop (by rwa [List.head?_reverse]), List.reverse_reverse]

/-- Blanks behind a text that begins and ends in visible characters are dropped. -/
theorem trim_append_of_ends {s blank : Str} (hne : s ≠ [])
    (hhead : ∀ ch ∈ s.head?, isSpace ch = false) (hlast : ∀ ch ∈ s.getLast?, isSpace ch = false)
    (hblank : ∀ ch ∈ blank, isSpace ch = true) : trim (s ++ blank) = s := by
  obtain ⟨ch, rest, rfl⟩ := List.exists_cons_of_ne_nil hne
  have hch : ¬ isSpace ch = true := by
    rw [hhead ch rfl]
    exact Bool.false_ne_true
  have hdropped : blank.reverse.dropWhile isSpace = [] :=
    List.dropWhile_eq_nil_iff.mpr fun c hc => hblank c (List.mem_reverse.mp hc)
  have htrim := trim_of_ends hhead hlast
  rw [trim, List.dropWhile_cons_of_neg hch] at htrim
  rw [trim, List.cons_append, List.dropWhile_cons_of_neg hch, ← List.cons_append,
    List.reverse_append, List.dropWhile_append, hdropped]
  exact htrim

/-- What begins with the text to remove loses it. -/
theorem removeFirst_append {old : Str} (s : Str) (h : old ≠ []) :
    removeFirst old (old ++ s) = s := by
  cases old with
  | nil => exact absurd rfl h
  | cons ch old =>
      rw [List.cons_append, removeFirst, ← List.cons_append, if_pos]
      · exact List.drop_left
      · exact List.isPrefixOf_iff_prefix.mpr (List.prefix_append _ _)

end PgErdCloud.Lib.JsStr
