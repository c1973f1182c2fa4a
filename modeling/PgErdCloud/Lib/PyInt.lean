/-
  Python's `int(text)` and `str(number)`. Both refuse a number of more than 4300 digits. What
  is a digit beyond ASCII depends on the Unicode database, so it is a parameter.
-/
import PgErdCloud.Lib.PyStr

namespace PgErdCloud.Lib.PyInt

open PyStr

/-- `sys.get_int_max_str_digits()` -/
def maxStrDigits : Nat := 4300

/-! ## Writing -/

/-- `str(n)` -/
def digitsOf (n : Nat) : Str := Nat.toDigits 10 n

/-- `str(i)`; `none` for the `ValueError`. -/
def strInt (i : Int) : Option Str :=
  if (digitsOf i.natAbs).length ≤ maxStrDigits then
    some (if i < 0 then '-' :: digitsOf i.natAbs else digitsOf i.natAbs)
  else none

/-! ## Reading -/

/-- The white space around a number: that of C, and beyond ASCII that of `str.isspace`. -/
def isIntSpace (ch : Char) : Bool :=
  let n := ch.toNat
  (9 ≤ n && n ≤ 13) || n == 32 || (127 < n && isSpace ch)

/-- The value of a decimal digit, of ASCII or of another script. -/
def digitValue (decimal : Char → Option Nat) (ch : Char) : Option Nat :=
  if ch.isDigit then some (ch.toNat - '0'.toNat)
  else if 127 < ch.toNat then decimal ch
  else none

/-- The values of digits, which single underscores may group. -/
def digitGroups (decimal : Char → Option Nat) (s : Str) : Option (List Nat) := do
  let groups ← (s.splitOn '_').mapM fun group =>
    if group = [] then none else group.mapM (digitValue decimal)
  pure groups.flatten

/-- `int(s)` of a text without a sign. CPython refuses more digits than `maxStrDigits`. -/
def unsigned (decimal : Char → Option Nat) (s : Str) : Option Nat :=
  match digitGroups decimal s with
  | some digits =>
      if digits.length ≤ maxStrDigits then some (digits.foldl (fun n d => 10 * n + d) 0)
      else none
  | none => none

/-- The white space that `int` ignores at both ends. -/
def trimInt (s : Str) : Str :=
  ((s.dropWhile isIntSpace).reverse.dropWhile isIntSpace).reverse

/-- `int(s)`; `none` for the `ValueError`. -/
def parseInt (decimal : Char → Option Nat) (s : Str) : Option Int :=
  match trimInt s with
  | '-' :: digits => (unsigned decimal digits).map fun n : Nat => -(n : Int)
  | '+' :: digits => (unsigned decimal digits).map Nat.cast
  | digits => (unsigned decimal digits).map Nat.cast

/-! ## Reading what was written -/

/-- What `strInt` writes: digits, behind a sign or not. -/
theorem mem_strInt {i : Int} {s : Str} (h : strInt i = some s) :
    ∀ ch ∈ s, ch = '-' ∨ ch.isDigit = true := by
  have hdigit : ∀ ch ∈ digitsOf i.natAbs, ch.isDigit = true := fun ch hm =>
    Nat.isDigit_of_mem_toDigits (by decide) (by decide) hm
  unfold strInt at h
  split_ifs at h
  · obtain rfl := Option.some.inj h
    intro ch hm
    rcases List.mem_cons.mp hm with rfl | hm
    · exact .inl rfl
    · exact .inr (hdigit ch hm)
  · obtain rfl := Option.some.inj h
    intro ch hm
    exact .inr (hdigit ch hm)

theorem isDigit_toNat {ch : Char} (h : ch.isDigit = true) : 48 ≤ ch.toNat ∧ ch.toNat ≤ 57 := by
  simp only [Char.isDigit, Bool.and_eq_true, decide_eq_true_eq, ge_iff_le,
    UInt32.le_iff_toNat_le] at h
  exact h

theorem isIntSpace_of_isDigit {ch : Char} (h : ch.isDigit = true) : isIntSpace ch = false := by
  obtain ⟨hlow, hhigh⟩ := isDigit_toNat h
  have h13 : ¬ ch.toNat ≤ 13 := by omega
  have h32 : ch.toNat ≠ 32 := by omega
  have h127 : ¬ 127 < ch.toNat := by omega
  simp [isIntSpace, h13, h32, h127]

/-- Digits are read as the number they stand for. -/
theorem unsigned_digitsOf (decimal : Char → Option Nat) {n : Nat}
    (h : (digitsOf n).length ≤ maxStrDigits) : unsigned decimal (digitsOf n) = some n := by
  have hdigit : ∀ ch ∈ digitsOf n, ch.isDigit = true := fun ch hm =>
    Nat.isDigit_of_mem_toDigits (by decide) (by decide) hm
  have hvalues : ∀ s : Str, (∀ ch ∈ s, ch.isDigit = true) →
      s.mapM (digitValue decimal) = some (s.map fun ch => ch.toNat - '0'.toNat) := by
    intro s
    induction s with
    | nil => intro _; rfl
    | cons ch s ih =>
        intro hs
        have hhead : digitValue decimal ch = some (ch.toNat - '0'.toNat) :=
          if_pos (hs ch List.mem_cons_self)
        rw [List.mapM_cons, hhead, ih fun c hc => hs c (List.mem_cons_of_mem _ hc)]
        rfl
  have hne : digitsOf n ≠ [] := Nat.toDigits_ne_nil
  have hsplit : (digitsOf n).splitOn '_' = [digitsOf n] :=
    List.splitOn_eq_singleton Nat.underscore_not_in_toDigits
  have hgroups : digitGroups decimal (digitsOf n) =
      some ((digitsOf n).map fun ch => ch.toNat - '0'.toNat) := by
    unfold digitGroups
    rw [hsplit, List.mapM_cons, if_neg hne, hvalues _ hdigit]
    simp
  have hvalue : ((digitsOf n).map fun ch => ch.toNat - '0'.toNat).foldl
      (fun n d => 10 * n + d) 0 = n := by
    rw [List.foldl_map]
    exact (Nat.ofDigitChars_eq_foldl).symm.trans Nat.ofDigitChars_ten_toDigits
  unfold unsigned
  rw [hgroups]
  simp only [List.length_map, if_pos h, hvalue]

theorem trimInt_of_mem {s : Str} (h : ∀ ch ∈ s, isIntSpace ch = false) : trimInt s = s := by
  have hdrop : ∀ s : Str, (∀ ch ∈ s, isIntSpace ch = false) → s.dropWhile isIntSpace = s := by
    intro s hs
    cases s with
    | nil => rfl
    | cons ch s =>
        rw [List.dropWhile_cons, if_neg]
        rw [hs ch List.mem_cons_self]
        exact Bool.false_ne_true
  unfold trimInt
  rw [hdrop s h, hdrop s.reverse fun ch hm => h ch (List.mem_reverse.mp hm),
    List.reverse_reverse]

/-- **`int(str(i))` is `i`.** -/
theorem parseInt_strInt (decimal : Char → Option Nat) {i : Int} {s : Str}
    (h : strInt i = some s) : parseInt decimal s = some i := by
  have htrim : trimInt s = s := by
    refine trimInt_of_mem fun ch hm => ?_
    rcases mem_strInt h ch hm with rfl | hdigit
    · decide
    · exact isIntSpace_of_isDigit hdigit
  unfold strInt at h
  split_ifs at h with hlength hneg
  · obtain rfl := Option.some.inj h
    unfold parseInt
    rw [htrim]
    have hvalue : -(i.natAbs : Int) = i := by omega
    simp only [unsigned_digitsOf decimal hlength, Option.map_some, hvalue]
  · obtain rfl := Option.some.inj h
    have hread := unsigned_digitsOf decimal hlength
    have hdigit : ∀ ch ∈ digitsOf i.natAbs, ch.isDigit = true := fun ch hm =>
      Nat.isDigit_of_mem_toDigits (by decide) (by decide) hm
    have hvalue : (i.natAbs : Int) = i := by omega
    unfold parseInt
    rw [htrim]
    generalize digitsOf i.natAbs = digits at hread hdigit ⊢
    split
    · exact absurd (hdigit '-' List.mem_cons_self) (by decide)
    · exact absurd (hdigit '+' List.mem_cons_self) (by decide)
    · rw [hread, Option.map_some, hvalue]

end PgErdCloud.Lib.PyInt
