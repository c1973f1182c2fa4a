/-
  Numbers in hexadecimal, with zeros in front up to a width. The digits are those of a number,
  and numbers with the same digits are the same. Nothing here belongs to one program.
-/
import PgErdCloud.Lib.JsStr

namespace PgErdCloud.Lib.Hex

open PyStr

/-- `n.toString(16).padStart(width, "0")` -/
def paddedHex (width n : Nat) : Str := JsStr.padStart width '0' (Nat.toDigits 16 n)

/-- The value of a hexadecimal digit. -/
def hexDigit (ch : Char) : Nat := if ch.toNat ≤ 57 then ch.toNat - 48 else ch.toNat - 87

/-- The number that hexadecimal digits write. -/
def hexValue (digits : Str) : Nat := digits.foldl (fun n ch => 16 * n + hexDigit ch) 0

theorem hexDigit_digitChar {d : Nat} (h : d < 16) : hexDigit (Nat.digitChar d) = d := by
  interval_cases d <;> rfl

theorem hexValue_toDigits (n : Nat) : hexValue (Nat.toDigits 16 n) = n := by
  induction n using Nat.strong_induction_on with
  | _ n ih =>
      rw [Nat.toDigits_eq_if (by decide)]
      split_ifs with hsmall
      · simp [hexValue, hexDigit_digitChar hsmall]
      · have hrest := ih (n / 16) (by omega)
        have hdigit := hexDigit_digitChar (Nat.mod_lt n (by decide : 16 > 0))
        rw [hexValue] at hrest ⊢
        rw [List.foldl_append, hrest, List.foldl_cons, List.foldl_nil, hdigit]
        omega

/-- Zeros in front change no value. -/
theorem hexValue_padStart (width : Nat) (digits : Str) :
    hexValue (JsStr.padStart width '0' digits) = hexValue digits := by
  have hzeros : ∀ k, (List.replicate k '0').foldl (fun n ch => 16 * n + hexDigit ch) 0 = 0 := by
    intro k
    induction k with
    | zero => rfl
    | succ k ih => exact ih
  rw [hexValue, JsStr.padStart, List.foldl_append, hzeros]
  rfl

theorem paddedHex_injective (width : Nat) : Function.Injective (paddedHex width) := by
  intro m n h
  have hvalue := congrArg hexValue h
  rwa [paddedHex, paddedHex, hexValue_padStart, hexValue_padStart, hexValue_toDigits,
    hexValue_toDigits] at hvalue

theorem width_le_length_paddedHex (width n : Nat) : width ≤ (paddedHex width n).length := by
  rw [paddedHex, JsStr.padStart, List.length_append, List.length_replicate]
  omega

theorem mem_toDigits {n : Nat} {ch : Char} (h : ch ∈ Nat.toDigits 16 n) :
    ∃ d < 16, ch = Nat.digitChar d := by
  induction n using Nat.strong_induction_on with
  | _ n ih =>
      rw [Nat.toDigits_eq_if (by decide)] at h
      split_ifs at h with hsmall
      · exact ⟨n, hsmall, List.mem_singleton.mp h⟩
      · rcases List.mem_append.mp h with h | h
        · exact ih (n / 16) (by omega) h
        · exact ⟨n % 16, Nat.mod_lt n (by decide), List.mem_singleton.mp h⟩

/-- What stands in the text of a number is a digit. -/
theorem mem_paddedHex {width n : Nat} {ch : Char} (h : ch ∈ paddedHex width n) :
    ∃ d < 16, ch = Nat.digitChar d := by
  rw [paddedHex, JsStr.padStart, List.mem_append] at h
  rcases h with h | h
  · exact ⟨0, by decide, List.eq_of_mem_replicate h⟩
  · exact mem_toDigits h

end PgErdCloud.Lib.Hex
