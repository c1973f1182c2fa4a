/-
  Python's `base64.urlsafe_b64encode` and `urlsafe_b64decode`. The decoder is the lenient one:
  it passes over what is not in the alphabet and stops where the padding completes a group.
-/
import PgErdCloud.Lib.PyStr

namespace PgErdCloud.Lib.Base64

open PyStr

/-! ## The alphabet -/

/-- The 64 characters of the standard alphabet. -/
def alphabet : Str :=
  "ABCDEFGHIJKLMNOPQRSTUVWXYZabcdefghijklmnopqrstuvwxyz0123456789+/".toList

/-- The character for six bits. -/
def symbol (n : Nat) : Char := alphabet.getD n 'A'

/-- The six bits of a character. -/
def value (ch : Char) : Option Nat := alphabet.findIdx? (· = ch)

/-- `_urlsafe_encode_translation` -/
def toUrlsafe (ch : Char) : Char := if ch = '+' then '-' else if ch = '/' then '_' else ch

/-- `_urlsafe_decode_translation` -/
def ofUrlsafe (ch : Char) : Char := if ch = '-' then '+' else if ch = '_' then '/' else ch

/-! ## Encoding -/

/-- The symbols of the bytes, without padding. -/
def symbols : List UInt8 → Str
  | [] => []
  | [a] => [symbol (a.toNat / 4), symbol (a.toNat % 4 * 16)]
  | [a, b] =>
      [symbol (a.toNat / 4), symbol (a.toNat % 4 * 16 + b.toNat / 16),
        symbol (b.toNat % 16 * 4)]
  | a :: b :: c :: bytes =>
      symbol (a.toNat / 4) :: symbol (a.toNat % 4 * 16 + b.toNat / 16) ::
        symbol (b.toNat % 16 * 4 + c.toNat / 64) :: symbol (c.toNat % 64) :: symbols bytes

/-- What completes the last group of four. -/
def padding (length : Nat) : Str := List.replicate ((4 - length % 4) % 4) '='

/-- `b64encode(bytes)` -/
def b64encode (bytes : List UInt8) : Str := symbols bytes ++ padding (symbols bytes).length

/-- `urlsafe_b64encode`: `-` and `_` stand for `+` and `/`. -/
def urlsafeB64encode (bytes : List UInt8) : Str := (b64encode bytes).map toUrlsafe

/-! ## Decoding -/

/-- `a2b_base64`: how many symbols of a group were read, the bits left of the last one, and the
    paddings behind it; `none` for `binascii.Error`. -/
def a2bBase64 (quadPos leftchar pads : Nat) : Str → Option (List UInt8)
  | [] => if quadPos = 0 then some [] else none
  | ch :: s =>
      if ch = '=' then
        if 2 ≤ quadPos then
          if 4 ≤ quadPos + (pads + 1) then some []
          else a2bBase64 quadPos leftchar (pads + 1) s
        else a2bBase64 quadPos leftchar pads s
      else match value ch with
        | none => a2bBase64 quadPos leftchar pads s
        | some v =>
            match quadPos with
            | 0 => a2bBase64 1 v 0 s
            | 1 => (a2bBase64 2 (v % 16) 0 s).map (UInt8.ofNat (leftchar * 4 + v / 16) :: ·)
            | 2 => (a2bBase64 3 (v % 4) 0 s).map (UInt8.ofNat (leftchar * 16 + v / 4) :: ·)
            | _ => (a2bBase64 0 0 0 s).map (UInt8.ofNat (leftchar * 64 + v) :: ·)

/-- `urlsafe_b64decode(s)`; `none` for a `ValueError`, also that for a text beyond ASCII. -/
def urlsafeB64decode (s : Str) : Option (List UInt8) :=
  if isAscii s then a2bBase64 0 0 0 (s.map ofUrlsafe) else none

/-! ## Decoding what was encoded -/

theorem value_symbol : ∀ n < 64, value (symbol n) = some n := by decide +kernel

theorem symbol_ne_pad : ∀ n < 64, symbol n ≠ '=' := by decide +kernel

theorem urlsafe_symbol : ∀ n < 64, ofUrlsafe (toUrlsafe (symbol n)) = symbol n := by
  decide +kernel

/-- The symbols of the URL-safe alphabet. -/
theorem toUrlsafe_symbol : ∀ n < 64, (toUrlsafe (symbol n)).toNat < 128 ∧
    toUrlsafe (symbol n) ≠ '=' ∧ toUrlsafe (symbol n) ≠ '.' := by
  decide +kernel

/-- A symbol at each place of a group. -/
theorem a2bBase64_symbol {n : Nat} (h : n < 64) (leftchar : Nat) (s : Str) :
    a2bBase64 0 leftchar 0 (symbol n :: s) = a2bBase64 1 n 0 s ∧
    a2bBase64 1 leftchar 0 (symbol n :: s) =
      (a2bBase64 2 (n % 16) 0 s).map (UInt8.ofNat (leftchar * 4 + n / 16) :: ·) ∧
    a2bBase64 2 leftchar 0 (symbol n :: s) =
      (a2bBase64 3 (n % 4) 0 s).map (UInt8.ofNat (leftchar * 16 + n / 4) :: ·) ∧
    a2bBase64 3 leftchar 0 (symbol n :: s) =
      (a2bBase64 0 0 0 s).map (UInt8.ofNat (leftchar * 64 + n) :: ·) := by
  have hpad := symbol_ne_pad n h
  have hvalue := value_symbol n h
  refine ⟨?_, ?_, ?_, ?_⟩ <;> simp only [a2bBase64, if_neg hpad, hvalue]

theorem eq_of_toNat {a : UInt8} {n : Nat} (h : n = a.toNat) : UInt8.ofNat n = a := by
  rw [h, UInt8.ofNat_toNat]

theorem mem_symbols {bytes : List UInt8} {ch : Char} (h : ch ∈ symbols bytes) :
    ∃ n < 64, ch = symbol n := by
  fun_induction symbols bytes with
  | case1 => exact nomatch h
  | case2 a =>
      have ha := a.toNat_lt
      simp only [List.mem_cons, List.not_mem_nil, or_false] at h
      rcases h with rfl | rfl
      · exact ⟨_, by omega, rfl⟩
      · exact ⟨_, by omega, rfl⟩
  | case3 a b =>
      have ha := a.toNat_lt
      have hb := b.toNat_lt
      simp only [List.mem_cons, List.not_mem_nil, or_false] at h
      rcases h with rfl | rfl | rfl
      · exact ⟨_, by omega, rfl⟩
      · exact ⟨_, by omega, rfl⟩
      · exact ⟨_, by omega, rfl⟩
  | case4 a b c bytes ih =>
      have ha := a.toNat_lt
      have hb := b.toNat_lt
      have hc := c.toNat_lt
      simp only [List.mem_cons] at h
      rcases h with rfl | rfl | rfl | rfl | h
      · exact ⟨_, by omega, rfl⟩
      · exact ⟨_, by omega, rfl⟩
      · exact ⟨_, by omega, rfl⟩
      · exact ⟨_, by omega, rfl⟩
      · exact ih h

theorem padding_add_four (length : Nat) : padding (length + 4) = padding length := by
  unfold padding
  rw [Nat.add_mod_right]

/-- **Decoding undoes encoding.** -/
theorem a2bBase64_b64encode (bytes : List UInt8) :
    a2bBase64 0 0 0 (b64encode bytes) = some bytes := by
  unfold b64encode
  fun_induction symbols bytes with
  | case1 => rfl
  | case2 a =>
      have ha := a.toNat_lt
      have hpad : padding 2 = ['=', '='] := rfl
      simp only [List.length_cons, List.length_nil, Nat.zero_add, Nat.reduceAdd, hpad,
        List.cons_append, List.nil_append]
      rw [(a2bBase64_symbol (by omega) 0 _).1, (a2bBase64_symbol (by omega) _ _).2.1]
      rw [eq_of_toNat (a := a) (by omega)]
      rfl
  | case3 a b =>
      have ha := a.toNat_lt
      have hb := b.toNat_lt
      have hpad : padding 3 = ['='] := rfl
      simp only [List.length_cons, List.length_nil, Nat.zero_add, Nat.reduceAdd, hpad,
        List.cons_append, List.nil_append]
      rw [(a2bBase64_symbol (by omega) 0 _).1, (a2bBase64_symbol (by omega) _ _).2.1,
        (a2bBase64_symbol (by omega) _ _).2.2.1]
      rw [eq_of_toNat (a := a) (by omega), eq_of_toNat (a := b) (by omega)]
      rfl
  | case4 a b c bytes ih =>
      have ha := a.toNat_lt
      have hb := b.toNat_lt
      have hc := c.toNat_lt
      simp only [List.length_cons, padding_add_four, List.cons_append]
      rw [(a2bBase64_symbol (by omega) 0 _).1, (a2bBase64_symbol (by omega) _ _).2.1,
        (a2bBase64_symbol (by omega) _ _).2.2.1, (a2bBase64_symbol (by omega) _ _).2.2.2, ih]
      rw [eq_of_toNat (a := a) (by omega), eq_of_toNat (a := b) (by omega),
        eq_of_toNat (a := c) (by omega)]
      rfl

end PgErdCloud.Lib.Base64
