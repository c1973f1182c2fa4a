/-
  The handles of columns (erd/handleUtils.ts) over all strings of JavaScript. Such a string is a
  sequence of 16-bit units, and a surrogate in it need not have its other half.

  `handleIds_injective` says of all strings that different columns have different handles, and
  that no handle of one end is one of the other end.
-/
import PgErdCloud.Canvas.Graph

namespace PgErdCloud.Canvas.HandleIds

open Lib Lib.PyStr Lib.Hex

/-- A JavaScript string, in 16-bit units; halves of a pair may stand alone. -/
abbrev JsString := List UInt16

/-! ## Code points -/

/-- The first half of a pair. -/
def isHigh (unit : UInt16) : Bool := 0xD800 ≤ unit.toNat ∧ unit.toNat < 0xDC00

/-- The second half of a pair. -/
def isLow (unit : UInt16) : Bool := 0xDC00 ≤ unit.toNat ∧ unit.toNat < 0xE000

/-- The code point that two halves stand for. -/
def pairPoint (high low : UInt16) : Nat :=
  0x10000 + (high.toNat - 0xD800) * 0x400 + (low.toNat - 0xDC00)

/-- What `Array.from` iterates over. A surrogate without its other half stands for itself. -/
def codePoints : JsString → List Nat
  | [] => []
  | [unit] => [unit.toNat]
  | unit :: next :: s =>
      if isHigh unit ∧ isLow next then pairPoint unit next :: codePoints s
      else unit.toNat :: codePoints (next :: s)

/-- The units of a code point. -/
def pointUnits (point : Nat) : JsString :=
  if point < 0x10000 then [UInt16.ofNat point]
  else
    [UInt16.ofNat (0xD800 + (point - 0x10000) / 0x400),
      UInt16.ofNat (0xDC00 + (point - 0x10000) % 0x400)]

/-- `sanitizeHandleId` of any string. -/
def sanitizeHandleId (columnName : JsString) : Str := encodePoints (codePoints columnName)

/-- The handle at which edges begin. -/
def sourceColumnHandleId (columnName : JsString) : Str :=
  "src-".toList ++ sanitizeHandleId columnName

/-- The handle at which edges end. -/
def targetColumnHandleId (columnName : JsString) : Str :=
  "tgt-".toList ++ sanitizeHandleId columnName

example : sourceColumnHandleId [0xD83D, 0xDE00, 0xD83D] = "src-c-1f600-d83d".toList := by decide

/-! ## Decoding -/

theorem pointUnits_unit (unit : UInt16) : pointUnits unit.toNat = [unit] := by
  rw [pointUnits, if_pos unit.toNat_lt, UInt16.ofNat_toNat]

theorem isHigh_iff {unit : UInt16} :
    isHigh unit = true ↔ 0xD800 ≤ unit.toNat ∧ unit.toNat < 0xDC00 := by
  rw [isHigh, decide_eq_true_eq]

theorem isLow_iff {unit : UInt16} :
    isLow unit = true ↔ 0xDC00 ≤ unit.toNat ∧ unit.toNat < 0xE000 := by
  rw [isLow, decide_eq_true_eq]

theorem pairPoint_eq {high low : UInt16} {h l : Nat} (hhigh : high.toNat = h)
    (hlow : low.toNat = l) :
    pairPoint high low = 0x10000 + (h - 0xD800) * 0x400 + (l - 0xDC00) := by
  subst hhigh hlow
  rfl

/-- The halves are found again in the code point. -/
theorem halves {high low : Nat} (hhigh : 0xD800 ≤ high ∧ high < 0xDC00)
    (hlow : 0xDC00 ≤ low ∧ low < 0xE000) {point : Nat}
    (hpoint : point = 0x10000 + (high - 0xD800) * 0x400 + (low - 0xDC00)) :
    ¬ point < 0x10000 ∧ 0xD800 + (point - 0x10000) / 0x400 = high ∧
      0xDC00 + (point - 0x10000) % 0x400 = low := by
  omega

theorem pointUnits_pairPoint {high low : UInt16} (hhigh : isHigh high = true)
    (hlow : isLow low = true) : pointUnits (pairPoint high low) = [high, low] := by
  obtain ⟨hlarge, hdiv, hmod⟩ := halves (isHigh_iff.mp hhigh) (isLow_iff.mp hlow)
    (rfl : pairPoint high low = _)
  rw [pointUnits, if_neg hlarge, hdiv, hmod, UInt16.ofNat_toNat, UInt16.ofNat_toNat]

/-- The code points have the units of the string. -/
theorem flatMap_pointUnits_codePoints (s : JsString) : (codePoints s).flatMap pointUnits = s := by
  induction s using codePoints.induct with
  | case1 => rfl
  | case2 unit => rw [codePoints, List.flatMap_singleton, pointUnits_unit]
  | case3 unit next s h ih =>
      rw [codePoints, if_pos h, List.flatMap_cons, pointUnits_pairPoint h.1 h.2, ih]
      rfl
  | case4 unit next s h ih =>
      rw [codePoints, if_neg h, List.flatMap_cons, pointUnits_unit, ih]
      rfl

theorem codePoints_injective : Function.Injective codePoints :=
  Function.LeftInverse.injective flatMap_pointUnits_codePoints

theorem sanitizeHandleId_injective : Function.Injective sanitizeHandleId :=
  encodePoints_injective.comp codePoints_injective

/-- **No two columns have one handle, and no handle is at both sides.** -/
theorem handleIds_injective :
    Function.Injective sourceColumnHandleId ∧ Function.Injective targetColumnHandleId ∧
      ∀ a b, sourceColumnHandleId a ≠ targetColumnHandleId b := by
  refine ⟨fun a b h => ?_, fun a b h => ?_, fun a b h => ?_⟩
  · exact sanitizeHandleId_injective (List.append_cancel_left h)
  · exact sanitizeHandleId_injective (List.append_cancel_left h)
  · exact absurd (Option.some.inj (congrArg List.head? h)) (by decide)

/-! ## Names without lone surrogates -/

/-- The units of a text. -/
def utf16 (s : Str) : JsString := s.flatMap fun ch => pointUnits ch.toNat

theorem codePoints_unit_append {unit : UInt16} (h : isHigh unit = false) (s : JsString) :
    codePoints (unit :: s) = unit.toNat :: codePoints s := by
  cases s with
  | nil => rfl
  | cons next s => rw [codePoints, if_neg fun hpair => absurd hpair.1 (by rw [h]; decide)]

theorem codePoints_pair {high low : UInt16} (hhigh : isHigh high = true)
    (hlow : isLow low = true) (s : JsString) :
    codePoints (high :: low :: s) = pairPoint high low :: codePoints s := by
  rw [codePoints, if_pos ⟨hhigh, hlow⟩]

/-- The halves of a code point are surrogates that stand for it. -/
theorem point_halves {point : Nat} (hlarge : 0x10000 ≤ point)
    (hvalid : point < 0xD800 ∨ 0xDFFF < point ∧ point < 0x110000) :
    (0xD800 ≤ 0xD800 + (point - 0x10000) / 0x400 ∧
        0xD800 + (point - 0x10000) / 0x400 < 0xDC00) ∧
      (0xDC00 ≤ 0xDC00 + (point - 0x10000) % 0x400 ∧
        0xDC00 + (point - 0x10000) % 0x400 < 0xE000) ∧
      0x10000 + (0xD800 + (point - 0x10000) / 0x400 - 0xD800) * 0x400 +
        (0xDC00 + (point - 0x10000) % 0x400 - 0xDC00) = point := by
  omega

theorem codePoints_pointUnits_append (ch : Char) (s : JsString) :
    codePoints (pointUnits ch.toNat ++ s) = ch.toNat :: codePoints s := by
  have hvalid : ch.toNat < 0xD800 ∨ 0xDFFF < ch.toNat ∧ ch.toNat < 0x110000 := ch.valid
  rw [pointUnits]
  split_ifs with hsmall
  · have hunit : (UInt16.ofNat ch.toNat).toNat = ch.toNat := UInt16.toNat_ofNat_of_lt hsmall
    have hhigh : isHigh (UInt16.ofNat ch.toNat) = false := by
      rw [isHigh, hunit]
      exact decide_eq_false (by omega)
    rw [List.singleton_append, codePoints_unit_append hhigh, hunit]
  · have hlarge : 0x10000 ≤ ch.toNat := Nat.not_lt.mp hsmall
    obtain ⟨hhighBound, hlowBound, hpoint⟩ := point_halves hlarge hvalid
    generalize 0xD800 + (ch.toNat - 0x10000) / 0x400 = high at hhighBound hpoint ⊢
    generalize 0xDC00 + (ch.toNat - 0x10000) % 0x400 = low at hlowBound hpoint ⊢
    have hhigh : (UInt16.ofNat high).toNat = high :=
      UInt16.toNat_ofNat_of_lt (Nat.lt_trans hhighBound.2 (by decide))
    have hlow : (UInt16.ofNat low).toNat = low :=
      UInt16.toNat_ofNat_of_lt (Nat.lt_trans hlowBound.2 (by decide))
    have hisHigh : isHigh (UInt16.ofNat high) = true := isHigh_iff.mpr (by rwa [hhigh])
    have hisLow : isLow (UInt16.ofNat low) = true := isLow_iff.mpr (by rwa [hlow])
    have hpair := (pairPoint_eq hhigh hlow).trans hpoint
    rw [List.cons_append, List.singleton_append, codePoints_pair hisHigh hisLow, hpair]

theorem codePoints_utf16 (s : Str) : codePoints (utf16 s) = s.map Char.toNat := by
  induction s with
  | nil => rfl
  | cons ch s ih =>
      rw [utf16, List.flatMap_cons, codePoints_pointUnits_append, ← utf16, ih]
      rfl

/-- The handles are those that the edges of a diagram have. -/
theorem sanitizeHandleId_utf16 (s : Str) :
    sanitizeHandleId (utf16 s) = Canvas.sanitizeHandleId s := by
  rw [sanitizeHandleId, codePoints_utf16, sanitizeHandleId_eq]

end PgErdCloud.Canvas.HandleIds
