/-
  Cutting a Python `str` at a separator, and into lines.
-/
import PgErdCloud.Lib.PyStr

namespace PgErdCloud.Lib.PyStr

/-! ## At a separator -/

/-- The text before the first occurrence of a separator and the text behind it. -/
def cutAt (sep : Str) : Str → Option (Str × Str)
  | [] => none
  | ch :: s =>
      if sep.isPrefixOf (ch :: s) then some ([], (ch :: s).drop sep.length)
      else (cutAt sep s).map fun cut => (ch :: cut.1, cut.2)

/-- The text before the last occurrence of a character and the text behind it. -/
def cutAtLast (sep : Char) (s : Str) : Option (Str × Str) :=
  (cutAt [sep] s.reverse).map fun cut => (cut.2.reverse, cut.1.reverse)

/-- `s.partition(sep)` without its middle part. -/
def partition (sep : Char) (s : Str) : Str × Str := (cutAt [sep] s).getD (s, [])

/-- `s.split()` -/
def words (s : Str) : List Str := (s.splitOnP isSpace).filter (· ≠ [])

/-- The parts do not contain the separator. -/
theorem not_mem_of_mem_split {sep : Char} {s part : Str} (h : part ∈ split sep s) :
    sep ∉ part := by
  unfold split at h
  induction s generalizing part with
  | nil =>
      obtain rfl := List.mem_singleton.mp h
      exact List.not_mem_nil
  | cons ch s ih =>
      rw [List.splitOn_cons_eq_if_modifyHead] at h
      split_ifs at h with hsep
      · rcases List.mem_cons.mp h with rfl | hm
        · exact List.not_mem_nil
        · exact ih hm
      · obtain ⟨first, rest, hparts⟩ := List.exists_cons_of_ne_nil (List.splitOn_ne_nil sep s)
        rw [hparts, List.modifyHead_cons] at h
        rw [hparts] at ih
        rcases List.mem_cons.mp h with rfl | hm
        · have hne : sep ≠ ch := fun he => hsep (beq_iff_eq.mpr he.symm)
          have hfirst : sep ∉ first := ih List.mem_cons_self
          exact List.not_mem_cons_of_ne_of_not_mem hne hfirst
        · exact ih (List.mem_cons_of_mem _ hm)

/-- A text is its parts with the separator between them. -/
theorem join_split (sep : Char) (s : Str) : join [sep] (split sep s) = s :=
  List.intercalate_splitOn sep

/-- Parts without the separator are found again. -/
theorem split_join {sep : Char} {parts : List Str} (h : ∀ part ∈ parts, sep ∉ part)
    (hne : parts ≠ []) : split sep (join [sep] parts) = parts :=
  List.splitOn_intercalate sep h hne

/-- A separator's first character that the text before lacks. -/
theorem cutAt_append {first : Char} {sep before : Str} (after : Str) (h : first ∉ before) :
    cutAt (first :: sep) (before ++ (first :: sep ++ after)) = some (before, after) := by
  induction before with
  | nil =>
      have hp : (first :: sep).isPrefixOf (first :: sep ++ after) = true :=
        List.isPrefixOf_iff_prefix.mpr (List.prefix_append _ _)
      rw [List.nil_append, List.cons_append, cutAt, ← List.cons_append, if_pos hp,
        List.drop_left]
  | cons ch before ih =>
      have hch : first ≠ ch := fun he => h (he ▸ List.mem_cons_self)
      have hp : (first :: sep).isPrefixOf (ch :: (before ++ (first :: sep ++ after))) = false := by
        simp [List.isPrefixOf, hch]
      rw [List.cons_append, cutAt, hp, ih fun hm => h (List.mem_cons_of_mem ch hm)]
      rfl

theorem cutAt_char_append {sep : Char} {before : Str} (after : Str) (h : sep ∉ before) :
    cutAt [sep] (before ++ sep :: after) = some (before, after) :=
  cutAt_append after h

theorem cutAtLast_append {sep : Char} (before : Str) {after : Str} (h : sep ∉ after) :
    cutAtLast sep (before ++ sep :: after) = some (before, after) := by
  have hrev : sep ∉ after.reverse := fun hm => h (List.mem_reverse.mp hm)
  rw [cutAtLast, List.reverse_append, List.reverse_cons, List.append_assoc, List.cons_append,
    List.nil_append, cutAt_char_append before.reverse hrev]
  simp

/-- A beginning that the separator does not begin in. -/
theorem cutAt_append_of_not_mem {first : Char} {sep before : Str} (s : Str) (h : first ∉ before) :
    cutAt (first :: sep) (before ++ s) =
      (cutAt (first :: sep) s).map fun cut => (before ++ cut.1, cut.2) := by
  induction before with
  | nil => simp
  | cons ch before ih =>
      have hch : first ≠ ch := fun he => h (he ▸ List.mem_cons_self)
      have hp : (first :: sep).isPrefixOf (ch :: (before ++ s)) = false := by
        simp [List.isPrefixOf, hch]
      rw [List.cons_append, cutAt, hp, ih fun hm => h (List.mem_cons_of_mem ch hm)]
      simp [Function.comp_def]

theorem cutAt_eq_none {first : Char} {sep s : Str} (h : first ∉ s) :
    cutAt (first :: sep) s = none := by
  induction s with
  | nil => rfl
  | cons ch s ih =>
      have hch : first ≠ ch := fun he => h (he ▸ List.mem_cons_self)
      rw [cutAt, ih fun hm => h (List.mem_cons_of_mem ch hm)]
      simp [List.isPrefixOf, hch]

/-- A beginning in which the separator does not occur, up to a character that is none of its
    own. -/
theorem cutAt_append_of_not_infix {sep before : Str} {ch : Char} (s : Str)
    (h : ¬ sep <:+: before) (hch : ch ∉ sep) :
    cutAt sep (before ++ ch :: s) =
      (cutAt sep s).map fun cut => (before ++ ch :: cut.1, cut.2) := by
  have hnot {before : Str} (h : ¬ sep <:+: before) : ¬ sep <+: before ++ ch :: s := by
    intro hprefix
    have hbefore : before <+: before ++ ch :: s := List.prefix_append _ _
    rcases Nat.le_total sep.length before.length with hle | hle
    · exact h (List.prefix_of_prefix_length_le hprefix hbefore hle).isInfix
    · obtain ⟨rest, hrest⟩ := List.prefix_of_prefix_length_le hbefore hprefix hle
      obtain ⟨after, hafter⟩ := hprefix
      rw [← hrest, List.append_assoc, List.append_cancel_left_eq] at hafter
      cases rest with
      | nil =>
          rw [List.append_nil] at hrest
          exact h (hrest ▸ List.infix_rfl)
      | cons c rest =>
          obtain rfl : c = ch := (List.cons.inj hafter).1
          exact hch (hrest ▸ List.mem_append_right _ List.mem_cons_self)
  induction before with
  | nil =>
      have hp : ¬ sep.isPrefixOf (ch :: s) = true :=
        fun hp => hnot h (List.isPrefixOf_iff_prefix.mp hp)
      rw [List.nil_append, cutAt, if_neg hp]
      rfl
  | cons c before ih =>
      have hp : ¬ sep.isPrefixOf (c :: (before ++ ch :: s)) = true :=
        fun hp => hnot h (List.isPrefixOf_iff_prefix.mp hp)
      rw [List.cons_append, cutAt, if_neg hp,
        ih fun hi => h (hi.trans (List.suffix_cons c before).isInfix)]
      simp [Function.comp_def]

/-- Where the separator occurs in the beginning, the first part is of the beginning. -/
theorem cutAt_append_of_isInfix {first : Char} {sep before : Str} (s : Str)
    (h : first :: sep <:+: before) :
    ∃ cut, cutAt (first :: sep) (before ++ s) = some cut ∧ cut.1 <+: before := by
  induction before with
  | nil => exact absurd (List.infix_nil.mp h) (by simp)
  | cons ch before ih =>
      rw [List.cons_append, cutAt]
      split_ifs with hp
      · exact ⟨_, rfl, List.nil_prefix⟩
      · rcases List.infix_cons_iff.mp h with hprefix | hinfix
        · have hlong : first :: sep <+: ch :: (before ++ s) :=
            hprefix.trans (List.prefix_append _ s)
          exact absurd (List.isPrefixOf_iff_prefix.mpr hlong) hp
        · obtain ⟨cut, hcut, hbefore⟩ := ih hinfix
          rw [hcut]
          exact ⟨_, rfl, List.cons_prefix_cons.mpr ⟨rfl, hbefore⟩⟩

/-- The first part keeps a beginning without the separator. -/
theorem partition_append {sep : Char} {before : Str} (s : Str) (h : sep ∉ before) :
    (partition sep (before ++ s)).1 = before ++ (partition sep s).1 := by
  by_cases hs : sep ∈ s
  · obtain ⟨a, b, rfl, ha⟩ := List.eq_append_cons_of_mem hs
    have hmiss : sep ∉ before ++ a := by
      rw [List.mem_append, not_or]
      exact ⟨h, ha⟩
    have hcut := cutAt_char_append b hmiss
    rw [List.append_assoc] at hcut
    rw [partition, partition, cutAt_char_append b ha, hcut]
    rfl
  · have hmiss : sep ∉ before ++ s := by
      rw [List.mem_append, not_or]
      exact ⟨h, hs⟩
    rw [partition, partition, cutAt_eq_none hs, cutAt_eq_none hmiss]
    rfl

theorem mem_of_mem_partition {sep ch : Char} {s : Str} (h : ch ∈ (partition sep s).1) :
    ch ∈ s := by
  by_cases hs : sep ∈ s
  · obtain ⟨a, b, rfl, ha⟩ := List.eq_append_cons_of_mem hs
    rw [partition, cutAt_char_append b ha] at h
    exact List.mem_append_left _ h
  · rw [partition, cutAt_eq_none hs] at h
    exact h

/-! ## Lines -/

/-- The characters that end a line. -/
def isLineBreak (ch : Char) : Bool :=
  let n := ch.toNat
  (10 ≤ n && n ≤ 13) || (28 ≤ n && n ≤ 30) || n == 0x85 || n == 0x2028 || n == 0x2029

/-- `s.splitlines()` -/
def splitlines : Str → List Str
  | [] => []
  | '\r' :: '\n' :: s => [] :: splitlines s
  | ch :: s =>
      if isLineBreak ch then [] :: splitlines s
      else match splitlines s with
        | [] => [[ch]]
        | line :: lines => (ch :: line) :: lines

/-- A text that is one line. -/
def OneLine (s : Str) : Prop := ∀ ch ∈ s, isLineBreak ch = false

instance (s : Str) : Decidable (OneLine s) := inferInstanceAs (Decidable (∀ ch ∈ s, _))

theorem oneLine_append {s t : Str} : OneLine (s ++ t) ↔ OneLine s ∧ OneLine t :=
  List.forall_mem_append

theorem oneLine_cons {ch : Char} {s : Str} :
    OneLine (ch :: s) ↔ isLineBreak ch = false ∧ OneLine s :=
  List.forall_mem_cons

theorem splitlines_cons {ch : Char} (s : Str) (h : isLineBreak ch = false) :
    splitlines (ch :: s) = match splitlines s with
      | [] => [[ch]]
      | line :: lines => (ch :: line) :: lines := by
  rw [splitlines, if_neg (by simp [h])]
  rintro s rfl
  exact absurd h (by decide)

theorem splitlines_append {line : Str} (s : Str) (h : OneLine line) :
    splitlines (line ++ '\n' :: s) = line :: splitlines s := by
  induction line with
  | nil => rfl
  | cons ch line ih =>
      rw [List.cons_append, splitlines_cons _ (h ch List.mem_cons_self),
        ih fun c hc => h c (List.mem_cons_of_mem ch hc)]

/-- **Lines that end with a line feed** are the lines of their text. -/
theorem splitlines_flatMap {lines : List Str} (h : ∀ line ∈ lines, OneLine line) :
    splitlines (lines.flatMap fun line => line ++ ['\n']) = lines := by
  induction lines with
  | nil => rfl
  | cons line lines ih =>
      rw [List.flatMap_cons, List.append_assoc, List.cons_append, List.nil_append,
        splitlines_append _ (h line List.mem_cons_self),
        ih fun l hl => h l (List.mem_cons_of_mem line hl)]

end PgErdCloud.Lib.PyStr
