/-
  Texts and lists that cleaning leaves alone: what `strip` leaves of a text, a text without one
  character, a list without repetition.
-/
import PgErdCloud.Lib.Cut

namespace PgErdCloud.Lib.PyStr

/-! ## White space -/

theorem isSpace_head_lstrip (s : Str) : ∀ ch ∈ (lstrip s).head?, isSpace ch = false := by
  intro ch hch
  rw [lstrip] at hch
  have hnot := List.head?_dropWhile_not isSpace s
  rw [Option.mem_def.mp hch] at hnot
  simpa using hnot

theorem lstrip_suffix (s : Str) : lstrip s <:+ s := List.dropWhile_suffix _

/-- `strip` leaves a part of the text. -/
theorem strip_isInfix (s : Str) : strip s <:+: s := by
  have hright : strip s <+: lstrip s := by
    have hsuffix := List.reverse_prefix.mpr (lstrip_suffix (lstrip s).reverse)
    rwa [List.reverse_reverse] at hsuffix
  exact hright.isInfix.trans (lstrip_suffix s).isInfix

theorem isSpace_head_strip (s : Str) : ∀ ch ∈ (strip s).head?, isSpace ch = false := by
  intro ch hch
  obtain ⟨rest, hrest⟩ : strip s <+: lstrip s := by
    have hsuffix := List.reverse_prefix.mpr (lstrip_suffix (lstrip s).reverse)
    rwa [List.reverse_reverse] at hsuffix
  refine isSpace_head_lstrip s ch ?_
  rw [← hrest, List.head?_append, Option.mem_def.mp hch]
  rfl

theorem isSpace_getLast_strip (s : Str) : ∀ ch ∈ (strip s).getLast?, isSpace ch = false := by
  intro ch hch
  rw [strip, List.getLast?_reverse] at hch
  exact isSpace_head_lstrip _ ch hch

/-- **Stripping twice** is stripping once. -/
theorem strip_strip (s : Str) : strip (strip s) = strip s :=
  strip_of_ends (isSpace_head_strip s) (isSpace_getLast_strip s)

theorem lstrip_flatMap {f : Char → Str}
    (hspace : ∀ ch, isSpace ch = true → ∀ c ∈ f ch, isSpace c = true)
    (hvisible : ∀ ch, isSpace ch = false → ∃ c rest, f ch = c :: rest ∧ isSpace c = false)
    (s : Str) : lstrip (s.flatMap f) = (lstrip s).flatMap f := by
  induction s with
  | nil => rfl
  | cons ch s ih =>
      cases hch : isSpace ch with
      | true =>
          have hblank : (f ch).dropWhile isSpace = [] :=
            List.dropWhile_eq_nil_iff.mpr (hspace ch hch)
          rw [List.flatMap_cons, lstrip_space_cons _ hch, ← ih, lstrip, List.dropWhile_append,
            hblank]
          rfl
      | false =>
          obtain ⟨c, rest, hf, hc⟩ := hvisible ch hch
          have hhead : lstrip (ch :: s) = ch :: s :=
            lstrip_of_head fun d hd => Option.some.inj hd ▸ hch
          rw [hhead, List.flatMap_cons, hf, List.cons_append]
          exact lstrip_of_head fun d hd => Option.some.inj hd ▸ hc

/-- White space at the ends is the same where visible characters are replaced by texts that
    begin and end in visible ones. -/
theorem strip_flatMap {f : Char → Str}
    (hspace : ∀ ch, isSpace ch = true → ∀ c ∈ f ch, isSpace c = true)
    (hvisible : ∀ ch, isSpace ch = false → ∃ c rest, f ch = c :: rest ∧ isSpace c = false)
    (hvisible' : ∀ ch, isSpace ch = false →
      ∃ c rest, (f ch).reverse = c :: rest ∧ isSpace c = false)
    (s : Str) : strip (s.flatMap f) = (strip s).flatMap f := by
  have hspace' : ∀ ch, isSpace ch = true → ∀ c ∈ (List.reverse ∘ f) ch, isSpace c = true :=
    fun ch hch c hc => hspace ch hch c (List.mem_reverse.mp hc)
  rw [strip, lstrip_flatMap hspace hvisible, List.reverse_flatMap,
    lstrip_flatMap hspace' hvisible', ← List.flatMap_reverse, strip]

theorem lstrip_append_of_isSpace {blank : Str} (s : Str) (h : ∀ ch ∈ blank, isSpace ch = true) :
    lstrip (blank ++ s) = lstrip s := by
  induction blank with
  | nil => rfl
  | cons ch blank ih =>
      rw [List.cons_append, lstrip_space_cons _ (h ch List.mem_cons_self),
        ih fun c hc => h c (List.mem_cons_of_mem ch hc)]

/-- The white space before a text is stripped, and what is behind its last visible character. -/
theorem strip_append {blank s : Str} (rest : Str) (hblank : ∀ ch ∈ blank, isSpace ch = true)
    (hne : s ≠ []) (hhead : ∀ ch ∈ s.head?, isSpace ch = false)
    (hlast : ∀ ch ∈ s.getLast?, isSpace ch = false) :
    strip (blank ++ (s ++ rest)) = s ++ (lstrip rest.reverse).reverse := by
  have hleft : lstrip (blank ++ (s ++ rest)) = s ++ rest := by
    rw [lstrip_append_of_isSpace _ hblank]
    refine lstrip_of_head fun ch hch => hhead ch ?_
    obtain ⟨first, tail, rfl⟩ := List.exists_cons_of_ne_nil hne
    exact hch
  have hright : lstrip (rest.reverse ++ s.reverse) = lstrip rest.reverse ++ s.reverse := by
    rw [lstrip, lstrip, List.dropWhile_append]
    split_ifs with hall
    · rw [List.isEmpty_iff] at hall
      rw [hall, List.nil_append]
      exact lstrip_of_head fun ch hch => hlast ch (by rwa [List.head?_reverse] at hch)
    · rfl
  rw [strip, hleft, List.reverse_append, hright, List.reverse_append, List.reverse_reverse]

/-- **A text between white space** is what is left of it. -/
theorem strip_around {before s after : Str} (hbefore : ∀ ch ∈ before, isSpace ch = true)
    (hafter : ∀ ch ∈ after, isSpace ch = true) (hne : s ≠ [])
    (hhead : ∀ ch ∈ s.head?, isSpace ch = false)
    (hlast : ∀ ch ∈ s.getLast?, isSpace ch = false) : strip (before ++ (s ++ after)) = s := by
  have hnil : lstrip after.reverse = [] := by
    rw [lstrip, List.dropWhile_eq_nil_iff]
    exact fun ch hch => hafter ch (List.mem_reverse.mp hch)
  rw [strip_append after hbefore hne hhead hlast, hnil, List.reverse_nil, List.append_nil]

/-- A text without the character has none at its ends. -/
theorem stripChars_of_not_mem {ch : Char} {s : Str} (h : ch ∉ s) : stripChars [ch] s = s := by
  have hleft {s : Str} (h : ch ∉ s) : lstripChars [ch] s = s := by
    cases s with
    | nil => rfl
    | cons c s =>
        have hne : c ∉ [ch] := by
          rw [List.mem_singleton]
          exact fun he => h (he ▸ List.mem_cons_self)
        rw [lstripChars, List.dropWhile_cons_of_neg (by simpa using hne)]
  rw [stripChars, rstripChars, hleft h, hleft (fun hm => h (List.mem_reverse.mp hm)),
    List.reverse_reverse]

theorem isSpace_of_isLineBreak {ch : Char} (h : isLineBreak ch = true) : isSpace ch = true := by
  simp only [isLineBreak, Bool.or_eq_true, Bool.and_eq_true, decide_eq_true_eq, beq_iff_eq] at h
  simp only [isSpace, Bool.or_eq_true, Bool.and_eq_true, decide_eq_true_eq, beq_iff_eq]
  omega

/-! ## Without a character -/

theorem replaceChar_nil (ch : Char) (s : Str) : replaceChar ch [] s = s.filter (· ≠ ch) := by
  induction s with
  | nil => rfl
  | cons c s ih =>
      have hcons : replaceChar ch [] (c :: s) =
          (if c = ch then [] else [c]) ++ replaceChar ch [] s :=
        rfl
      rw [hcons, ih]
      by_cases hc : c = ch
      · rw [if_pos hc, List.filter_cons_of_neg (by simp [hc])]
        rfl
      · rw [if_neg hc, List.filter_cons_of_pos (by simp [hc])]
        rfl

theorem replaceChar_nil_of_not_mem {ch : Char} {s : Str} (h : ch ∉ s) :
    replaceChar ch [] s = s := by
  rw [replaceChar_nil, List.filter_eq_self]
  intro c hc
  have hne : c ≠ ch := fun he => h (he ▸ hc)
  simpa using hne

/-! ## Without repetition -/

variable {α : Type} [BEq α] [LawfulBEq α]

theorem nodup_eraseDups (l : List α) : l.eraseDups.Nodup := by
  induction hn : l.length using Nat.strong_induction_on generalizing l with
  | _ n ih =>
      cases l with
      | nil => exact List.nodup_nil
      | cons a l =>
          rw [List.eraseDups_cons]
          have hshort : (l.filter fun b => !b == a).length < n := by
            have hle := List.length_filter_le (fun b => !b == a) l
            rw [List.length_cons] at hn
            omega
          refine List.nodup_cons.mpr ⟨fun hmem => ?_, ih _ hshort _ rfl⟩
          have hfilter := (List.mem_filter.mp (List.mem_eraseDups.mp hmem)).2
          simp at hfilter

theorem eraseDups_of_nodup {l : List α} (h : l.Nodup) : l.eraseDups = l := by
  induction l with
  | nil => rfl
  | cons a l ih =>
      obtain ⟨ha, hl⟩ := List.nodup_cons.mp h
      have hfilter : (l.filter fun b => !b == a) = l := by
        rw [List.filter_eq_self]
        intro b hb
        have hne : b ≠ a := fun he => ha (he ▸ hb)
        simpa using hne
      rw [List.eraseDups_cons, hfilter, ih hl]

end PgErdCloud.Lib.PyStr
