/-
  Texts as words with a separator between them: repeated separators are collapsed, and those at
  the ends are dropped, without a change to the words. Nothing here belongs to one program.
-/
import PgErdCloud.Lib.Trim

namespace PgErdCloud.Lib.PyStr

variable {sep : Char}

/-- What stands between separators, where it is something. -/
def wordsBetween (sep : Char) (s : Str) : List Str := (split sep s).filter (· ≠ [])

/-- `s.replace(2 * sep, sep)` -/
def halveRuns (sep : Char) : Str → Str
  | [] => []
  | [ch] => [ch]
  | ch :: next :: s =>
      if ch = sep ∧ next = sep then sep :: halveRuns sep s else ch :: halveRuns sep (next :: s)

/-- `while 2 * sep in s: s = s.replace(2 * sep, sep)`, with rounds enough for the text. -/
def collapseRuns (sep : Char) : Nat → Str → Str
  | 0, s => s
  | fuel + 1, s =>
      if contains [sep, sep] s then collapseRuns sep fuel (halveRuns sep s) else s

/-! ## Words -/

theorem split_sep_cons (s : Str) : split sep (sep :: s) = [] :: split sep s := by
  rw [split, List.splitOn_cons_eq_if_modifyHead, if_pos (beq_self_eq_true sep)]
  rfl

theorem split_cons_of_ne {ch : Char} (s : Str) (h : ch ≠ sep) :
    split sep (ch :: s) = (split sep s).modifyHead (ch :: ·) := by
  rw [split, List.splitOn_cons_eq_if_modifyHead, if_neg (by simpa using h)]
  rfl

theorem wordsBetween_sep_cons (s : Str) : wordsBetween sep (sep :: s) = wordsBetween sep s := by
  rw [wordsBetween, split_sep_cons, List.filter_cons_of_neg (by simp)]
  rfl

theorem wordsBetween_append_sep (s : Str) : wordsBetween sep (s ++ [sep]) = wordsBetween sep s := by
  have hsplit : split sep (s ++ [sep]) = split sep s ++ [[]] := by
    rw [split, List.splitOn_append_cons_self]
    rfl
  rw [wordsBetween, hsplit, List.filter_append, List.filter_cons_of_neg (by simp),
    List.filter_nil, List.append_nil]
  rfl

theorem wordsBetween_lstripChars (s : Str) :
    wordsBetween sep (lstripChars [sep] s) = wordsBetween sep s := by
  induction s with
  | nil => rfl
  | cons ch s ih =>
      by_cases hch : ch = sep
      · subst hch
        rw [wordsBetween_sep_cons, ← ih, lstripChars, List.dropWhile_cons_of_pos (by simp)]
        rfl
      · rw [lstripChars, List.dropWhile_cons_of_neg (by simpa using hch)]

/-- The words are those of the text without the separators at its end. -/
theorem wordsBetween_rstripChars (s : Str) :
    wordsBetween sep (rstripChars [sep] s) = wordsBetween sep s := by
  induction s using List.reverseRecOn with
  | nil => rfl
  | append_singleton s ch ih =>
      rw [rstripChars, List.reverse_append, List.reverse_singleton, List.singleton_append]
      by_cases hch : ch = sep
      · subst hch
        rw [wordsBetween_append_sep, ← ih, lstripChars, List.dropWhile_cons_of_pos (by simp)]
        rfl
      · rw [lstripChars, List.dropWhile_cons_of_neg (by simpa using hch)]
        simp

theorem wordsBetween_stripChars (s : Str) :
    wordsBetween sep (stripChars [sep] s) = wordsBetween sep s := by
  rw [stripChars, wordsBetween_rstripChars, wordsBetween_lstripChars]

/-- Halving a run keeps what stands before the first separator, and the words behind it. -/
theorem split_halveRuns (s : Str) : ∃ first rest rest',
    split sep s = first :: rest ∧ split sep (halveRuns sep s) = first :: rest' ∧
      rest.filter (· ≠ []) = rest'.filter (· ≠ []) := by
  induction s using halveRuns.induct sep with
  | case1 => exact ⟨_, _, _, rfl, rfl, rfl⟩
  | case2 ch =>
      obtain ⟨first, rest, h⟩ := List.exists_cons_of_ne_nil (List.splitOn_ne_nil sep [ch])
      exact ⟨first, rest, rest, h, h, rfl⟩
  | case3 ch next s h ih =>
      obtain ⟨rfl, rfl⟩ := h
      obtain ⟨first, rest, rest', hs, hs', hrest⟩ := ih
      refine ⟨[], [] :: first :: rest, first :: rest', ?_, ?_, ?_⟩
      · rw [split_sep_cons, split_sep_cons, hs]
      · rw [halveRuns, if_pos ⟨rfl, rfl⟩, split_sep_cons, hs']
      · simp only [List.filter_cons, hrest]
        simp
  | case4 ch next s h ih =>
      obtain ⟨first, rest, rest', hs, hs', hrest⟩ := ih
      rw [halveRuns, if_neg h]
      by_cases hch : ch = sep
      · subst hch
        refine ⟨[], first :: rest, first :: rest', ?_, ?_, ?_⟩
        · rw [split_sep_cons, hs]
        · rw [split_sep_cons, hs']
        · simp only [List.filter_cons, hrest]
      · refine ⟨ch :: first, rest, rest', ?_, ?_, hrest⟩
        · rw [split_cons_of_ne _ hch, hs, List.modifyHead_cons]
        · rw [split_cons_of_ne _ hch, hs', List.modifyHead_cons]

theorem wordsBetween_halveRuns (s : Str) :
    wordsBetween sep (halveRuns sep s) = wordsBetween sep s := by
  obtain ⟨first, rest, rest', hs, hs', hrest⟩ := @split_halveRuns sep s
  rw [wordsBetween, wordsBetween, hs, hs', List.filter_cons, List.filter_cons, hrest]

theorem wordsBetween_collapseRuns (fuel : Nat) (s : Str) :
    wordsBetween sep (collapseRuns sep fuel s) = wordsBetween sep s := by
  induction fuel generalizing s with
  | zero => rfl
  | succ fuel ih =>
      rw [collapseRuns]
      split_ifs
      · rw [ih, wordsBetween_halveRuns]
      · rfl

/-! ## Texts without repeated separators -/

theorem length_halveRuns_le (s : Str) : (halveRuns sep s).length ≤ s.length := by
  induction s using halveRuns.induct sep with
  | case1 => exact Nat.le_refl _
  | case2 ch => exact Nat.le_refl _
  | case3 ch next s h ih =>
      rw [halveRuns, if_pos h, List.length_cons, List.length_cons, List.length_cons]
      omega
  | case4 ch next s h ih =>
      rw [halveRuns, if_neg h, List.length_cons, List.length_cons]
      exact Nat.succ_le_succ ih

/-- A run makes the text shorter. -/
theorem length_halveRuns_lt {s : Str} (h : [sep, sep] <:+: s) :
    (halveRuns sep s).length < s.length := by
  induction s using halveRuns.induct sep with
  | case1 => exact absurd h.length_le (by simp)
  | case2 ch => exact absurd h.length_le (by simp)
  | case3 ch next s hch ih =>
      have hle := @length_halveRuns_le sep s
      rw [halveRuns, if_pos hch, List.length_cons, List.length_cons, List.length_cons]
      omega
  | case4 ch next s hch ih =>
      rw [halveRuns, if_neg hch, List.length_cons, List.length_cons]
      refine Nat.succ_lt_succ (ih ?_)
      rcases List.infix_cons_iff.mp h with hp | h
      · obtain ⟨rest, hrest⟩ := hp
        obtain ⟨rfl, htail⟩ := List.cons.inj hrest
        exact absurd ⟨rfl, (List.cons.inj htail).1.symm⟩ hch
      · exact h

theorem collapseRuns_no_run {fuel : Nat} {s : Str} (h : s.length ≤ fuel) :
    ¬ [sep, sep] <:+: collapseRuns sep fuel s := by
  induction fuel generalizing s with
  | zero =>
      rw [collapseRuns, List.length_eq_zero_iff.mp (Nat.le_zero.mp h)]
      exact fun hrun => absurd hrun.length_le (by simp)
  | succ fuel ih =>
      rw [collapseRuns]
      split_ifs with hrun
      · have hlt := length_halveRuns_lt (of_decide_eq_true hrun)
        exact ih (by omega)
      · exact fun h => hrun (decide_eq_true h)

theorem head?_halveRuns (s : Str) : (halveRuns sep s).head? = s.head? := by
  induction s using halveRuns.induct sep with
  | case1 => rfl
  | case2 ch => rfl
  | case3 ch next s h ih => rw [halveRuns, if_pos h, List.head?_cons, List.head?_cons, h.1]
  | case4 ch next s h ih => rw [halveRuns, if_neg h, List.head?_cons, List.head?_cons]

theorem halveRuns_eq_nil {s : Str} (h : halveRuns sep s = []) : s = [] := by
  have hhead := @head?_halveRuns sep s
  rw [h] at hhead
  exact List.head?_eq_none_iff.mp hhead.symm

theorem getLast?_halveRuns (s : Str) : (halveRuns sep s).getLast? = s.getLast? := by
  induction s using halveRuns.induct sep with
  | case1 => rfl
  | case2 ch => rfl
  | case3 ch next s h ih =>
      obtain ⟨rfl, rfl⟩ := h
      rw [halveRuns, if_pos ⟨rfl, rfl⟩]
      by_cases hs : s = []
      · subst hs
        rfl
      · have hs' : halveRuns next s ≠ [] := fun he => hs (halveRuns_eq_nil he)
        rw [List.getLast?_cons_of_ne_nil hs', ih, List.getLast?_cons_of_ne_nil (by simp),
          List.getLast?_cons_of_ne_nil hs]
  | case4 ch next s h ih =>
      have hs' : halveRuns sep (next :: s) ≠ [] := fun he =>
        absurd (halveRuns_eq_nil he) (List.cons_ne_nil _ _)
      rw [halveRuns, if_neg h, List.getLast?_cons_of_ne_nil hs', ih,
        List.getLast?_cons_of_ne_nil (List.cons_ne_nil _ _)]

theorem ends_collapseRuns (fuel : Nat) (s : Str) :
    (collapseRuns sep fuel s).head? = s.head? ∧
      (collapseRuns sep fuel s).getLast? = s.getLast? := by
  induction fuel generalizing s with
  | zero => exact ⟨rfl, rfl⟩
  | succ fuel ih =>
      rw [collapseRuns]
      split_ifs
      · obtain ⟨hhead, hlast⟩ := ih (halveRuns sep s)
        exact ⟨hhead.trans (head?_halveRuns s), hlast.trans (getLast?_halveRuns s)⟩
      · exact ⟨rfl, rfl⟩

/-- Behind the first part, none is empty. -/
theorem split_of_no_run {s : Str} (hne : s ≠ []) (hlast : s.getLast? ≠ some sep)
    (hrun : ¬ [sep, sep] <:+: s) : ∃ first rest, split sep s = first :: rest ∧
      (∀ part ∈ rest, part ≠ []) ∧ (first = [] → s.head? = some sep) := by
  induction s with
  | nil => exact absurd rfl hne
  | cons ch s ih =>
      cases s with
      | nil =>
          have hch : ch ≠ sep := fun he => hlast (he ▸ rfl)
          refine ⟨[ch], [], ?_, by simp, by simp⟩
          rw [split_cons_of_ne _ hch]
          rfl
      | cons next s =>
          have hlast' : (next :: s).getLast? ≠ some sep := by
            rwa [List.getLast?_cons_of_ne_nil (List.cons_ne_nil _ _)] at hlast
          have hrun' : ¬ [sep, sep] <:+: next :: s := fun h => hrun (List.infix_cons h)
          obtain ⟨first, rest, hsplit, hrest, hfirst⟩ := ih (List.cons_ne_nil _ _) hlast' hrun'
          by_cases hch : ch = sep
          · subst hch
            refine ⟨[], first :: rest, by rw [split_sep_cons, hsplit], ?_, fun _ => rfl⟩
            refine List.forall_mem_cons.mpr ⟨fun he => hrun ?_, hrest⟩
            obtain rfl : next = ch := by simpa using hfirst he
            exact ⟨[], s, rfl⟩
          · refine ⟨ch :: first, rest, ?_, hrest, by simp⟩
            rw [split_cons_of_ne _ hch, hsplit, List.modifyHead_cons]

/-- **A text that neither begins nor ends with the separator, nor repeats it**, is its words. -/
theorem join_wordsBetween {s : Str} (hhead : s.head? ≠ some sep) (hlast : s.getLast? ≠ some sep)
    (hrun : ¬ [sep, sep] <:+: s) : join [sep] (wordsBetween sep s) = s := by
  by_cases hs : s = []
  · subst hs
    rfl
  obtain ⟨first, rest, hsplit, hrest, hfirst⟩ := split_of_no_run hs hlast hrun
  have hall : ∀ part ∈ split sep s, decide (part ≠ []) = true := by
    rw [hsplit]
    refine List.forall_mem_cons.mpr ⟨decide_eq_true fun he => hhead (hfirst he), fun part hp => ?_⟩
    exact decide_eq_true (hrest part hp)
  rw [wordsBetween, List.filter_eq_self.mpr hall, join_split]

theorem stripChars_prefix_lstripChars (s : Str) : stripChars [sep] s <+: lstripChars [sep] s := by
  have hsuffix : lstripChars [sep] (lstripChars [sep] s).reverse <:+
      (lstripChars [sep] s).reverse := List.dropWhile_suffix _
  have hreverse := List.reverse_prefix.mpr hsuffix
  rwa [List.reverse_reverse] at hreverse

/-- Neither end of what `strip(chars)` leaves is a stripped character. -/
theorem ends_stripChars (s : Str) :
    (stripChars [sep] s).head? ≠ some sep ∧ (stripChars [sep] s).getLast? ≠ some sep := by
  have hleft (s : Str) : (lstripChars [sep] s).head? ≠ some sep := by
    intro h
    have hnot := List.head?_dropWhile_not (fun c => decide (c ∈ [sep])) s
    rw [lstripChars] at h
    rw [h] at hnot
    simp at hnot
  constructor
  · intro h
    obtain ⟨rest, hrest⟩ := stripChars_prefix_lstripChars s
    refine hleft s ?_
    rw [← hrest, List.head?_append, h]
    rfl
  · rw [stripChars, rstripChars, List.getLast?_reverse]
    exact hleft _

/-- **Stripped and collapsed**, a text is its words. -/
theorem collapseRuns_stripChars {fuel : Nat} {s : Str}
    (h : (stripChars [sep] s).length ≤ fuel) :
    collapseRuns sep fuel (stripChars [sep] s) = join [sep] (wordsBetween sep s) := by
  obtain ⟨hhead, hlast⟩ := @ends_stripChars sep s
  obtain ⟨hhead', hlast'⟩ := @ends_collapseRuns sep fuel (stripChars [sep] s)
  have hjoin := join_wordsBetween (hhead' ▸ hhead) (hlast' ▸ hlast) (collapseRuns_no_run h)
  rw [← hjoin, wordsBetween_collapseRuns, wordsBetween_stripChars]

/-! ## Lists of words -/

theorem join_cons_of_ne_nil (sep word : Str) {words : List Str} (h : words ≠ []) :
    join sep (word :: words) = word ++ (sep ++ join sep words) := by
  obtain ⟨next, words, rfl⟩ := List.exists_cons_of_ne_nil h
  exact join_cons_cons sep word next words

theorem join_append {sep : Str} {xs ys : List Str} (hx : xs ≠ []) (hy : ys ≠ []) :
    join sep (xs ++ ys) = join sep xs ++ (sep ++ join sep ys) := by
  induction xs with
  | nil => exact absurd rfl hx
  | cons x xs ih =>
      by_cases hxs : xs = []
      · subst hxs
        rw [List.singleton_append, join_cons_of_ne_nil sep x hy, join_singleton]
      · rw [List.cons_append, join_cons_of_ne_nil sep x (List.append_ne_nil_of_left_ne_nil hxs ys),
          ih hxs, join_cons_of_ne_nil sep x hxs]
        simp only [List.append_assoc]

/-- Joining what is joined with the same separator. -/
theorem join_flatMap {α : Type} {sep : Str} {f : α → List Str} {xs : List α}
    (h : ∀ x ∈ xs, f x ≠ []) :
    join sep (xs.flatMap f) = join sep (xs.map fun x => join sep (f x)) := by
  induction xs with
  | nil => rfl
  | cons x xs ih =>
      have hx := h x List.mem_cons_self
      have ih := ih fun y hy => h y (List.mem_cons_of_mem x hy)
      by_cases hxs : xs = []
      · subst hxs
        simp
      · obtain ⟨y, ys, rfl⟩ := List.exists_cons_of_ne_nil hxs
        have hy : (y :: ys).flatMap f ≠ [] := by
          rw [List.flatMap_cons]
          exact List.append_ne_nil_of_left_ne_nil (h y (by simp)) _
        rw [List.flatMap_cons, join_append hx hy, ih]
        exact (join_cons_cons sep _ _ _).symm

/-! ## Runs of characters -/

/-- The longest runs of characters that are kept. -/
def runs (keep : Char → Bool) (s : Str) : List Str :=
  (s.splitOnP fun ch => !keep ch).filter (· ≠ [])

/-- `re.sub("[^…]+", sep, s)`: one separator for each run of other characters; whether the
    character before was replaced. -/
def replaceOthers (keep : Char → Bool) (sep : Char) : Bool → Str → Str
  | _, [] => []
  | replaced, ch :: s =>
      if keep ch then ch :: replaceOthers keep sep false s
      else if replaced then replaceOthers keep sep true s
      else sep :: replaceOthers keep sep true s

variable {keep : Char → Bool}

theorem splitOnP_cons_of_keep {ch : Char} (s : Str) (h : keep ch = true) :
    ((ch :: s).splitOnP fun c => !keep c) = (s.splitOnP fun c => !keep c).modifyHead (ch :: ·) := by
  rw [List.splitOnP_cons_eq_if_modifyHead, if_neg (by simp [h])]

theorem splitOnP_cons_of_not_keep {ch : Char} (s : Str) (h : keep ch = false) :
    ((ch :: s).splitOnP fun c => !keep c) = [] :: s.splitOnP fun c => !keep c := by
  rw [List.splitOnP_cons_eq_if_modifyHead, if_pos (by simp [h])]

/-- Replacing keeps what stands before the first replaced character, and the runs behind it;
    behind a replaced character, the runs. -/
theorem split_replaceOthers (hsep : keep sep = false) (s : Str) :
    (∃ first rest rest', (s.splitOnP fun c => !keep c) = first :: rest ∧
      split sep (replaceOthers keep sep false s) = first :: rest' ∧
      rest.filter (· ≠ []) = rest'.filter (· ≠ [])) ∧
    (s.splitOnP fun c => !keep c).filter (· ≠ []) =
      (split sep (replaceOthers keep sep true s)).filter (· ≠ []) := by
  induction s with
  | nil => exact ⟨⟨[], [], [], rfl, rfl, rfl⟩, rfl⟩
  | cons ch s ih =>
      obtain ⟨⟨first, rest, rest', hs, hs', hrest⟩, htrue⟩ := ih
      cases hch : keep ch with
      | true =>
          have hne : ch ≠ sep := by
            rintro rfl
            exact absurd (hch.symm.trans hsep) (by decide)
          have hsplit : split sep (ch :: replaceOthers keep sep false s) =
              (ch :: first) :: rest' := by
            rw [split_cons_of_ne _ hne, hs', List.modifyHead_cons]
          rw [splitOnP_cons_of_keep s hch, hs, List.modifyHead_cons]
          refine ⟨⟨ch :: first, rest, rest', rfl, ?_, hrest⟩, ?_⟩
          · rw [replaceOthers, if_pos hch, hsplit]
          · rw [replaceOthers, if_pos hch, hsplit, List.filter_cons, List.filter_cons, hrest]
      | false =>
          rw [splitOnP_cons_of_not_keep s hch]
          refine ⟨⟨[], _, _, rfl, ?_, htrue⟩, ?_⟩
          · rw [replaceOthers, hch, if_neg Bool.false_ne_true, if_neg Bool.false_ne_true,
              split_sep_cons]
          · rw [replaceOthers, hch, if_neg Bool.false_ne_true, if_pos rfl,
              List.filter_cons_of_neg (by simp), htrue]

theorem wordsBetween_replaceOthers (hsep : keep sep = false) (s : Str) :
    wordsBetween sep (replaceOthers keep sep false s) = runs keep s := by
  obtain ⟨⟨first, rest, rest', hs, hs', hrest⟩, -⟩ := split_replaceOthers hsep s
  rw [wordsBetween, runs, hs, hs', List.filter_cons, List.filter_cons, hrest]

/-- No two separators in a row. -/
theorem replaceOthers_no_run (hsep : keep sep = false) (s : Str) (replaced : Bool) :
    ¬ [sep, sep] <:+: replaceOthers keep sep replaced s ∧
      (replaced = true → (replaceOthers keep sep replaced s).head? ≠ some sep) := by
  induction s generalizing replaced with
  | nil => exact ⟨fun h => absurd h.length_le (by simp [replaceOthers]), by simp [replaceOthers]⟩
  | cons ch s ih =>
      rw [replaceOthers]
      split_ifs with hch hreplaced
      · have hne : ch ≠ sep := by
          rintro rfl
          exact absurd (hch.symm.trans hsep) (by decide)
        refine ⟨fun h => ?_, fun _ he => hne (Option.some.inj he)⟩
        rcases List.infix_cons_iff.mp h with ⟨rest, hrest⟩ | h
        · exact hne (List.cons.inj hrest).1.symm
        · exact (ih false).1 h
      · exact ⟨(ih true).1, fun _ => (ih true).2 rfl⟩
      · refine ⟨fun h => ?_, fun h => absurd h hreplaced⟩
        rcases List.infix_cons_iff.mp h with ⟨rest, hrest⟩ | h
        · refine (ih true).2 rfl ?_
          rw [← (List.cons.inj hrest).2]
          rfl
        · exact (ih true).1 h

theorem stripChars_isInfix (s : Str) : stripChars [sep] s <:+: s := by
  have hleft : lstripChars [sep] s <:+ s := List.dropWhile_suffix _
  exact (stripChars_prefix_lstripChars s).isInfix.trans hleft.isInfix

/-- **Replaced and stripped**, a text is its runs. -/
theorem stripChars_replaceOthers (hsep : keep sep = false) (s : Str) :
    stripChars [sep] (replaceOthers keep sep false s) = join [sep] (runs keep s) := by
  obtain ⟨hhead, hlast⟩ := @ends_stripChars sep (replaceOthers keep sep false s)
  have hrun : ¬ [sep, sep] <:+: stripChars [sep] (replaceOthers keep sep false s) := fun h =>
    (replaceOthers_no_run hsep s false).1 (h.trans (stripChars_isInfix _))
  rw [← wordsBetween_replaceOthers hsep, ← wordsBetween_stripChars]
  exact (join_wordsBetween hhead hlast hrun).symm

/-- The runs are not empty, and consist of what is kept. -/
theorem of_mem_runs {s run : Str} (h : run ∈ runs keep s) :
    run ≠ [] ∧ ∀ ch ∈ run, keep ch = true := by
  obtain ⟨hmem, hne⟩ := List.mem_filter.mp h
  refine ⟨of_decide_eq_true hne, ?_⟩
  clear h hne
  induction s generalizing run with
  | nil =>
      obtain rfl := List.mem_singleton.mp hmem
      exact fun ch hch => absurd hch List.not_mem_nil
  | cons ch s ih =>
      cases hch : keep ch with
      | true =>
          rw [splitOnP_cons_of_keep s hch] at hmem
          obtain ⟨first, rest, hfirst⟩ := List.exists_cons_of_ne_nil
            (List.splitOnP_ne_nil (fun c => !keep c) s)
          rw [hfirst, List.modifyHead_cons] at hmem
          rw [hfirst] at ih
          rcases List.mem_cons.mp hmem with rfl | hmem
          · exact List.forall_mem_cons.mpr ⟨hch, ih List.mem_cons_self⟩
          · exact ih (List.mem_cons_of_mem first hmem)
      | false =>
          rw [splitOnP_cons_of_not_keep s hch] at hmem
          rcases List.mem_cons.mp hmem with rfl | hmem
          · exact fun c hc => absurd hc List.not_mem_nil
          · exact ih hmem

/-- What follows a start, where the text has it. -/
def dropStart (start s : Str) : Option Str :=
  if start.isPrefixOf s then some (s.drop start.length) else none

theorem dropStart_append (start rest : Str) : dropStart start (start ++ rest) = some rest := by
  rw [dropStart, if_pos (List.isPrefixOf_iff_prefix.mpr (List.prefix_append start rest)),
    List.drop_left]

end PgErdCloud.Lib.PyStr
