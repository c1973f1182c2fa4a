/-
  The first group in parentheses. `_first_paren_group` goes over the characters and counts; here
  the text is read by a lexer to which a quoted identifier is one lexeme, and what is returned
  is the group that the first opening parenthesis begins.

  `firstParenGroup_iff` is about every text, with and without a group.
-/
import PgErdCloud.Lib.Nesting
import PgErdCloud.Spec.IndexRedundancy

namespace PgErdCloud.Spec

open Lib Lib.PyStr Lib.Nesting

/-! ## One character -/

theorem scan_nil (quoted : Bool) (depth : Nat) (group : Str) :
    firstParenGroupFrom quoted depth group [] = none := by
  cases quoted <;> rfl

/-- Outside of quotes. -/
theorem scan_char (depth : Nat) (group : Str) (ch : Char) (text : Str) :
    firstParenGroupFrom false depth group (ch :: text) =
      if ch = '"' then firstParenGroupFrom true depth (group ++ ['"']) text
      else if ch = '(' then
        firstParenGroupFrom false (depth + 1) (if depth = 0 then [] else group ++ ['(']) text
      else if ch = ')' ∧ depth = 1 then some group
      else firstParenGroupFrom false (if ch = ')' then depth - 1 else depth) (group ++ [ch]) text
    := by
  by_cases hquote : ch = '"'
  · subst hquote
    rw [if_pos rfl, firstParenGroupFrom]
  rw [if_neg hquote]
  by_cases hopen : ch = '('
  · subst hopen
    rw [if_pos rfl]
    cases depth <;> rfl
  rw [if_neg hopen]
  by_cases hclose : ch = ')'
  · subst hclose
    match depth with
    | 0 => rfl
    | 1 => rfl
    | depth + 2 => rfl
  · rw [if_neg (fun h => hclose h.1), if_neg hclose, firstParenGroupFrom]
    all_goals simp_all

/-- In quotes. A doubled quote ends the identifier and begins it anew. -/
theorem scan_quotedChar (depth : Nat) (group : Str) (ch : Char) (text : Str) :
    firstParenGroupFrom true depth group (ch :: text) =
      firstParenGroupFrom (ch ≠ '"') depth (group ++ [ch]) text := by
  by_cases hquote : ch = '"'
  · subst hquote
    cases text with
    | nil => rfl
    | cons next text =>
        by_cases hnext : next = '"'
        · subst hnext
          have hopen := scan_char depth (group ++ ['"']) '"' text
          rw [if_pos rfl, List.append_assoc] at hopen
          exact hopen.symm
        · rw [firstParenGroupFrom]
          · rfl
          · simpa using hnext
  · rw [firstParenGroupFrom]
    all_goals simp_all

theorem scan_cons {ch : Char} (h : ch ≠ '"') (ho : ch ≠ '(') (hc : ch ≠ ')') (depth : Nat)
    (group text : Str) : firstParenGroupFrom false depth group (ch :: text) =
      firstParenGroupFrom false depth (group ++ [ch]) text := by
  rw [scan_char, if_neg h, if_neg ho, if_neg fun hm => hc hm.1, if_neg hc]

theorem scan_opening_first (group text : Str) :
    firstParenGroupFrom false 0 group ('(' :: text) = firstParenGroupFrom false 1 [] text :=
  scan_char 0 group _ text

theorem scan_opening (depth : Nat) (group text : Str) :
    firstParenGroupFrom false (depth + 1) group ('(' :: text) =
      firstParenGroupFrom false (depth + 2) (group ++ ['(']) text :=
  scan_char (depth + 1) group _ text

theorem scan_closing_last (group text : Str) :
    firstParenGroupFrom false 1 group (')' :: text) = some group := scan_char 1 group _ text

theorem scan_closing (depth : Nat) (group text : Str) :
    firstParenGroupFrom false (depth + 2) group (')' :: text) =
      firstParenGroupFrom false (depth + 1) (group ++ [')']) text :=
  scan_char (depth + 2) group _ text

theorem scan_unquoted_quote (depth : Nat) (group text : Str) :
    firstParenGroupFrom false depth group ('"' :: text) =
      firstParenGroupFrom true depth (group ++ ['"']) text := scan_char depth group _ text

/-- A quote always turns the mode. -/
theorem scan_quote (depth : Nat) (group text : Str) :
    firstParenGroupFrom true depth group ('"' :: text) =
      firstParenGroupFrom false depth (group ++ ['"']) text := scan_quotedChar depth group _ text

theorem scan_quoted_cons {ch : Char} (h : ch ≠ '"') (depth : Nat) (group text : Str) :
    firstParenGroupFrom true depth group (ch :: text) =
      firstParenGroupFrom true depth (group ++ [ch]) text := by
  rw [scan_quotedChar, decide_eq_true h]

/-! ## Lexemes -/

/-- What a definition consists of where only quotes and parentheses count. -/
inductive Lexeme
  /-- a quoted identifier with its quotes -/
  | quoted (text : Str)
  | opening
  | closing
  | plain (ch : Char)
  deriving DecidableEq

/-- The characters of a lexeme. -/
def Lexeme.text : Lexeme → Str
  | .quoted text => text
  | .opening => ['(']
  | .closing => [')']
  | .plain ch => [ch]

/-- What a character outside of quotes is. -/
def lexemeOf (ch : Char) : Lexeme :=
  if ch = '(' then .opening else if ch = ')' then .closing else .plain ch

/-- Where the lexer is, and the quoted identifier so far. -/
inductive LexerMode
  | outside
  | inside (ident : Str)
  /-- behind a quote that closes the identifier, or is the first half of a doubled one -/
  | behind (ident : Str)

/-- The lexemes from a mode on. An identifier that is not closed goes to the end. -/
def lexemesFrom : LexerMode → Str → List Lexeme
  | .outside, [] => []
  | .inside ident, [] => [.quoted ident]
  | .behind ident, [] => [.quoted ident]
  | .outside, ch :: text =>
      if ch = '"' then lexemesFrom (.inside [ch]) text
      else lexemeOf ch :: lexemesFrom .outside text
  | .inside ident, ch :: text =>
      lexemesFrom (if ch = '"' then .behind (ident ++ [ch]) else .inside (ident ++ [ch])) text
  | .behind ident, ch :: text =>
      if ch = '"' then lexemesFrom (.inside (ident ++ [ch])) text
      else .quoted ident :: lexemeOf ch :: lexemesFrom .outside text

/-- The lexemes of a text. -/
def lexemes (text : Str) : List Lexeme := lexemesFrom .outside text

example : lexemes "\"a\"\"(\"(b)".toList =
    [.quoted "\"a\"\"(\"".toList, .opening, .plain 'b', .closing] := by decide

/-- The group that the first opening parenthesis begins. -/
def FirstGroup (ls group : List Lexeme) : Prop :=
  ∃ before after, ls = before ++ .opening :: group ++ .closing :: after ∧ .opening ∉ before ∧
    WellNested .opening .closing group

/-! ## Closing a group -/

/-- What stands before the parenthesis that closes a group in which so many are open. -/
def closeGroup : Nat → List Lexeme → Option (List Lexeme)
  | _, [] => none
  | 0, .closing :: _ => some []
  | depth + 1, .closing :: ls => (closeGroup depth ls).map (.closing :: ·)
  | depth, .opening :: ls => (closeGroup (depth + 1) ls).map (.opening :: ·)
  | depth, .quoted text :: ls => (closeGroup depth ls).map (.quoted text :: ·)
  | depth, .plain ch :: ls => (closeGroup depth ls).map (.plain ch :: ·)

theorem closeGroup_nil (depth : Nat) : closeGroup depth [] = none := by
  cases depth <;> rfl

theorem closeGroup_of_ne {l : Lexeme} (h : l ≠ .closing) (depth : Nat) (ls : List Lexeme) :
    closeGroup depth (l :: ls) =
      (closeGroup (if l = .opening then depth + 1 else depth) ls).map (l :: ·) := by
  cases l with
  | closing => exact absurd rfl h
  | opening => cases depth <;> rfl
  | quoted text => cases depth <;> rfl
  | plain ch => cases depth <;> rfl

/-- The lexemes close as many groups as were open, and never more. -/
def Closes (count : Int) (ls : List Lexeme) : Prop :=
  (∀ p, p <+: ls → 0 ≤ count + depth .opening .closing p) ∧
    count + depth .opening .closing ls = 0

theorem closes_nil (count : Int) : Closes count [] ↔ count = 0 := by
  constructor
  · rintro ⟨-, hend⟩
    simpa using hend
  · rintro rfl
    refine ⟨fun p hp => ?_, rfl⟩
    rw [List.prefix_nil.mp hp]
    exact Int.le_refl 0

theorem closes_cons (count : Int) (l : Lexeme) (ls : List Lexeme) :
    Closes count (l :: ls) ↔
      0 ≤ count ∧ Closes (count + weight .opening .closing l) ls := by
  constructor
  · rintro ⟨hstart, hend⟩
    refine ⟨by simpa using hstart [] List.nil_prefix, fun p hp => ?_, ?_⟩
    · have hle := hstart (l :: p) (List.cons_prefix_cons.mpr ⟨rfl, hp⟩)
      rw [depth_cons] at hle
      omega
    · rw [depth_cons] at hend
      omega
  · rintro ⟨hcount, hstart, hend⟩
    refine ⟨fun p hp => ?_, by rw [depth_cons]; omega⟩
    rcases List.prefix_cons_iff.mp hp with rfl | ⟨q, rfl, hq⟩
    · simpa using hcount
    · have hle := hstart q hq
      rw [depth_cons]
      omega

theorem closes_zero_iff (ls : List Lexeme) :
    Closes 0 ls ↔ WellNested .opening .closing ls := by
  rw [wellNested_iff (by decide), Closes, NonNeg, and_comm]
  simp only [Int.zero_add]

theorem closeGroup_eq_some_iff {count : Nat} {ls group : List Lexeme} :
    closeGroup count ls = some group ↔
      (∃ after, ls = group ++ .closing :: after) ∧ Closes count group := by
  induction ls generalizing count group with
  | nil =>
      refine iff_of_false (by rw [closeGroup_nil]; exact Option.some_ne_none group ∘ Eq.symm) ?_
      rintro ⟨⟨after, h⟩, -⟩
      exact absurd h (by simp)
  | cons l ls ih =>
      by_cases hl : l = .closing
      · subst hl
        match count with
        | 0 =>
            rw [closeGroup, Option.some_inj]
            constructor
            · rintro rfl
              exact ⟨⟨ls, rfl⟩, (closes_nil _).mpr rfl⟩
            · rintro ⟨⟨after, h⟩, hcloses⟩
              cases group with
              | nil => rfl
              | cons l group =>
                  obtain rfl : .closing = l := (List.cons.inj h).1
                  rw [closes_cons, weight_close (by decide)] at hcloses
                  exact absurd (hcloses.2.1 [] List.nil_prefix) (by decide)
        | count + 1 =>
            rw [closeGroup, Option.map_eq_some_iff]
            constructor
            · rintro ⟨group, hgroup, rfl⟩
              obtain ⟨⟨after, rfl⟩, hcloses⟩ := ih.mp hgroup
              refine ⟨⟨after, rfl⟩, (closes_cons _ _ _).mpr ⟨by omega, ?_⟩⟩
              rw [weight_close (by decide)]
              simpa using hcloses
            · rintro ⟨⟨after, h⟩, hcloses⟩
              cases group with
              | nil => exact absurd ((closes_nil _).mp hcloses) (by omega)
              | cons l group =>
                  obtain ⟨rfl, rfl⟩ := List.cons.inj h
                  rw [closes_cons, weight_close (by decide)] at hcloses
                  exact ⟨group, ih.mpr ⟨⟨after, rfl⟩, by simpa using hcloses.2⟩, rfl⟩
      · have hweight : ((if l = .opening then count + 1 else count : Nat) : Int) =
            count + weight .opening .closing l := by
          rw [weight, if_neg hl]
          split_ifs <;> simp
        rw [closeGroup_of_ne hl, Option.map_eq_some_iff]
        constructor
        · rintro ⟨group, hgroup, rfl⟩
          obtain ⟨⟨after, rfl⟩, hcloses⟩ := ih.mp hgroup
          exact ⟨⟨after, rfl⟩, (closes_cons _ _ _).mpr ⟨by omega, hweight ▸ hcloses⟩⟩
        · rintro ⟨⟨after, h⟩, hcloses⟩
          cases group with
          | nil => exact absurd (List.cons.inj h).1 hl
          | cons l group =>
              obtain ⟨rfl, rfl⟩ := List.cons.inj h
              rw [closes_cons, ← hweight] at hcloses
              exact ⟨group, ih.mpr ⟨⟨after, rfl⟩, hcloses.2⟩, rfl⟩

/-! ## The first group -/

/-- What stands between the first parenthesis and the one that closes it. -/
def groupOf : List Lexeme → Option (List Lexeme)
  | [] => none
  | l :: ls => if l = .opening then closeGroup 0 ls else groupOf ls

theorem groupOf_eq_some_iff {ls group : List Lexeme} :
    groupOf ls = some group ↔ FirstGroup ls group := by
  induction ls with
  | nil =>
      refine iff_of_false (Option.some_ne_none group ∘ Eq.symm) ?_
      rintro ⟨before, after, h, -⟩
      exact absurd h (by simp)
  | cons l ls ih =>
      rw [groupOf]
      split_ifs with hl
      · subst hl
        rw [closeGroup_eq_some_iff, Nat.cast_zero, closes_zero_iff]
        constructor
        · rintro ⟨⟨after, rfl⟩, hnested⟩
          exact ⟨[], after, rfl, List.not_mem_nil, hnested⟩
        · rintro ⟨before, after, h, hbefore, hnested⟩
          cases before with
          | nil => exact ⟨⟨after, (List.cons.inj h).2⟩, hnested⟩
          | cons l before =>
              exact absurd ((List.cons.inj h).1 ▸ List.mem_cons_self) hbefore
      · rw [ih]
        constructor
        · rintro ⟨before, after, rfl, hbefore, hnested⟩
          refine ⟨l :: before, after, rfl, fun hm => ?_, hnested⟩
          exact (List.mem_cons.mp hm).elim (fun he => hl he.symm) hbefore
        · rintro ⟨before, after, h, hbefore, hnested⟩
          cases before with
          | nil => exact absurd (List.cons.inj h).1 hl
          | cons l before =>
              exact ⟨before, after, (List.cons.inj h).2,
                fun hm => hbefore (List.mem_cons_of_mem _ hm), hnested⟩

/-! ## The scan -/

/-- The characters of some lexemes. -/
def lexemesText (ls : List Lexeme) : Str := ls.flatMap Lexeme.text

theorem map_cons_text (group : Str) (l : Lexeme) (o : Option (List Lexeme)) :
    (o.map (l :: ·)).map (group ++ lexemesText ·) =
      o.map ((group ++ l.text) ++ lexemesText ·) := by
  rw [Option.map_map]
  congr 1
  funext ls
  rw [Function.comp_apply, lexemesText, List.flatMap_cons, List.append_assoc]
  rfl

/-- The lexer is within a quoted identifier. -/
def LexerMode.quoted : LexerMode → Bool
  | .inside _ => true
  | _ => false

/-- What has been read of an identifier. -/
def LexerMode.ident : LexerMode → Str
  | .outside => []
  | .inside ident | .behind ident => ident

/-- A character outside of quotes, where what follows is known. -/
theorem scan_lexemeOf {ch : Char} (h : ch ≠ '"') {text : Str} {ls : List Lexeme}
    (hrest : ∀ count group, firstParenGroupFrom false (count + 1) group text =
      (closeGroup count ls).map (group ++ lexemesText ·)) (count : Nat) (group : Str) :
    firstParenGroupFrom false (count + 1) group (ch :: text) =
      (closeGroup count (lexemeOf ch :: ls)).map (group ++ lexemesText ·) := by
  rw [scan_char, if_neg h, lexemeOf]
  by_cases hopen : ch = '('
  · rw [if_pos hopen, if_pos hopen, if_neg (Nat.succ_ne_zero count),
      closeGroup_of_ne (by decide), if_pos rfl, map_cons_text]
    exact hrest (count + 1) _
  rw [if_neg hopen, if_neg hopen]
  by_cases hclose : ch = ')'
  · subst hclose
    cases count with
    | zero =>
        rw [if_pos ⟨rfl, rfl⟩, if_pos rfl, closeGroup, Option.map_some, lexemesText,
          List.flatMap_nil, List.append_nil]
    | succ count =>
        rw [if_neg fun hm => absurd hm.2 (by omega), if_pos rfl, if_pos rfl, closeGroup,
          map_cons_text]
        exact hrest count _
  · rw [if_neg fun hm => hclose hm.1, if_neg hclose, if_neg hclose,
      closeGroup_of_ne Lexeme.noConfusion, if_neg Lexeme.noConfusion, map_cons_text]
    exact hrest count _

/-- In an open group the scan returns the text up to where the group closes. -/
theorem scan_open (mode : LexerMode) (text : Str) (count : Nat) (group : Str) :
    firstParenGroupFrom mode.quoted (count + 1) (group ++ mode.ident) text =
      (closeGroup count (lexemesFrom mode text)).map (group ++ lexemesText ·) := by
  induction text generalizing mode count group with
  | nil =>
      rw [scan_nil]
      cases mode with
      | outside => rw [lexemesFrom, closeGroup_nil, Option.map_none]
      | inside ident | behind ident =>
          rw [lexemesFrom, closeGroup_of_ne Lexeme.noConfusion, if_neg Lexeme.noConfusion,
            closeGroup_nil]
          rfl
  | cons ch text ih =>
      have hrest : ∀ count group, firstParenGroupFrom false (count + 1) group text =
          (closeGroup count (lexemesFrom .outside text)).map (group ++ lexemesText ·) := by
        intro count group
        have houtside := ih .outside count group
        rwa [LexerMode.ident, List.append_nil] at houtside
      have hinside (ident : Str) : firstParenGroupFrom true (count + 1) (group ++ ident) text =
          (closeGroup count (lexemesFrom (.inside ident) text)).map (group ++ lexemesText ·) :=
        ih (.inside ident) count group
      have hbehind (ident : Str) : firstParenGroupFrom false (count + 1) (group ++ ident) text =
          (closeGroup count (lexemesFrom (.behind ident) text)).map (group ++ lexemesText ·) :=
        ih (.behind ident) count group
      by_cases hquote : ch = '"'
      · subst hquote
        cases mode with
        | outside =>
            rw [lexemesFrom, if_pos rfl, ← hinside, LexerMode.ident, List.append_nil]
            exact scan_unquoted_quote _ _ _
        | inside ident =>
            rw [lexemesFrom, if_pos rfl, ← hbehind, ← List.append_assoc]
            exact scan_quote _ _ _
        | behind ident =>
            rw [lexemesFrom, if_pos rfl, ← hinside, ← List.append_assoc]
            exact scan_unquoted_quote _ _ _
      · cases mode with
        | outside =>
            rw [lexemesFrom, if_neg hquote, LexerMode.ident, List.append_nil]
            exact scan_lexemeOf hquote hrest count group
        | inside ident =>
            rw [lexemesFrom, if_neg hquote, ← hinside, ← List.append_assoc]
            exact scan_quoted_cons hquote _ _ _
        | behind ident =>
            rw [lexemesFrom, if_neg hquote, closeGroup_of_ne Lexeme.noConfusion,
              if_neg Lexeme.noConfusion, map_cons_text]
            exact scan_lexemeOf hquote hrest count (group ++ ident)

/-- Where no group is open the scan looks for the first one. -/
theorem scan_closed (mode : LexerMode) (text group : Str) :
    firstParenGroupFrom mode.quoted 0 group text =
      (groupOf (lexemesFrom mode text)).map lexemesText := by
  induction text generalizing mode group with
  | nil =>
      rw [scan_nil]
      cases mode <;> rfl
  | cons ch text ih =>
      by_cases hquote : ch = '"'
      · subst hquote
        cases mode with
        | outside =>
            rw [lexemesFrom, if_pos rfl, ← ih (.inside ['"']) (group ++ ['"'])]
            exact scan_unquoted_quote _ _ _
        | inside ident =>
            rw [lexemesFrom, if_pos rfl, ← ih (.behind (ident ++ ['"'])) (group ++ ['"'])]
            exact scan_quote _ _ _
        | behind ident =>
            rw [lexemesFrom, if_pos rfl, ← ih (.inside (ident ++ ['"'])) (group ++ ['"'])]
            exact scan_unquoted_quote _ _ _
      · have hplain (group : Str) : firstParenGroupFrom false 0 group (ch :: text) =
            (groupOf (lexemeOf ch :: lexemesFrom .outside text)).map lexemesText := by
          rw [scan_char, if_neg hquote]
          by_cases hopen : ch = '('
          · rw [if_pos hopen, if_pos rfl, groupOf, lexemeOf, if_pos hopen, if_pos rfl]
            exact scan_open .outside text 0 []
          have hplain : lexemeOf ch ≠ .opening := by
            rw [lexemeOf, if_neg hopen]
            split_ifs <;> exact Lexeme.noConfusion
          rw [if_neg hopen, if_neg fun hm => absurd hm.2 (by decide), groupOf, if_neg hplain,
            ← ih .outside (group ++ [ch])]
          split_ifs <;> rfl
        cases mode with
        | outside =>
            rw [lexemesFrom, if_neg hquote]
            exact hplain group
        | inside ident =>
            rw [lexemesFrom, if_neg hquote, ← ih (.inside (ident ++ [ch])) (group ++ [ch])]
            exact scan_quoted_cons hquote _ _ _
        | behind ident =>
            rw [lexemesFrom, if_neg hquote, groupOf, if_neg Lexeme.noConfusion]
            exact hplain group

theorem firstParenGroup_eq (text : Str) :
    firstParenGroup text = (groupOf (lexemes text)).map lexemesText :=
  scan_closed .outside text []

/-- **What is returned is the text of the group that the first opening parenthesis begins, and
    nothing where there is none or it does not close.** -/
theorem firstParenGroup_iff (text : Str) :
    (∀ s, firstParenGroup text = some s ↔
      ∃ group, FirstGroup (lexemes text) group ∧ lexemesText group = s) ∧
    (firstParenGroup text = none ↔ ∀ group, ¬ FirstGroup (lexemes text) group) := by
  rw [firstParenGroup_eq]
  constructor
  · intro s
    rw [Option.map_eq_some_iff]
    exact exists_congr fun group => and_congr_left' groupOf_eq_some_iff
  · rw [Option.map_eq_none_iff, Option.eq_none_iff_forall_not_mem]
    exact forall_congr' fun group => not_congr groupOf_eq_some_iff

/-- A group that is balanced is not found behind a parenthesis that stays open. -/
theorem not_firstParenGroup_balanced :
    firstParenGroup "((a)".toList = none ∧ ∃ before group after,
      lexemes "((a)".toList = before ++ .opening :: group ++ .closing :: after ∧
        WellNested .opening .closing group :=
  ⟨by decide, [.opening], [.plain 'a'], [], by decide,
    .atom (by decide) (by decide) .nil⟩

end PgErdCloud.Spec
