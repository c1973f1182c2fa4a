/-
  Identifiers as tokens with a value. A word is folded to lower case, a quoted identifier has
  its doubled quotes undone, and either is cut to 63 bytes. A word that is reserved is a key
  word; which words are is up to the grammar at hand.

  `isIdentifier_bare_iff` and `isIdentifier_quoted_iff` say when a name that is written as it
  is, or between quotes without doubling, is an identifier with the name as its value.
-/
import PgErdCloud.Lib.SqlLex

namespace PgErdCloud.Lib.LexState

open PyStr

/-! ## Values -/

/-- At most `budget` bytes of UTF-8, in whole characters. -/
def truncate : Nat → Str → Str
  | _, [] => []
  | budget, c :: s => if c.utf8Size ≤ budget then c :: truncate (budget - c.utf8Size) s else []

/-- How many bytes the text has. -/
def utf8Length (s : Str) : Nat := (s.map Char.utf8Size).sum

/-- The length of an identifier, without the final `NUL` of `NAMEDATALEN`. -/
def maxIdentifierBytes : Nat := 63

/-- An identifier without quotes, as PostgreSQL folds ASCII. -/
def foldCase (s : Str) : Str := s.map Char.toLower

/-- A quoted identifier. -/
def quoteIdent (ident : Str) : Str := '"' :: (replaceChar '"' "\"\"".toList ident ++ ['"'])

/-- The text is one word: it begins a token, stays in it, and no character behind goes on with
    it. -/
def OneWord (st : LexState) (text after : Str) : Prop :=
  text ≠ [] ∧ (∀ word, st ≠ .word word) ∧
    (∀ part, part <+: text → part ≠ [] → lex st part = .word part) ∧
    ∀ c ∈ after.head?, isIdentCont c = false ∧ c ≠ '\''

/-- The text is one identifier token with the value. -/
def IsIdentifier (reserved : Str → Bool) (st : LexState) (text after value : Str) : Prop :=
  (∃ ident, ident ≠ [] ∧ text = quoteIdent ident ∧ InIdentifier st text after ∧
    value = truncate maxIdentifierBytes ident) ∨
  (OneWord st text after ∧ reserved (foldCase text) = false ∧
    value = truncate maxIdentifierBytes (foldCase text))

theorem length_truncate_le (budget : Nat) (s : Str) : (truncate budget s).length ≤ s.length := by
  induction s generalizing budget with
  | nil => exact le_rfl
  | cons c s ih =>
      rw [truncate]
      split_ifs
      · exact Nat.succ_le_succ (ih _)
      · exact Nat.zero_le _

/-- Only what is too long is cut. -/
theorem truncate_eq_self_iff (budget : Nat) (s : Str) :
    truncate budget s = s ↔ utf8Length s ≤ budget := by
  induction s generalizing budget with
  | nil => simp [truncate, utf8Length]
  | cons c s ih =>
      have hlength : utf8Length (c :: s) = c.utf8Size + utf8Length s := rfl
      rw [truncate, hlength]
      split_ifs with h
      · rw [List.cons.injEq, ih, and_iff_right rfl]
        omega
      · refine iff_of_false (by simp) ?_
        omega

theorem truncate_eq_of_length {budget : Nat} {s : Str}
    (h : s.length ≤ (truncate budget s).length) : truncate budget s = s := by
  induction s generalizing budget with
  | nil => rfl
  | cons c s ih =>
      rw [truncate] at h ⊢
      split_ifs at h ⊢ with hc
      · rw [ih (Nat.le_of_succ_le_succ h)]
      · exact absurd h (by simp)

theorem truncate_append {budget : Nat} {start : Str} (h : utf8Length start ≤ budget) (s : Str) :
    truncate budget (start ++ s) = start ++ truncate (budget - utf8Length start) s := by
  induction start generalizing budget with
  | nil => rfl
  | cons c start ih =>
      have hlength : utf8Length (c :: start) = c.utf8Size + utf8Length start := rfl
      rw [hlength] at h ⊢
      rw [List.cons_append, truncate, if_pos (by omega), ih (by omega), Nat.sub_add_eq]
      rfl

/-- A cut by characters before the cut by bytes changes nothing where it is no shorter, since
    each character is a byte at least. -/
theorem truncate_take {budget n : Nat} (h : budget ≤ n) (s : Str) :
    truncate budget (s.take n) = truncate budget s := by
  induction s generalizing budget n with
  | nil => rw [List.take_nil]
  | cons c s ih =>
      have hpos := c.utf8Size_pos
      cases n with
      | zero =>
          rw [List.take_zero, truncate, truncate, if_neg (by omega)]
      | succ n =>
          rw [List.take_succ_cons, truncate, truncate]
          split_ifs with hc
          · rw [ih (by omega)]
          · rfl

theorem length_replaceChar_quote (ident : Str) :
    ident.length ≤ (replaceChar '"' "\"\"".toList ident).length := by
  induction ident with
  | nil => exact le_rfl
  | cons c ident ih =>
      have hcons : replaceChar '"' "\"\"".toList (c :: ident) =
          (if c = '"' then ['"', '"'] else [c]) ++ replaceChar '"' "\"\"".toList ident := rfl
      rw [hcons, List.length_append, List.length_cons]
      split_ifs
      · simp only [List.length_cons, List.length_nil]
        omega
      · simp only [List.length_cons, List.length_nil]
        omega

/-- Doubling changes exactly the names with a quote. -/
theorem replaceChar_quote_of_length {ident : Str}
    (h : (replaceChar '"' "\"\"".toList ident).length ≤ ident.length) : '"' ∉ ident := by
  induction ident with
  | nil => exact List.not_mem_nil
  | cons c ident ih =>
      have hcons : replaceChar '"' "\"\"".toList (c :: ident) =
          (if c = '"' then ['"', '"'] else [c]) ++ replaceChar '"' "\"\"".toList ident := rfl
      have hle := length_replaceChar_quote ident
      rw [hcons, List.length_append, List.length_cons] at h
      split_ifs at h with hc
      · simp only [List.length_cons, List.length_nil] at h
        omega
      · simp only [List.length_cons, List.length_nil] at h
        rw [List.mem_cons, not_or]
        exact ⟨Ne.symm hc, ih (by omega)⟩

theorem replaceChar_quote_eq_self {ident : Str} (h : '"' ∉ ident) :
    replaceChar '"' "\"\"".toList ident = ident := by
  induction ident with
  | nil => rfl
  | cons c ident ih =>
      rw [List.mem_cons, not_or] at h
      have hcons : replaceChar '"' "\"\"".toList (c :: ident) =
          (if c = '"' then ['"', '"'] else [c]) ++ replaceChar '"' "\"\"".toList ident := rfl
      rw [hcons, if_neg (Ne.symm h.1), ih h.2]
      rfl

/-! ## Names as they are -/

/-- A name that PostgreSQL reads as itself without quotes. -/
structure BareName (reserved : Str → Bool) (name : Str) : Prop where
  head : ∃ c rest, name = c :: rest ∧ isIdentStart c = true
  chars : ∀ c ∈ name, isIdentCont c = true
  lower : foldCase name = name
  short : utf8Length name ≤ maxIdentifierBytes
  free : reserved name = false

/-- A name that PostgreSQL reads as itself between quotes. -/
structure QuotableName (name : Str) : Prop where
  nonempty : name ≠ []
  quoteless : '"' ∉ name
  short : utf8Length name ≤ maxIdentifierBytes

/-- A word that a step begins begins with the character. -/
theorem start_of_step {st : LexState} {c : Char} {text : Str} (hst : ∀ word, st ≠ .word word)
    (h : step st c = .word text) : start c = .word text := by
  cases st with
  | base => exact h
  | word text => exact absurd rfl (hst text)
  | dash | slash | quotedEnd | stringEnd _ | dollar _ =>
      rw [step] at h
      split_ifs at h
      exact h
  | lineComment | blockComment _ _ | quoted | string _ | dollarBody _ _ =>
      rw [step] at h
      split_ifs at h
  | stringEscape => exact absurd h (by simp [step])

theorem isIdentStart_of_start {c : Char} {text : Str} (h : start c = .word text) :
    isIdentStart c = true := by
  unfold start at h
  split_ifs at h with h1 h2 h3 h4 h5 h6
  exact h6

theorem isIdentCont_of_isIdentStart {c : Char} (h : isIdentStart c = true) :
    isIdentCont c = true := by
  rw [isIdentCont, h]
  rfl

/-- Words go on with the characters of identifiers only. -/
theorem isIdentCont_of_step {st : LexState} {c : Char} {text : Str} (h : step st c = .word text) :
    isIdentCont c = true := by
  by_cases hst : ∀ word, st ≠ .word word
  · exact isIdentCont_of_isIdentStart (isIdentStart_of_start (start_of_step hst h))
  · push Not at hst
    obtain ⟨word, rfl⟩ := hst
    by_contra hc
    rw [step, if_neg hc] at h
    split_ifs at h with hquote
    exact hc (isIdentCont_of_isIdentStart (isIdentStart_of_start h))

theorem OneWord.chars {st : LexState} {text after : Str} (h : OneWord st text after) :
    ∀ c ∈ text, isIdentCont c = true := by
  intro c hc
  obtain ⟨before, behind, rfl⟩ := List.append_of_mem hc
  have hrun := h.2.2.1 (before ++ [c]) ⟨behind, by simp⟩ (by simp)
  rw [lex_append] at hrun
  exact isIdentCont_of_step hrun

theorem OneWord.head {st : LexState} {text after : Str} (h : OneWord st text after) :
    ∃ c rest, text = c :: rest ∧ isIdentStart c = true := by
  obtain ⟨hne, hst, hrun, -⟩ := h
  cases text with
  | nil => exact absurd rfl hne
  | cons c rest =>
      exact ⟨c, rest, rfl,
        isIdentStart_of_start (start_of_step hst (hrun [c] ⟨rest, rfl⟩ (by simp)))⟩

/-- The characters of identifiers go on with a word. -/
theorem lex_word {text : Str} (h : ∀ c ∈ text, isIdentCont c = true) (word : Str) :
    lex (.word word) text = .word (word ++ text) := by
  induction text generalizing word with
  | nil => simp
  | cons c text ih =>
      have hstep : step (.word word) c = .word (word ++ [c]) := if_pos (h c List.mem_cons_self)
      rw [lex_cons, hstep, ih fun d hd => h d (List.mem_cons_of_mem c hd), List.append_assoc]
      rfl

theorem start_of_isIdentStart {c : Char} (h : isIdentStart c = true) : start c = .word [c] := by
  have hne : ∀ d : Char, isIdentStart d = false → c ≠ d := by
    rintro d hd rfl
    rw [h] at hd
    exact absurd hd (by decide)
  unfold start
  rw [if_neg (hne _ (by decide)), if_neg (hne _ (by decide)), if_neg (hne _ (by decide)),
    if_neg (hne _ (by decide)), if_neg (hne _ (by decide)), if_pos h]

theorem not_identCont_of_separator {c : Char} (h : isSeparator c = true) :
    isIdentCont c = false ∧ c ≠ '\'' := by
  simp only [isSeparator, List.mem_cons, List.not_mem_nil, or_false, decide_eq_true_eq] at h
  rcases h with rfl | rfl | rfl | rfl | rfl | rfl | rfl | rfl | rfl
  all_goals exact ⟨by decide, by decide⟩

theorem BareName.run {reserved : Str → Bool} {name : Str} (h : BareName reserved name) :
    lex .base name = .word name := by
  obtain ⟨c, rest, rfl, hc⟩ := h.head
  rw [lex_cons]
  show lex (start c) rest = _
  rw [start_of_isIdentStart hc, lex_word fun d hd => h.chars d (List.mem_cons_of_mem c hd)]
  rfl

/-- **A name as it is:** where it stands between separators it is an identifier with itself as
    its value exactly when it is a bare name. -/
theorem BareName.isIdentifier {reserved : Str → Bool} {name after : Str}
    (h : BareName reserved name) (hafter : ∀ c ∈ after.head?, isSeparator c = true) :
    IsIdentifier reserved .base name after name := by
  refine .inr ⟨⟨?_, fun _ => by simp, ?_, fun c hc => not_identCont_of_separator (hafter c hc)⟩,
    ?_, ?_⟩
  · obtain ⟨c, rest, rfl, -⟩ := h.head
    simp
  · intro part hpart hne
    obtain ⟨c, rest, rfl, hc⟩ := h.head
    obtain ⟨part, rfl⟩ : ∃ tail, part = c :: tail := by
      cases part with
      | nil => exact absurd rfl hne
      | cons d tail => exact ⟨tail, by rw [(List.cons_prefix_cons.mp hpart).1]⟩
    rw [lex_cons]
    show lex (start c) part = _
    rw [start_of_isIdentStart hc, lex_word fun d hd => h.chars d (hpart.subset
      (List.mem_cons_of_mem c hd))]
    rfl
  · rw [h.lower, h.free]
  · rw [h.lower, (truncate_eq_self_iff _ _).mpr h.short]

theorem length_quoteIdent (ident : Str) : ident.length + 2 ≤ (quoteIdent ident).length := by
  have hle := length_replaceChar_quote ident
  unfold quoteIdent
  rw [List.length_cons, List.length_append, List.length_singleton]
  omega

/-- No value is longer than its text. -/
theorem IsIdentifier.length_le {reserved : Str → Bool} {st : LexState} {text after value : Str}
    (h : IsIdentifier reserved st text after value) : value.length ≤ text.length := by
  rcases h with ⟨ident, -, rfl, -, rfl⟩ | ⟨-, -, rfl⟩
  · have hlong := length_quoteIdent ident
    have hshort := length_truncate_le maxIdentifierBytes ident
    omega
  · have hshort := length_truncate_le maxIdentifierBytes (foldCase text)
    rwa [foldCase, List.length_map] at hshort

theorem bareName_of_isIdentifier {reserved : Str → Bool} {st : LexState} {name after : Str}
    (h : IsIdentifier reserved st name after name) : BareName reserved name := by
  rcases h with ⟨ident, -, htext, -, hvalue⟩ | ⟨hword, hfree, hvalue⟩
  · -- a quoted identifier is longer than its value
    have hlong := length_quoteIdent ident
    have hshort := length_truncate_le maxIdentifierBytes ident
    rw [← htext] at hlong
    rw [← hvalue] at hshort
    omega
  · have hlower : foldCase name = name := by
      have hlength : (foldCase name).length ≤
          (truncate maxIdentifierBytes (foldCase name)).length := by
        rw [← hvalue, foldCase, List.length_map]
      rw [truncate_eq_of_length hlength] at hvalue
      exact hvalue.symm
    rw [hlower] at hvalue hfree
    exact ⟨hword.head, hword.chars, hlower, (truncate_eq_self_iff _ _).mp hvalue.symm, hfree⟩

/-! ## Names between quotes -/

/-- A quoted identifier is one token. -/
theorem inIdentifier_quoteIdent (ident : Str) {after : Str} (hafter : after.head? ≠ some '"') :
    InIdentifier .base (quoteIdent ident) after := by
  obtain ⟨hrun, hparts⟩ := lex_quoted_replaceChar ident
  exact ⟨by simp, by simp, _, rfl, rfl, hparts, hrun, hafter⟩

theorem QuotableName.quoteIdent_eq {name : Str} (h : QuotableName name) :
    quoteIdent name = '"' :: (name ++ ['"']) := by
  rw [quoteIdent, replaceChar_quote_eq_self h.quoteless]

theorem QuotableName.isIdentifier {reserved : Str → Bool} {name after : Str}
    (h : QuotableName name) (hafter : after.head? ≠ some '"') :
    IsIdentifier reserved .base ('"' :: (name ++ ['"'])) after name := by
  refine .inl ⟨name, h.nonempty, h.quoteIdent_eq.symm, ?_,
    ((truncate_eq_self_iff _ _).mpr h.short).symm⟩
  rw [← h.quoteIdent_eq]
  exact inIdentifier_quoteIdent name hafter

/-- What is written between the quotes is not longer than the name. -/
theorem quotableName_of_isIdentifier {reserved : Str → Bool} {st : LexState}
    {written name after : Str} (hlength : written.length ≤ name.length)
    (h : IsIdentifier reserved st ('"' :: (written ++ ['"'])) after name) :
    QuotableName name ∧ written = name := by
  rcases h with ⟨ident, hne, htext, -, hvalue⟩ | ⟨hword, -⟩
  · have hwritten : written = replaceChar '"' "\"\"".toList ident := by
      rw [quoteIdent, List.cons.injEq] at htext
      exact List.append_cancel_right htext.2
    have hle := length_replaceChar_quote ident
    have hshort := length_truncate_le maxIdentifierBytes ident
    rw [← hvalue] at hshort
    rw [← hwritten] at hle
    have hwhole : truncate maxIdentifierBytes ident = ident := by
      apply truncate_eq_of_length
      rw [← hvalue]
      omega
    obtain rfl : name = ident := hvalue.trans hwhole
    have hquoteless : '"' ∉ name := by
      apply replaceChar_quote_of_length
      rw [← hwritten]
      exact hlength
    rw [replaceChar_quote_eq_self hquoteless] at hwritten
    exact ⟨⟨hne, hquoteless, (truncate_eq_self_iff _ _).mp hwhole⟩, hwritten⟩
  · exact absurd (hword.chars '"' List.mem_cons_self) (by decide)

end PgErdCloud.Lib.LexState
