/-
  The lexical rules of PostgreSQL as an automaton over characters: quoted identifiers, string
  literals (plain, escaped, and dollar-quoted), comments of both kinds. Between tokens the
  automaton is in `base`, or in a state that any separator leads back there. A literal that
  is continued on another line is read as a literal of its own.
-/
import PgErdCloud.Lib.PyStr

namespace PgErdCloud.Lib

open PyStr

/-! ## The automaton -/

/-- Where the lexer is: between tokens, within one, or behind a character that may begin a comment.
    -/
inductive LexState
  | base
  /-- in a key word or an identifier without quotes -/
  | word (text : Str)
  | dash
  | slash
  | lineComment
  /-- at a depth, with the character before -/
  | blockComment (depth : Nat) (last : Option Char)
  | quoted
  /-- behind a quote that may close the identifier -/
  | quotedEnd
  | string (escapes : Bool)
  | stringEscape
  | stringEnd (escapes : Bool)
  | dollar (tag : Str)
  | dollarBody (tag seen : Str)
  deriving DecidableEq

namespace LexState

/-- `ident_start`: letters, the underscore and everything that is not ASCII. -/
def isIdentStart (c : Char) : Bool := c.isAlpha || c = '_' || 128 ≤ c.toNat

/-- `ident_cont`: besides, digits and the dollar sign. -/
def isIdentCont (c : Char) : Bool := isIdentStart c || c.isDigit || c = '$'

/-- The first character of a token. -/
def start (c : Char) : LexState :=
  if c = '"' then .quoted
  else if c = '\'' then .string false
  else if c = '-' then .dash
  else if c = '/' then .slash
  else if c = '$' then .dollar []
  else if isIdentStart c then .word [c]
  else .base

/-- The place behind one more character. -/
def step : LexState → Char → LexState
  | .base, c => start c
  | .word text, c =>
      if isIdentCont c then .word (text ++ [c])
      else if c = '\'' then .string (text = ['e'] || text = ['E'])
      else start c
  | .dash, c => if c = '-' then .lineComment else start c
  | .slash, c => if c = '*' then .blockComment 1 none else start c
  | .lineComment, c => if c = '\n' ∨ c = '\r' then .base else .lineComment
  | .blockComment depth last, c =>
      if last = some '/' ∧ c = '*' then .blockComment (depth + 1) none
      else if last = some '*' ∧ c = '/' then
        if depth ≤ 1 then .base else .blockComment (depth - 1) none
      else .blockComment depth (some c)
  | .quoted, c => if c = '"' then .quotedEnd else .quoted
  | .quotedEnd, c => if c = '"' then .quoted else start c
  | .string escapes, c =>
      if c = '\'' then .stringEnd escapes
      else if escapes && c = '\\' then .stringEscape
      else .string escapes
  | .stringEscape, _ => .string true
  | .stringEnd escapes, c => if c = '\'' then .string escapes else start c
  | .dollar tag, c =>
      if c = '$' then .dollarBody tag []
      else if isIdentStart c || (tag ≠ [] && c.isDigit) then .dollar (tag ++ [c])
      else start c
  | .dollarBody tag seen, c =>
      let seen := seen ++ [c]
      if ('$' :: tag ++ ['$']).isSuffixOf seen then .base else .dollarBody tag seen

/-- The place behind a text. -/
def lex (st : LexState) (s : Str) : LexState := s.foldl step st

@[simp] theorem lex_nil (st : LexState) : lex st [] = st := rfl

@[simp] theorem lex_cons (st : LexState) (c : Char) (s : Str) :
    lex st (c :: s) = lex (step st c) s := rfl

theorem lex_append (st : LexState) (s t : Str) : lex st (s ++ t) = lex (lex st s) t :=
  List.foldl_append

/-- Within a comment of one of the two kinds. -/
def isComment : LexState → Bool
  | .lineComment | .blockComment _ _ => true
  | _ => false

/-! ## Within a token -/

/-- The text is one quoted identifier: it opens a token, stays in it, and closes it. -/
def InIdentifier (st : LexState) (text after : Str) : Prop :=
  st ≠ .quoted ∧ st ≠ .quotedEnd ∧ ∃ body, text = '"' :: (body ++ ['"']) ∧
    step st '"' = .quoted ∧
    (∀ part, part <+: body → lex .quoted part = .quoted ∨ lex .quoted part = .quotedEnd) ∧
    lex .quoted body = .quoted ∧ after.head? ≠ some '"'

/-- The text stands within a comment, with each of its characters. -/
def InComment (st : LexState) (text : Str) : Prop :=
  ∀ part, part <+: text → (lex st part).isComment = true

/-- No line break. -/
def Unbroken (text : Str) : Prop := '\n' ∉ text ∧ '\r' ∉ text

instance (text : Str) : Decidable (Unbroken text) :=
  inferInstanceAs (Decidable (_ ∧ _))

/-- Doubled quotes keep within the identifier. -/
theorem lex_quoted_replaceChar (ident : Str) :
    lex .quoted (replaceChar '"' "\"\"".toList ident) = .quoted ∧
      ∀ part, part <+: replaceChar '"' "\"\"".toList ident →
        lex .quoted part = .quoted ∨ lex .quoted part = .quotedEnd := by
  induction ident with
  | nil =>
      refine ⟨rfl, fun part hpart => ?_⟩
      rw [List.prefix_nil.mp hpart]
      exact .inl rfl
  | cons c ident ih =>
      obtain ⟨hrun, hparts⟩ := ih
      have hcons : replaceChar '"' "\"\"".toList (c :: ident) =
          (if c = '"' then ['"', '"'] else [c]) ++ replaceChar '"' "\"\"".toList ident := rfl
      rw [hcons]
      by_cases h : c = '"'
      · rw [if_pos h]
        refine ⟨hrun, fun part hpart => ?_⟩
        -- the first quote may close the identifier, the second goes on with it
        match part with
        | [] => exact .inl rfl
        | [a] =>
            simp only [List.cons_append, List.cons_prefix_cons] at hpart
            rw [hpart.1]
            exact .inr rfl
        | a :: b :: rest =>
            simp only [List.cons_append, List.nil_append, List.cons_prefix_cons] at hpart
            obtain ⟨rfl, rfl, hrest⟩ := hpart
            exact hparts rest hrest
      · rw [if_neg h]
        have hstep : step .quoted c = .quoted := if_neg h
        refine ⟨by rw [List.singleton_append, lex_cons, hstep, hrun], fun part hpart => ?_⟩
        match part with
        | [] => exact .inl rfl
        | a :: rest =>
            simp only [List.cons_append, List.nil_append, List.cons_prefix_cons] at hpart
            obtain ⟨rfl, hrest⟩ := hpart
            rw [lex_cons, hstep]
            exact hparts rest hrest

/-- A text without line breaks stays in a comment to the end of the line. -/
theorem lex_lineComment {text : Str} (h : Unbroken text) :
    lex .lineComment text = .lineComment := by
  induction text with
  | nil => rfl
  | cons c text ih =>
      obtain ⟨hn, hr⟩ := h
      rw [List.mem_cons, not_or] at hn hr
      have hstep : step .lineComment c = .lineComment :=
        if_neg (not_or.mpr ⟨Ne.symm hn.1, Ne.symm hr.1⟩)
      rw [lex_cons, hstep]
      exact ih ⟨hn.2, hr.2⟩

theorem inComment_lineComment_iff {text : Str} : InComment .lineComment text ↔ Unbroken text := by
  constructor
  · intro h
    by_contra hbroken
    -- behind the first line break the comment is over
    have hsplit : ∃ part c, part ++ [c] <+: text ∧ Unbroken part ∧ (c = '\n' ∨ c = '\r') := by
      clear h
      induction text with
      | nil => exact absurd ⟨List.not_mem_nil, List.not_mem_nil⟩ hbroken
      | cons c text ih =>
          by_cases hc : c = '\n' ∨ c = '\r'
          · exact ⟨[], c, List.cons_prefix_cons.mpr ⟨rfl, List.nil_prefix⟩,
              ⟨List.not_mem_nil, List.not_mem_nil⟩, hc⟩
          · rw [not_or] at hc
            have hrest : ¬ Unbroken text := by
              rintro ⟨hn, hr⟩
              refine hbroken ⟨?_, ?_⟩
              · rw [List.mem_cons, not_or]
                exact ⟨Ne.symm hc.1, hn⟩
              · rw [List.mem_cons, not_or]
                exact ⟨Ne.symm hc.2, hr⟩
            obtain ⟨part, d, hpart, ⟨hn, hr⟩, hd⟩ := ih hrest
            refine ⟨c :: part, d, List.cons_prefix_cons.mpr ⟨rfl, hpart⟩, ⟨?_, ?_⟩, hd⟩
            · rw [List.mem_cons, not_or]
              exact ⟨Ne.symm hc.1, hn⟩
            · rw [List.mem_cons, not_or]
              exact ⟨Ne.symm hc.2, hr⟩
    obtain ⟨part, c, hpart, hunbroken, hc⟩ := hsplit
    have hcomment := h _ hpart
    rw [lex_append, lex_lineComment hunbroken] at hcomment
    have hstep : lex .lineComment [c] = .base := if_pos hc
    rw [hstep] at hcomment
    exact absurd hcomment (by decide)
  · rintro ⟨hn, hr⟩ part hpart
    rw [lex_lineComment ⟨fun h => hn (hpart.subset h), fun h => hr (hpart.subset h)⟩]
    rfl

/-! ## Between tokens -/

/-- A separator ends the token before it. -/
def Idle : LexState → Prop
  | .base | .word _ | .dash | .slash | .quotedEnd | .stringEnd _ => True
  | _ => False

theorem idle_base : Idle .base := trivial

instance : DecidablePred Idle
  | .base | .word _ | .dash | .slash | .quotedEnd | .stringEnd _ => isTrue trivial
  | .lineComment | .blockComment _ _ | .quoted | .string _ | .stringEscape | .dollar _
  | .dollarBody _ _ => isFalse not_false

/-- The characters that end a word and are tokens of their own, or blank. -/
def isSeparator (c : Char) : Bool := c ∈ [' ', '\n', ',', '.', ';', '(', ')', '[', ']']

/-- Separators, letters and digits. -/
def isPlain (c : Char) : Bool := isSeparator c || c.isAlpha || c = '_' || c.isDigit

theorem step_separator {st : LexState} (h : Idle st) {c : Char} (hc : isSeparator c = true) :
    step st c = .base := by
  obtain ⟨hident, hquote, hdash, hstar, hdouble, hstart⟩ : isIdentCont c = false ∧
      c ≠ '\'' ∧ c ≠ '-' ∧ c ≠ '*' ∧ c ≠ '"' ∧ start c = .base := by
    simp only [isSeparator, List.mem_cons, List.not_mem_nil, or_false, decide_eq_true_eq] at hc
    rcases hc with rfl | rfl | rfl | rfl | rfl | rfl | rfl | rfl | rfl
    all_goals exact ⟨by decide, by decide, by decide, by decide, by decide, by decide⟩
  cases st with
  | base => exact hstart
  | word text => simp [step, hident, hquote, hstart]
  | dash => simp [step, hdash, hstart]
  | slash => simp [step, hstar, hstart]
  | quotedEnd => simp [step, hdouble, hstart]
  | stringEnd escapes => simp [step, hquote, hstart]
  | _ => exact absurd h not_false

/-- Plain characters stay between tokens. -/
theorem idle_step {st : LexState} (h : Idle st) {c : Char} (hc : isPlain c = true) :
    Idle (step st c) := by
  by_cases hsep : isSeparator c = true
  · rw [step_separator h hsep]
    trivial
  · have hword : c.isAlpha = true ∨ c = '_' ∨ c.isDigit = true := by
      simpa [isPlain, hsep, or_assoc] using hc
    have hident : isIdentCont c = true := by
      unfold isIdentCont isIdentStart
      rcases hword with h | h | h
      · simp [h]
      · simp [h]
      · simp [h]
    have hne : ∀ d : Char, isIdentCont d = false → c ≠ d := by
      rintro d hd rfl
      rw [hident] at hd
      exact absurd hd (by decide)
    have hquote : c ≠ '\'' := hne _ (by decide)
    have hdash : c ≠ '-' := hne _ (by decide)
    have hstar : c ≠ '*' := hne _ (by decide)
    have hdouble : c ≠ '"' := hne _ (by decide)
    have hslash : c ≠ '/' := hne _ (by decide)
    have hdollar : c ≠ '$' := by
      rintro rfl
      exact absurd hword (by decide)
    have hstart : Idle (start c) := by
      simp only [start, hdouble, hquote, hdash, hslash, hdollar, if_false]
      split_ifs
      · trivial
      · trivial
    cases st with
    | base => exact hstart
    | word text =>
        simp only [step, hident, if_true]
        trivial
    | dash => simpa [step, hdash] using hstart
    | slash => simpa [step, hstar] using hstart
    | quotedEnd => simpa [step, hdouble] using hstart
    | stringEnd escapes => simpa [step, hquote] using hstart
    | _ => exact absurd h not_false

theorem idle_run {st : LexState} (h : Idle st) {text : Str}
    (hplain : ∀ c ∈ text, isPlain c = true) : Idle (lex st text) := by
  induction text generalizing st with
  | nil => exact h
  | cons c text ih =>
      exact ih (idle_step h (hplain c List.mem_cons_self))
        fun d hd => hplain d (List.mem_cons_of_mem _ hd)

/-- A plain text that ends with a separator leads back to the start. -/
theorem lex_eq_base {st : LexState} (h : Idle st) {text : Str} {c : Char}
    (hplain : ∀ d ∈ text, isPlain d = true) (hc : isSeparator c = true) :
    lex st (text ++ [c]) = .base := by
  rw [lex_append]
  exact step_separator (idle_run h hplain) hc

/-- A literal with doubled quotes is one token. -/
theorem lex_literal (text : Str) :
    lex .base ("'".toList ++ replaceChar '\'' "''".toList text ++ "'".toList) =
      .stringEnd false := by
  have hbody : lex (.string false) (replaceChar '\'' "''".toList text) = .string false := by
    induction text with
    | nil => rfl
    | cons c text ih =>
        have hcons : replaceChar '\'' "''".toList (c :: text) =
            (if c = '\'' then ['\'', '\''] else [c]) ++ replaceChar '\'' "''".toList text := rfl
        rw [hcons, lex_append]
        by_cases h : c = '\''
        · rw [if_pos h]
          exact ih
        · rw [if_neg h, lex_cons, lex_nil]
          have hstep : step (.string false) c = .string false := by
            simp [step, h]
          rw [hstep]
          exact ih
  have hopen : lex .base "'".toList = .string false := rfl
  rw [lex_append, lex_append, hopen, hbody]
  rfl

end LexState

end PgErdCloud.Lib
