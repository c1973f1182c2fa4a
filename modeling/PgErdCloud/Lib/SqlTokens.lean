/-
  SQL text as a layout of tokens: every token stands behind blanks, a key word is written in
  any case, a name with quotes or without. What is not broken into tokens stays raw text.
-/
import PgErdCloud.Lib.SqlIdent

namespace PgErdCloud.Lib.SqlTokens

open PyStr
open LexState (isIdentStart isIdentCont foldCase utf8Length maxIdentifierBytes quoteIdent)

/-- The tokens of a statement: a keyword in upper case, an identifier after folding and unquoting, a
    character of its own, and the content of a fragment that is copied. -/
inductive Token
  | keyword (word : Str)
  | name (ident : Str)
  | symbol (ch : Char)
  | raw (content : Str)

/-- White space between tokens. -/
def isBlank (c : Char) : Bool := c ∈ [' ', '\t', '\n', '\r', '\x0b', '\x0c']

/-- A text that the lexer reads as one word. -/
def isWord (text : Str) : Bool := text.head?.any isIdentStart && text.all isIdentCont

/-- The ways to write a token. A name is short enough to come out whole. -/
def Token.IsText : Token → Str → Prop
  | .keyword word, text => isWord text = true ∧ foldCase text = word
  | .name ident, text => ident ≠ [] ∧ utf8Length ident ≤ maxIdentifierBytes ∧
      (isWord text = true ∧ foldCase text = ident ∨ text = quoteIdent ident)
  | .symbol ch, text => text = [ch]
  | .raw content, text => text = content

instance (token : Token) (text : Str) : Decidable (token.IsText text) := by
  cases token <;> unfold Token.IsText <;> infer_instance

/-- The texts do not run together: neither two words nor two quoted names touch. -/
def Apart (text after : Str) : Prop :=
  ¬ (text.getLast?.any isIdentCont ∧ after.head?.any isIdentCont) ∧
    ¬ (text.getLast? = some '"' ∧ after.head? = some '"')

/-- A text writes the tokens with blanks between them, and with nothing that would join two. -/
inductive Writes : List Token → Str → Prop
  | nil {blank : Str} (hblank : ∀ c ∈ blank, isBlank c = true) : Writes [] blank
  | cons {token : Token} {tokens : List Token} {blank text after : Str}
      (hblank : ∀ c ∈ blank, isBlank c = true) (htext : token.IsText text)
      (hapart : Apart text after) (h : Writes tokens after) :
      Writes (token :: tokens) (blank ++ (text ++ after))

theorem writes_nil : Writes [] [] := .nil (by simp)

/-- The text of tokens with the blank before each and the way it is written. -/
def layout (pieces : List (Token × Str × Str)) : Str := pieces.flatMap fun p => p.2.1 ++ p.2.2

theorem Writes.of_pieces (pieces : List (Token × Str × Str))
    (htexts : ∀ p ∈ pieces, p.1.IsText p.2.2) (hfirst : ∀ p ∈ pieces.head?, p.2.1.all isBlank)
    (hblanks : ∀ p ∈ pieces.tail, p.2.1 ≠ [] ∧ p.2.1.all isBlank) :
    Writes (pieces.map Prod.fst) (layout pieces) := by
  induction pieces with
  | nil =>
      have hblank : ∀ c ∈ ([] : Str), isBlank c = true := by simp
      exact .nil hblank
  | cons p pieces ih =>
      rw [List.map_cons, layout, List.flatMap_cons, List.append_assoc]
      have hrest := ih (fun q hq => htexts q (List.mem_cons_of_mem p hq))
        (fun q hq => (hblanks q (List.mem_of_mem_head? hq)).2)
        (fun q hq => hblanks q (List.mem_of_mem_tail hq))
      refine .cons (List.all_eq_true.mp (hfirst p rfl)) (htexts p List.mem_cons_self) ?_ hrest
      -- what follows is empty or begins with a blank
      cases pieces with
      | nil => simp [Apart]
      | cons q pieces =>
          obtain ⟨hne, hall⟩ := hblanks q List.mem_cons_self
          obtain ⟨c, blank, hblank⟩ := List.exists_cons_of_ne_nil hne
          have hc : isBlank c = true := List.all_eq_true.mp hall c (by simp [hblank])
          have hhead : (layout (q :: pieces)).head? = some c := by
            rw [layout, List.flatMap_cons, hblank]
            rfl
          have hcont : isIdentCont c = false := by
            simp only [isBlank, List.mem_cons, List.not_mem_nil, or_false, decide_eq_true_eq] at hc
            rcases hc with rfl | rfl | rfl | rfl | rfl | rfl <;> decide
          have hquote : c ≠ '"' := by
            rintro rfl
            exact absurd hc (by decide)
          show Apart p.2.2 (layout (q :: pieces))
          rw [Apart, hhead]
          simp [hcont, hquote]

/-! ## Tokens in a row -/

/-- Some keywords in a row. -/
def keywords (words : List String) : List Token := words.map fun word => .keyword word.toList

/-- `a.b` -/
def dotted (names : List Str) : List Token :=
  [Token.symbol '.'].intercalate (names.map fun name => [.name name])

/-- `(a, b)` -/
def nameList (names : List Str) : List Token :=
  .symbol '(' :: ([Token.symbol ','].intercalate (names.map fun name => [.name name]) ++
    [.symbol ')'])

/-- The text of the first tokens ends where that of the others begins. -/
theorem Writes.of_append {tokens others : List Token} {text : Str}
    (h : Writes (tokens ++ others) text) :
    ∃ before after, text = before ++ after ∧ Writes others after ∧
      ∀ P : Str → Prop, P [] → (∀ blank, (∀ c ∈ blank, isBlank c = true) → P blank) →
        (∀ token ∈ tokens, ∀ t, token.IsText t → P t) → (∀ s t, P s → P t → P (s ++ t)) →
          P before := by
  induction tokens generalizing text with
  | nil => exact ⟨[], text, rfl, h, fun _ hnil _ _ _ => hnil⟩
  | cons token tokens ih =>
      cases h with
      | @cons _ _ blank text _ hblank htext hapart h =>
          obtain ⟨before, after, rfl, hothers, hbefore⟩ := ih h
          refine ⟨blank ++ (text ++ before), after, by simp only [List.append_assoc], hothers, ?_⟩
          intro P hnil hblanks htokens happend
          refine happend _ _ (hblanks _ hblank) (happend _ _ ?_ ?_)
          · exact htokens token List.mem_cons_self _ htext
          · exact hbefore P hnil hblanks
              (fun t ht => htokens t (List.mem_cons_of_mem _ ht)) happend

/-- What holds of blanks and of the tokens' texts holds of their layout. -/
theorem Writes.induction {tokens : List Token} {text : Str} (h : Writes tokens text)
    {P : Str → Prop} (hblanks : ∀ blank, (∀ c ∈ blank, isBlank c = true) → P blank)
    (htokens : ∀ token ∈ tokens, ∀ t, token.IsText t → P t)
    (happend : ∀ s t, P s → P t → P (s ++ t)) : P text := by
  induction h with
  | nil hblank => exact hblanks _ hblank
  | cons hblank htext hapart h ih =>
      refine happend _ _ (hblanks _ hblank) (happend _ _ ?_ ?_)
      · exact htokens _ List.mem_cons_self _ htext
      · exact ih fun t ht => htokens t (List.mem_cons_of_mem _ ht)

/-! ## Commas -/

/-- A token without parentheses and commas of its own. -/
def Token.inert : Token → Bool
  | .keyword _ | .name _ => true
  | .symbol ch => ch ∉ ['(', ')', '"', ',']
  | .raw _ => false

/-- The commas in a token's name. -/
def Token.commas : Token → Nat
  | .name ident => ident.count ','
  | .keyword _ | .symbol _ | .raw _ => 0

theorem toLower_ne_comma {c : Char} (h : c ≠ ',') : c.toLower ≠ ',' := by
  unfold Char.toLower
  split_ifs with hupper
  · intro he
    have hval : (c.val + ('a'.val - 'A'.val)).toNat = 44 := congrArg (fun d => d.val.toNat) he
    have hdist : ('a'.val - 'A'.val).toNat = 32 := by decide
    have hA : ('A'.val).toNat = 65 := by decide
    have hZ : ('Z'.val).toNat = 90 := by decide
    have hlow := UInt32.le_iff_toNat_le.mp hupper.1
    have hhigh := UInt32.le_iff_toNat_le.mp hupper.2
    rw [UInt32.toNat_add] at hval
    omega
  · exact h

theorem isIdentCont_of_isWord {text : Str} (h : isWord text = true) {c : Char} (hc : c ∈ text) :
    isIdentCont c = true :=
  List.all_eq_true.mp (Bool.and_eq_true_iff.mp h).2 c hc

theorem count_comma_eq_zero_of_isWord {text : Str} (h : isWord text = true) :
    text.count ',' = 0 :=
  List.count_eq_zero.mpr fun hm => absurd (isIdentCont_of_isWord h hm) (by decide)

theorem count_comma_foldCase {text : Str} (h : isWord text = true) :
    (foldCase text).count ',' = 0 := by
  rw [List.count_eq_zero]
  intro hm
  obtain ⟨c, hc, he⟩ := List.mem_map.mp hm
  have hcomma : c ≠ ',' := by
    rintro rfl
    exact absurd (isIdentCont_of_isWord h hc) (by decide)
  exact toLower_ne_comma hcomma he

theorem count_comma_quoteIdent (ident : Str) : (quoteIdent ident).count ',' = ident.count ',' := by
  have hreplace : (replaceChar '"' "\"\"".toList ident).count ',' = ident.count ',' := by
    induction ident with
    | nil => rfl
    | cons c ident ih =>
        have hcons : replaceChar '"' "\"\"".toList (c :: ident) =
            (if c = '"' then ['"', '"'] else [c]) ++ replaceChar '"' "\"\"".toList ident := rfl
        rw [hcons, List.count_append, ih, List.count_cons]
        split_ifs with hq hc hc
        · exact absurd (hq ▸ of_decide_eq_true hc) (by decide)
        · simp
        · simp [of_decide_eq_true hc, Nat.add_comm]
        · simp_all
  rw [quoteIdent, List.count_cons, List.count_append, hreplace]
  simp

/-- The commas of an inert token are those of its name. -/
theorem Token.IsText.count_comma {token : Token} {text : Str} (h : token.IsText text)
    (hinert : token.inert = true) : text.count ',' = token.commas := by
  cases token with
  | keyword word => exact count_comma_eq_zero_of_isWord h.1
  | name ident =>
      obtain ⟨-, -, ⟨hword, rfl⟩ | rfl⟩ := h
      · exact (count_comma_eq_zero_of_isWord hword).trans (count_comma_foldCase hword).symm
      · exact count_comma_quoteIdent ident
  | symbol ch =>
      obtain rfl : text = [ch] := h
      have hch : ch ≠ ',' := by
        rintro rfl
        exact absurd hinert (by decide)
      simp [hch, Token.commas]
  | raw content => exact absurd hinert (by simp [Token.inert])

theorem Writes.count_comma {tokens : List Token} {text : Str} (h : Writes tokens text)
    (hinert : ∀ token ∈ tokens, token.inert = true) :
    text.count ',' = (tokens.map Token.commas).sum := by
  have hblanks : ∀ {blank : Str}, (∀ c ∈ blank, isBlank c = true) → blank.count ',' = 0 :=
    fun hblank => List.count_eq_zero.mpr fun hm => absurd (hblank _ hm) (by decide)
  induction h with
  | nil hblank => exact hblanks hblank
  | cons hblank htext hapart h ih =>
      rw [List.count_append, List.count_append, hblanks hblank,
        htext.count_comma (hinert _ List.mem_cons_self),
        ih fun t ht => hinert t (List.mem_cons_of_mem _ ht), Nat.zero_add, List.map_cons,
        List.sum_cons]

end PgErdCloud.Lib.SqlTokens
