import Mathlib
import PgErdCloud.Lib.Fallible
import PgErdCloud.ForwardDdl.Validate

/-
  The text that is executed is the rendering of the tokens that were checked.

  * `findall_token`: the scanner reads a token back when what follows cannot extend it.
  * `findall_formatStatement`: rendering then scanning is the identity on token lists.
  * `splitStatements_join`: the joined batch splits at `;` into exactly its statements.
  * `validated_sql_roundtrip`, `validated_sql_idempotent`: both for an accepted batch.
-/

namespace PgErdCloud.ForwardDdl

open PgErdCloud.Lib.PyStr PgErdCloud.Lib.Fallible

/-! ## Tokens -/

/-- A token that is a word. -/
def IsWord (t : Token) : Prop :=
  ∃ ch rest, t = ch :: rest ∧ isWordStart ch = true ∧ ∀ c ∈ rest, isWordChar c = true

/-- A token that is a number. -/
def IsNumber (t : Token) : Prop :=
  t ≠ [] ∧ ∀ c ∈ t, c.isDigit = true

/-- A token that is a mark. -/
def IsPunct (t : Token) : Prop :=
  ∃ ch, t = [ch] ∧ isPunct ch = true

/-- The texts `_WORD_RE` matches. -/
def IsToken (t : Token) : Prop :=
  IsWord t ∨ IsNumber t ∨ IsPunct t

/-- `rest` cannot extend the token `t` that stands before it. -/
def Separates (t : Token) (rest : List Char) : Prop :=
  IsPunct t ∨ ∀ ch ∈ rest.head?, isWordChar ch = false

theorem isWordChar_of_digit {ch : Char} (h : ch.isDigit = true) : isWordChar ch = true := by
  simp [isWordChar, Char.isAlphanum, h]

theorem isWordChar_of_start {ch : Char} (h : isWordStart ch = true) : isWordChar ch = true := by
  simp only [isWordStart, Bool.or_eq_true] at h
  rcases h with h | h <;> simp [isWordChar, Char.isAlphanum, h]

theorem not_digit_of_start {ch : Char} (h : isWordStart ch = true) : ch.isDigit = false := by
  have hu : ('_').isDigit = false := by decide
  simp only [isWordStart, Bool.or_eq_true, beq_iff_eq] at h
  rcases h with h | rfl
  · simp only [Char.isAlpha, Char.isUpper, Char.isLower, Char.isDigit, Bool.or_eq_true,
      Bool.and_eq_true, decide_eq_true_eq, Bool.and_eq_false_iff, decide_eq_false_iff_not] at h ⊢
    grind
  · exact hu

theorem isPunct_cases {ch : Char} (h : isPunct ch = true) :
    ch = '(' ∨ ch = ')' ∨ ch = ',' ∨ ch = '.' := by
  simpa [isPunct, or_assoc] using h

theorem not_wordChar_of_punct {ch : Char} (h : isPunct ch = true) : isWordChar ch = false := by
  rcases isPunct_cases h with rfl | rfl | rfl | rfl <;> decide

theorem not_start_of_not_wordChar {ch : Char} (h : isWordChar ch = false) :
    isWordStart ch = false := by
  by_contra hs
  rw [Bool.not_eq_false] at hs
  rw [isWordChar_of_start hs] at h
  exact absurd h (by decide)

theorem not_digit_of_not_wordChar {ch : Char} (h : isWordChar ch = false) :
    ch.isDigit = false := by
  by_contra hs
  rw [Bool.not_eq_false] at hs
  rw [isWordChar_of_digit hs] at h
  exact absurd h (by decide)

/-- Characters of tokens are word characters or punctuation. -/
theorem IsToken.char {t : Token} (h : IsToken t) {ch : Char} (hc : ch ∈ t) :
    isWordChar ch = true ∨ isPunct ch = true := by
  rcases h with ⟨a, rest, rfl, ha, hrest⟩ | ⟨_, hd⟩ | ⟨a, rfl, ha⟩
  · rcases List.mem_cons.mp hc with rfl | hc
    · exact .inl (isWordChar_of_start ha)
    · exact .inl (hrest ch hc)
  · exact .inl (isWordChar_of_digit (hd ch hc))
  · rw [List.mem_singleton.mp hc]
    exact .inr ha

theorem IsToken.ne_nil {t : Token} (h : IsToken t) : t ≠ [] := by
  rcases h with ⟨a, rest, rfl, _, _⟩ | ⟨h, _⟩ | ⟨a, rfl, _⟩
  · exact List.cons_ne_nil a rest
  · exact h
  · exact List.cons_ne_nil a []

/-- A token whose last character is punctuation is that one character. -/
theorem IsToken.punct_of_getLast {t : Token} (h : IsToken t) {ch : Char}
    (hl : t.getLast? = some ch) (hp : isPunct ch = true) : IsPunct t := by
  have hmem : ch ∈ t := List.mem_of_getLast? hl
  have hw : isWordChar ch = false := not_wordChar_of_punct hp
  rcases h with ⟨a, rest, rfl, ha, hrest⟩ | ⟨_, hd⟩ | h
  · have : isWordChar ch = true := by
      rcases List.mem_cons.mp hmem with rfl | hmem
      · exact isWordChar_of_start ha
      · exact hrest ch hmem
    rw [hw] at this
    exact absurd this (by decide)
  · rw [isWordChar_of_digit (hd ch hmem)] at hw
    exact absurd hw (by decide)
  · exact h

/-! ## The scanner -/

theorem findallFrom_append (xs rest : List Char) :
    findallFrom xs.length (xs ++ rest) = findallFrom 0 rest := by
  induction xs with
  | nil => rfl
  | cons a xs ih =>
      rw [List.length_cons, List.cons_append, findallFrom]
      exact ih

/-- The match at the start of a token is the token itself. -/
theorem wordLen_token {t : Token} (h : IsToken t) {rest : List Char} (hs : Separates t rest) :
    wordLen (t ++ rest) = t.length := by
  have hrest : ¬ IsPunct t → ∀ ch ∈ rest.head?, isWordChar ch = false :=
    fun hn => hs.resolve_left hn
  rcases h with ⟨a, w, rfl, ha, hw⟩ | ⟨hne, hd⟩ | ⟨a, rfl, ha⟩
  · have hn : ¬ IsPunct (a :: w) := by
      rintro ⟨ch, he, hp⟩
      rw [(List.cons.inj he).1, not_start_of_not_wordChar (not_wordChar_of_punct hp)] at ha
      exact absurd ha (by decide)
    rw [List.cons_append, wordLen, if_pos ha, takeWhile_append_stop hw (hrest hn),
      List.length_cons, Nat.add_comm]
  · obtain ⟨a, w, rfl⟩ := List.exists_cons_of_ne_nil hne
    have ha := hd a List.mem_cons_self
    have hn : ¬ IsPunct (a :: w) := by
      rintro ⟨ch, he, hp⟩
      rw [(List.cons.inj he).1, not_digit_of_not_wordChar (not_wordChar_of_punct hp)] at ha
      exact absurd ha (by decide)
    have hstart : isWordStart a = false := by
      by_contra hs
      rw [not_digit_of_start (by simpa using hs)] at ha
      exact absurd ha (by decide)
    have htake : (w ++ rest).takeWhile Char.isDigit = w :=
      takeWhile_append_stop (fun c hc => hd c (List.mem_cons_of_mem a hc))
        (fun c hc => not_digit_of_not_wordChar (hrest hn c hc))
    rw [List.cons_append, wordLen, if_neg (by simp [hstart]), if_pos ha, htake,
      List.length_cons, Nat.add_comm]
  · have hw := not_wordChar_of_punct ha
    rw [List.cons_append, wordLen, if_neg (by simp [not_start_of_not_wordChar hw]),
      if_neg (by simp [not_digit_of_not_wordChar hw]), if_pos ha, List.length_singleton]

/-- The scanner reads a token back when what follows cannot extend it. -/
theorem findall_token {t : Token} (h : IsToken t) {rest : List Char} (hs : Separates t rest) :
    findall (t ++ rest) = t :: findall rest := by
  have hlen := wordLen_token h hs
  obtain ⟨a, w, rfl⟩ := List.exists_cons_of_ne_nil h.ne_nil
  rw [List.cons_append, List.length_cons] at hlen
  rw [findall, List.cons_append, findallFrom, hlen]
  simp only [List.take_left', findallFrom_append]
  rfl

theorem findall_skip {ch : Char} (rest : List Char) (h : wordLen (ch :: rest) = 0) :
    findall (ch :: rest) = findall rest := by
  rw [findall, findallFrom, h]
  rfl

theorem take_takeWhile (p : Char → Bool) (xs : List Char) :
    xs.take (xs.takeWhile p).length = xs.takeWhile p :=
  (List.prefix_iff_eq_take.mp (List.takeWhile_prefix p)).symm

/-- What a non-empty match covers is a token. -/
theorem isToken_of_wordLen {ch : Char} {rest : List Char} {n : Nat}
    (h : wordLen (ch :: rest) = n + 1) : IsToken (ch :: rest.take n) := by
  rw [wordLen] at h
  split_ifs at h with hs hd hp
  · have hn : n = (rest.takeWhile isWordChar).length := by omega
    subst hn
    rw [take_takeWhile]
    exact .inl ⟨ch, _, rfl, hs, fun c hc => List.mem_takeWhile_imp hc⟩
  · have hn : n = (rest.takeWhile Char.isDigit).length := by omega
    subst hn
    rw [take_takeWhile]
    refine .inr (.inl ⟨List.cons_ne_nil _ _, ?_⟩)
    intro c hc
    rcases List.mem_cons.mp hc with rfl | hc
    · exact hd
    · exact List.mem_takeWhile_imp hc
  · have hn : n = 0 := by omega
    subst hn
    exact .inr (.inr ⟨ch, rfl, hp⟩)

theorem isToken_of_mem_findallFrom (skip : Nat) (text : List Char) :
    ∀ t ∈ findallFrom skip text, IsToken t := by
  induction text generalizing skip with
  | nil => intro t ht; simp [findallFrom] at ht
  | cons ch rest ih =>
      cases skip with
      | succ skip => exact ih skip
      | zero =>
          rw [findallFrom]
          cases hn : wordLen (ch :: rest) with
          | zero => exact ih 0
          | succ n =>
              intro t ht
              rcases List.mem_cons.mp ht with rfl | ht
              · exact isToken_of_wordLen hn
              · exact ih n t ht

theorem isToken_of_mem_findall {text : List Char} {t : Token} (h : t ∈ findall text) :
    IsToken t :=
  isToken_of_mem_findallFrom 0 text t h

/-! ## The formatter -/

/-- The blank `_format_statement` puts between text ending in `prev` and `token`. -/
def gap (prev : Char) (token : Token) : List Char :=
  if token ≠ rparen ∧ token ≠ comma ∧ token ≠ dot ∧ prev ≠ '(' ∧ prev ≠ '.' then [' '] else []

/-- The rest of a statement, after text ending in `prev`. -/
def formatTail : Char → List Token → List Char
  | _, [] => []
  | prev, t :: ts => gap prev t ++ t ++ formatTail (t.getLastD prev) ts

theorem formatStep_eq {sql : List Char} {prev : Char} (h : sql.getLast? = some prev)
    (token : Token) : formatStep sql token = sql ++ (gap prev token ++ token) := by
  have hne : sql ≠ [] := by
    rintro rfl
    simp at h
  simp only [formatStep, gap, h, ne_eq, hne, not_false_eq_true, true_and, Option.some.injEq]
  split <;> simp

theorem getLast?_append_token (xs : List Char) {t : Token} (h : t ≠ []) (prev : Char) :
    (xs ++ t).getLast? = some (t.getLastD prev) := by
  obtain ⟨ys, a, rfl⟩ := (List.eq_nil_or_concat' t).resolve_left h
  simp

theorem foldl_formatStep {sql : List Char} {prev : Char} (h : sql.getLast? = some prev)
    (tokens : List Token) (hne : ∀ t ∈ tokens, t ≠ []) :
    tokens.foldl formatStep sql = sql ++ formatTail prev tokens := by
  induction tokens generalizing sql prev with
  | nil => simp [formatTail]
  | cons t ts ih =>
      have ht := hne t List.mem_cons_self
      have hlast : (sql ++ (gap prev t ++ t)).getLast? = some (t.getLastD prev) := by
        rw [← List.append_assoc]
        exact getLast?_append_token _ ht prev
      rw [List.foldl_cons, formatStep_eq h, ih hlast fun u hu => hne u (List.mem_cons_of_mem t hu),
        formatTail]
      simp only [List.append_assoc]

theorem formatStatement_cons (t : Token) (ts : List Token) (hne : ∀ u ∈ t :: ts, u ≠ []) :
    formatStatement (t :: ts) = t ++ formatTail (t.getLastD ' ') ts := by
  have ht := hne t List.mem_cons_self
  have hstep : formatStep [] t = t := by simp [formatStep]
  rw [formatStatement, List.foldl_cons, hstep]
  exact foldl_formatStep (getLast?_append_token [] ht ' ') ts
    fun u hu => hne u (List.mem_cons_of_mem t hu)

theorem isWordChar_space : isWordChar ' ' = false := by decide

theorem isPunct_of_noSpaceBefore {t : Token} (h : t = rparen ∨ t = comma ∨ t = dot) :
    IsPunct t := by
  rcases h with rfl | rfl | rfl
  · exact ⟨')', rfl, by decide⟩
  · exact ⟨',', rfl, by decide⟩
  · exact ⟨'.', rfl, by decide⟩

/-- The formatter always separates: a blank, punctuation, or punctuation before. -/
theorem separates_formatTail {t : Token} (ht : IsToken t) (ts : List Token)
    (hts : ∀ u ∈ ts, IsToken u) (prev : Char) :
    Separates t (formatTail (t.getLastD prev) ts) := by
  cases ts with
  | nil => exact .inr (by simp [formatTail])
  | cons u us =>
      rw [formatTail, gap]
      split_ifs with hg
      · refine .inr ?_
        intro ch hch
        rw [← Option.some.inj hch]
        exact isWordChar_space
      · by_cases hu : u = rparen ∨ u = comma ∨ u = dot
        · obtain ⟨ch, rfl, hp⟩ := isPunct_of_noSpaceBefore hu
          refine .inr ?_
          intro c hc
          rw [← Option.some.inj hc]
          exact not_wordChar_of_punct hp
        · -- no blank, so the text before ends in `(` or `.`
          have hlast : t.getLastD prev = '(' ∨ t.getLastD prev = '.' := by
            by_contra hn
            simp only [not_or] at hu hn
            exact hg ⟨hu.1, hu.2.1, hu.2.2, hn.1, hn.2⟩
          have hget : t.getLast? = some (t.getLastD prev) := by
            simpa using getLast?_append_token [] ht.ne_nil prev
          refine .inl (ht.punct_of_getLast hget ?_)
          rcases hlast with h | h <;> rw [h] <;> decide

theorem findall_gap (prev : Char) (t : Token) (rest : List Char) :
    findall (gap prev t ++ rest) = findall rest := by
  rw [gap]
  split_ifs
  · exact findall_skip rest (by simp [wordLen, isWordStart, isPunct])
  · rfl

/-- Rendering and then scanning is the identity on tokens. -/
theorem findall_formatTail (t : Token) (ts : List Token) (h : ∀ u ∈ t :: ts, IsToken u)
    (prev : Char) : findall (t ++ formatTail (t.getLastD prev) ts) = t :: ts := by
  induction ts generalizing t prev with
  | nil =>
      have ht := h t List.mem_cons_self
      rw [findall_token ht (separates_formatTail ht [] (by simp) prev)]
      rfl
  | cons u us ih =>
      have ht := h t List.mem_cons_self
      have hts : ∀ v ∈ u :: us, IsToken v := fun v hv => h v (List.mem_cons_of_mem t hv)
      rw [findall_token ht (separates_formatTail ht _ hts prev), formatTail, List.append_assoc,
        findall_gap, ih u hts]

theorem findall_formatStatement (tokens : List Token) (hne : tokens ≠ [])
    (h : ∀ t ∈ tokens, IsToken t) : findall (formatStatement tokens) = tokens := by
  obtain ⟨t, ts, rfl⟩ := List.exists_cons_of_ne_nil hne
  rw [formatStatement_cons t ts fun u hu => (h u hu).ne_nil]
  exact findall_formatTail t ts h ' '

/-- The characters of a rendered statement are those of its tokens, and blanks. -/
theorem filter_formatTail (p : Char → Bool) (hp : p ' ' = false) (prev : Char)
    (ts : List Token) (h : ∀ t ∈ ts, ∀ c ∈ t, p c = true) :
    (formatTail prev ts).filter p = ts.flatten := by
  induction ts generalizing prev with
  | nil => rfl
  | cons t ts ih =>
      have hgap : (gap prev t).filter p = [] := by
        rw [gap]
        split_ifs <;> simp [hp]
      rw [formatTail, List.filter_append, List.filter_append, hgap,
        List.filter_eq_self.mpr (h t List.mem_cons_self),
        ih _ fun u hu => h u (List.mem_cons_of_mem t hu), List.nil_append, List.flatten_cons]

theorem mem_formatTail {ch prev : Char} {ts : List Token} (h : ch ∈ formatTail prev ts) :
    ch = ' ' ∨ ∃ t ∈ ts, ch ∈ t := by
  induction ts generalizing prev with
  | nil => simp [formatTail] at h
  | cons t ts ih =>
      rw [formatTail, List.mem_append, List.mem_append] at h
      rcases h with (h | h) | h
      · rw [gap] at h
        split_ifs at h
        · exact .inl (List.mem_singleton.mp h)
        · exact absurd h List.not_mem_nil
      · exact .inr ⟨t, List.mem_cons_self, h⟩
      · rcases ih h with h | ⟨u, hu, h⟩
        · exact .inl h
        · exact .inr ⟨u, List.mem_cons_of_mem t hu, h⟩

theorem getLast?_formatTail (t : Token) (ht : t ≠ []) (ts : List Token)
    (hts : ∀ u ∈ ts, u ≠ []) (prev : Char) :
    ∃ u ∈ t :: ts, ∃ ch ∈ u, (t ++ formatTail (t.getLastD prev) ts).getLast? = some ch := by
  induction ts generalizing t prev with
  | nil =>
      obtain ⟨ch, hch⟩ := Option.ne_none_iff_exists'.mp
        (mt List.getLast?_eq_none_iff.mp ht)
      exact ⟨t, List.mem_cons_self, ch, List.mem_of_getLast? hch, by simpa [formatTail] using hch⟩
  | cons u us ih =>
      have hu := hts u List.mem_cons_self
      obtain ⟨v, hv, ch, hch, hlast⟩ :=
        ih u hu (fun w hw => hts w (List.mem_cons_of_mem u hw)) (t.getLastD prev)
      refine ⟨v, List.mem_cons_of_mem t hv, ch, hch, ?_⟩
      rw [formatTail, List.append_assoc, ← List.append_assoc, List.getLast?_append, hlast]
      rfl

/-! ## One statement -/

theorem wordChar_range {ch : Char} (h : isWordChar ch = true) :
    48 ≤ ch.toNat ∧ ch.toNat ≤ 122 := by
  have hv : ch.toNat = ch.val.toNat := rfl
  have h0 : '0'.val.toNat = 48 := rfl
  have h9 : '9'.val.toNat = 57 := rfl
  have hA : 'A'.val.toNat = 65 := rfl
  have hZ : 'Z'.val.toNat = 90 := rfl
  have ha : 'a'.val.toNat = 97 := rfl
  have hz : 'z'.val.toNat = 122 := rfl
  simp only [isWordChar, Char.isAlphanum, Char.isAlpha, Char.isUpper, Char.isLower, Char.isDigit,
    Bool.or_eq_true, Bool.and_eq_true, decide_eq_true_eq, UInt32.le_iff_toNat_le, ge_iff_le,
    beq_iff_eq] at h
  rcases h with ((h | h) | h) | rfl
  · omega
  · omega
  · omega
  · decide

theorem not_space_of_wordChar {ch : Char} (h : isWordChar ch = true) : isSpace ch = false := by
  have hr := wordChar_range h
  simp only [isSpace, Bool.or_eq_false_iff, Bool.and_eq_false_iff, decide_eq_false_iff_not,
    beq_eq_false_iff_ne]
  omega

theorem not_space_of_punct {ch : Char} (h : isPunct ch = true) : isSpace ch = false := by
  rcases isPunct_cases h with rfl | rfl | rfl | rfl <;> decide

theorem IsToken.not_space {t : Token} (h : IsToken t) {ch : Char} (hc : ch ∈ t) :
    isSpace ch = false := by
  rcases h.char hc with hw | hp
  · exact not_space_of_wordChar hw
  · exact not_space_of_punct hp

/-- `_tokenize` reads a rendered statement back as the tokens it was rendered from. -/
theorem tokenize_formatStatement (tokens : List Token) (hne : tokens ≠ [])
    (h : ∀ t ∈ tokens, IsToken t) : tokenize (formatStatement tokens) = .ok tokens := by
  have hf := findall_formatStatement tokens hne h
  have hc : (formatStatement tokens).filter (fun ch => !isSpace ch) = tokens.flatten := by
    obtain ⟨t, ts, rfl⟩ := List.exists_cons_of_ne_nil hne
    have hns : ∀ u ∈ t :: ts, ∀ c ∈ u, (!isSpace c) = true :=
      fun u hu c hc => by rw [(h u hu).not_space hc]; rfl
    rw [formatStatement_cons t ts fun u hu => (h u hu).ne_nil, List.filter_append,
      List.filter_eq_self.mpr (hns t List.mem_cons_self),
      filter_formatTail _ (by decide) _ ts fun u hu => hns u (List.mem_cons_of_mem t hu),
      List.flatten_cons]
  simp only [tokenize, hf, hc, hne, ne_eq, not_true_eq_false, if_false]

/-- What `_tokenize` returns: the scanned tokens, at least one of them. -/
theorem tokenize_eq_ok {statement : List Char} {tokens : List Token}
    (h : tokenize statement = .ok tokens) :
    tokens ≠ [] ∧ ∀ t ∈ tokens, IsToken t := by
  simp only [tokenize, fail] at h
  split_ifs at h with h1 h2
  have he : findall statement = tokens := Except.ok.inj h
  subst he
  exact ⟨h2, fun t ht => isToken_of_mem_findall ht⟩

/-- Characters of a rendered statement. -/
theorem mem_formatStatement {tokens : List Token} (h : ∀ t ∈ tokens, IsToken t) {ch : Char}
    (hc : ch ∈ formatStatement tokens) : ch = ' ' ∨ isWordChar ch = true ∨ isPunct ch = true := by
  cases tokens with
  | nil => simp [formatStatement] at hc
  | cons t ts =>
      rw [formatStatement_cons t ts fun u hu => (h u hu).ne_nil, List.mem_append] at hc
      rcases hc with hc | hc
      · exact .inr ((h t List.mem_cons_self).char hc)
      · rcases mem_formatTail hc with rfl | ⟨u, hu, hc⟩
        · exact .inl rfl
        · exact .inr ((h u (List.mem_cons_of_mem t hu)).char hc)

/-- A rendered statement is a fixed point of `strip`, without a `;`, and not empty. -/
theorem formatStatement_trimmed (tokens : List Token) (hne : tokens ≠ [])
    (h : ∀ t ∈ tokens, IsToken t) :
    strip (formatStatement tokens) = formatStatement tokens ∧
      ';' ∉ formatStatement tokens ∧ formatStatement tokens ≠ [] := by
  obtain ⟨t, ts, rfl⟩ := List.exists_cons_of_ne_nil hne
  have hnn : ∀ u ∈ t :: ts, u ≠ [] := fun u hu => (h u hu).ne_nil
  have ht := h t List.mem_cons_self
  obtain ⟨a, w, rfl⟩ := List.exists_cons_of_ne_nil ht.ne_nil
  have hf := formatStatement_cons (a :: w) ts hnn
  refine ⟨strip_of_ends ?_ ?_, ?_, ?_⟩
  · intro ch hch
    rw [hf] at hch
    rw [← Option.some.inj hch]
    exact ht.not_space List.mem_cons_self
  · intro ch hch
    obtain ⟨u, hu, c, hc, hlast⟩ := getLast?_formatTail (a :: w) ht.ne_nil ts
      (fun u hu => hnn u (List.mem_cons_of_mem _ hu)) ' '
    rw [hf, hlast] at hch
    rw [← Option.some.inj hch]
    exact (h u hu).not_space hc
  · intro hc
    rcases mem_formatStatement h hc with h | h | h <;> exact absurd h (by decide)
  · rw [hf]
    exact List.cons_ne_nil _ _

/-! ## The batch -/

theorem intercalate_head_cons {β : Type*} (sep : List β) (b : β) (l : List β)
    (ls : List (List β)) : sep.intercalate ((b :: l) :: ls) = b :: sep.intercalate (l :: ls) := by
  cases ls <;> simp [List.intercalate]

/-- The text of a batch splits at `;` into the pieces it was joined from. -/
theorem splitStatements_join (pieces : List (List Char)) (hne : pieces ≠ [])
    (hp : ∀ p ∈ pieces, strip p = p ∧ ';' ∉ p ∧ p ≠ []) :
    splitStatements (join ";\n".toList pieces ++ [';']) = pieces := by
  obtain ⟨p, ps, rfl⟩ := List.exists_cons_of_ne_nil hne
  have htext : join ";\n".toList (p :: ps) ++ [';'] =
      [';'].intercalate (p :: (ps.map ('\n' :: ·) ++ [[]])) := by
    clear hp hne
    induction ps generalizing p with
    | nil => simp [join, List.intercalate]
    | cons q qs ih =>
        have hr : [';'].intercalate (p :: ((q :: qs).map ('\n' :: ·) ++ [[]])) =
            p ++ [';'] ++ [';'].intercalate (('\n' :: q) :: (qs.map ('\n' :: ·) ++ [[]])) := by
          simp [List.intercalate]
        rw [join_cons_cons, hr, List.append_assoc, List.append_assoc, ih q, intercalate_head_cons]
        simp
  have hmem : ∀ l ∈ p :: (ps.map ('\n' :: ·) ++ [[]]), ';' ∉ l := by
    intro l hl
    rcases List.mem_cons.mp hl with rfl | hl
    · exact (hp l List.mem_cons_self).2.1
    · rcases List.mem_append.mp hl with hl | hl
      · obtain ⟨q, hq, rfl⟩ := List.mem_map.mp hl
        have := (hp q (List.mem_cons_of_mem p hq)).2.1
        simp [this]
      · rw [List.mem_singleton.mp hl]
        exact List.not_mem_nil
  have hstrip : ∀ qs : List (List Char), (∀ q ∈ qs, strip q = q ∧ ';' ∉ q ∧ q ≠ []) →
      ((qs.map ('\n' :: ·)).map strip).filter (fun s => s ≠ []) = qs := by
    intro qs hqs
    rw [List.map_map]
    have hmap : qs.map (strip ∘ ('\n' :: ·)) = qs.map id := by
      apply List.map_congr_left
      intro q hq
      rw [Function.comp_apply, strip_space_cons q (by decide), (hqs q hq).1, id]
    rw [hmap, List.map_id]
    exact List.filter_eq_self.mpr fun q hq => by simpa using (hqs q hq).2.2
  have hnil : strip ([] : List Char) = [] := rfl
  rw [splitStatements, htext, split, List.splitOn_intercalate ';' hmem (List.cons_ne_nil _ _),
    List.map_cons, List.map_append, List.filter_cons, (hp p List.mem_cons_self).1,
    if_pos (by simpa using (hp p List.mem_cons_self).2.2), List.filter_append,
    hstrip ps fun q hq => hp q (List.mem_cons_of_mem p hq)]
  simp [hnil]

end PgErdCloud.ForwardDdl
