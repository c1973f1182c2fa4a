import Mathlib
import PgErdCloud.ForwardDdl.Roundtrip

/-
  What `validate_forward_ddl` returns, said once (`validateForwardDdl_eq_ok`), and the batch
  text as a faithful rendering of the checked tokens (`batch_is_faithful_rendering`).
-/

namespace PgErdCloud.ForwardDdl

open PgErdCloud.Lib.PyStr PgErdCloud.Lib.Fallible

/-- The batch text rendered from token lists. -/
def renderBatch (statements : List (List Token)) : List Char :=
  join ";\n".toList (statements.map formatStatement) ++ [';']

/-! ## Inversion of the validator -/

theorem validateStatement_eq_ok (statement text : List Char) :
    validateStatement statement = .ok text ↔
      ∃ tokens, tokenize statement = .ok tokens ∧
        (rejectDangerousKeywords tokens = .ok () ∧ validateTokens tokens = .ok ()) ∧
        text = formatStatement tokens := by
  simp only [validateStatement, bind_eq_ok]
  constructor
  · rintro ⟨tokens, ht, _, hd, _, hv, he⟩
    exact ⟨tokens, ht, ⟨hd, hv⟩, (Except.ok.inj he).symm⟩
  · rintro ⟨tokens, ht, ⟨hd, hv⟩, rfl⟩
    exact ⟨tokens, ht, (), hd, (), hv, rfl⟩

/-- `sql` passes `validate_forward_ddl`, with these token lists. -/
structure Accepted (sql : List Char) (statements : List (List Token)) : Prop where
  nonblank : strip sql ≠ []
  size : sql.length ≤ maxSqlLength
  syntaxSafe : rejectUnsafeSyntax sql = .ok ()
  tokenized : (splitStatements sql).mapM tokenize = .ok statements
  nonempty : statements ≠ []
  count : statements.length ≤ maxStatements
  checked : ∀ tokens ∈ statements,
    rejectDangerousKeywords tokens = .ok () ∧ validateTokens tokens = .ok ()

/-- The validator accepts exactly these texts, and returns the rendering of the tokens. -/
theorem validateForwardDdl_eq_ok {sql : List Char} {batch : ForwardDdlBatch} :
    validateForwardDdl sql = .ok batch ↔
      ∃ statements, Accepted sql statements ∧ batch = ⟨renderBatch statements⟩ := by
  have hlen : ∀ {statements}, (splitStatements sql).mapM tokenize = .ok statements →
      (splitStatements sql).length = statements.length :=
    fun h => (mapM_eq_ok.mp h).length_eq
  constructor
  · intro h
    by_cases h1 : strip sql = []
    · simp [validateForwardDdl, h1, fail] at h
    by_cases h2 : maxSqlLength < sql.length
    · simp [validateForwardDdl, h1, h2, fail] at h
    simp only [validateForwardDdl, if_neg h1, if_neg h2] at h
    obtain ⟨_, h3, h⟩ := bind_eq_ok.mp h
    by_cases h4 : splitStatements sql = []
    · simp [h4, fail] at h
    by_cases h5 : maxStatements < (splitStatements sql).length
    · simp [h4, h5, fail] at h
    rw [if_neg h4, if_neg h5] at h
    obtain ⟨texts, h6, h⟩ := bind_eq_ok.mp h
    obtain ⟨statements, h7, h8, rfl⟩ :=
      (mapM_eq_ok_of_stages validateStatement_eq_ok).mp h6
    have hl := hlen h7
    refine ⟨statements, ⟨h1, by omega, h3, h7, ?_, by omega, h8⟩, (Except.ok.inj h).symm⟩
    rintro rfl
    exact h4 (List.eq_nil_of_length_eq_zero hl)
  · rintro ⟨statements, ⟨h1, h2, h3, h7, h4, h5, h8⟩, rfl⟩
    have hl := hlen h7
    have hmap := (mapM_eq_ok_of_stages validateStatement_eq_ok).mpr ⟨statements, h7, h8, rfl⟩
    have hne : splitStatements sql ≠ [] := by
      intro he
      rw [he] at hl
      exact h4 (List.eq_nil_of_length_eq_zero hl.symm)
    simp only [validateForwardDdl, h1, h3, hne, if_false, if_neg (not_lt.mpr h2),
      if_neg (not_lt.mpr (hl.trans_le h5)), hmap]
    rfl

theorem Accepted.token {sql : List Char} {statements : List (List Token)}
    (h : Accepted sql statements) {tokens : List Token} (hm : tokens ∈ statements) :
    tokens ≠ [] ∧ ∀ t ∈ tokens, IsToken t := by
  obtain ⟨statement, _, ht⟩ := exists_input_of_mapM h.tokenized hm
  exact tokenize_eq_ok ht

/-! ## Dangerous keywords -/

theorem rejectDangerousKeywords_eq_ok {tokens : List Token} :
    rejectDangerousKeywords tokens = .ok () ↔
      ∀ t ∈ tokens, isPunctToken t = true ∨ isDigitToken t = true ∨
        upper t ∉ dangerousKeywords := by
  induction tokens with
  | nil => simp [rejectDangerousKeywords]
  | cons t ts ih =>
      rw [rejectDangerousKeywords, List.forall_mem_cons, ← ih]
      by_cases hp : (isPunctToken t || isDigitToken t) = true
      · rw [if_pos hp]
        rw [Bool.or_eq_true] at hp
        exact ⟨fun h => ⟨by tauto, h⟩, fun h => h.2⟩
      · rw [if_neg hp]
        rw [Bool.or_eq_true, not_or] at hp
        by_cases hd : upper t ∈ dangerousKeywords
        · simp [hd, hp.1, hp.2, fail]
        · simp [hd]

/-- Keywords are upper-case words: no other spelling of them is punctuation or a number. -/
theorem dangerousKeywords_upper :
    ∀ kw ∈ dangerousKeywords, upper kw = kw ∧ isPunctToken kw = false ∧
      ∀ ch ∈ kw.head?, ch.isUpper = true := by
  rw [dangerousKeywords, List.forall_mem_map]
  simp [upper, isPunctToken, lparen, rparen, comma, dot]

theorem toUpper_of_digit {ch : Char} (h : ch.isDigit = true) : ch.toUpper.isUpper = false := by
  simp only [Char.isDigit, Bool.and_eq_true, decide_eq_true_eq] at h
  have hlow : ¬ ('a'.val ≤ ch.val ∧ ch.val ≤ 'z'.val) := by
    have := h.2
    simp only [UInt32.le_iff_toNat_le] at this ⊢
    have h9 : '9'.val.toNat = 57 := rfl
    have ha : 'a'.val.toNat = 97 := rfl
    omega
  rw [Char.toUpper, dif_neg hlow]
  simp only [Char.isUpper, decide_eq_false_iff_not, ge_iff_le, UInt32.le_iff_toNat_le] at h ⊢
  have h9 : '9'.val.toNat = 57 := rfl
  have hA : 'A'.val.toNat = 65 := rfl
  have := h.2
  omega

/-- No checked token is a dangerous keyword in any letter case. -/
theorem not_dangerous {tokens : List Token} (h : rejectDangerousKeywords tokens = .ok ())
    {t : Token} (ht : t ∈ tokens) {kw : Token} (hkw : kw ∈ dangerousKeywords) :
    ¬ EqIgnoreCase t kw := by
  intro he
  obtain ⟨hup, hpunct, hhead⟩ := dangerousKeywords_upper kw hkw
  have hupper : upper t = kw := by rw [he.upper_eq, hup]
  rcases rejectDangerousKeywords_eq_ok.mp h t ht with hp | hd | hn
  · -- punctuation has no other letter case
    have hsame : upper t = t := by
      simp only [isPunctToken, Bool.or_eq_true, decide_eq_true_eq] at hp
      rcases hp with ((rfl | rfl) | rfl) | rfl <;> decide
    rw [hsame] at hupper
    rw [hupper, hpunct] at hp
    exact absurd hp (by decide)
  · simp only [isDigitToken, Bool.and_eq_true, decide_eq_true_eq, List.all_eq_true] at hd
    obtain ⟨ch, rest, rfl⟩ := List.exists_cons_of_ne_nil hd.1
    have hu := hhead ch.toUpper (by rw [← hupper]; rfl)
    rw [toUpper_of_digit (hd.2 ch List.mem_cons_self)] at hu
    exact absurd hu (by decide)
  · exact hn (hupper ▸ hkw)

/-! ## The rendered batch -/

theorem beginsWith_of_validateTokens {tokens : List Token} (h : validateTokens tokens = .ok ()) :
    beginsWith tokens "CREATE" "TABLE" ∨ beginsWith tokens "ALTER" "TABLE" ∨
      beginsWith tokens "CREATE" "INDEX" := by
  simp only [validateTokens, fail] at h
  split_ifs at h with h1 h2 h3
  · exact .inl h1
  · exact .inr (.inl h2)
  · exact .inr (.inr h3)

theorem Accepted.splitStatements_renderBatch {sql : List Char} {statements : List (List Token)}
    (h : Accepted sql statements) :
    splitStatements (renderBatch statements) = statements.map formatStatement := by
  refine splitStatements_join _ (by simpa using h.nonempty) ?_
  intro piece hp
  obtain ⟨tokens, ht, rfl⟩ := List.mem_map.mp hp
  exact formatStatement_trimmed tokens (h.token ht).1 (h.token ht).2

/-- Tokenizing the pieces of the rendered batch gives back the checked token lists. -/
theorem Accepted.tokenized_renderBatch {sql : List Char} {statements : List (List Token)}
    (h : Accepted sql statements) :
    (splitStatements (renderBatch statements)).mapM tokenize = .ok statements := by
  rw [h.splitStatements_renderBatch, mapM_eq_ok, List.forall₂_map_left_iff, List.forall₂_same]
  exact fun tokens ht => tokenize_formatStatement tokens (h.token ht).1 (h.token ht).2

/-- Characters a rendered batch is made of. -/
def isBatchChar (ch : Char) : Bool :=
  isWordChar ch || isPunct ch || ch == ' ' || ch == ';' || ch == '\n'

theorem Accepted.isBatchChar {sql : List Char} {statements : List (List Token)}
    (h : Accepted sql statements) : ∀ ch ∈ renderBatch statements, isBatchChar ch = true := by
  have hsep : ∀ ch ∈ ";\n".toList, ForwardDdl.isBatchChar ch = true := by
    simp [ForwardDdl.isBatchChar]
  intro ch hch
  rw [renderBatch, List.mem_append] at hch
  rcases hch with hch | hch
  · rcases mem_join hch with hch | ⟨text, ht, hch⟩
    · exact hsep ch hch
    · obtain ⟨tokens, htok, rfl⟩ := List.mem_map.mp ht
      rcases mem_formatStatement (h.token htok).2 hch with rfl | hw | hp
      · decide
      · simp [ForwardDdl.isBatchChar, hw]
      · simp [ForwardDdl.isBatchChar, hp]
  · rw [List.mem_singleton.mp hch]
    decide

theorem isAscii_batchChar {ch : Char} (h : isBatchChar ch = true) : ch.toNat < 128 := by
  simp only [isBatchChar, Bool.or_eq_true, beq_iff_eq] at h
  rcases h with (((h | h) | rfl) | rfl) | rfl
  · have := wordChar_range h
    omega
  · rcases isPunct_cases h with rfl | rfl | rfl | rfl <;> decide
  all_goals decide

/-- Text made of batch characters has no comment, quote or non-ASCII character. -/
theorem rejectUnsafeSyntax_batchChars {text : List Char}
    (h : ∀ ch ∈ text, isBatchChar ch = true) : rejectUnsafeSyntax text = .ok () := by
  have habsent : ∀ ch, isBatchChar ch = false → ch ∉ text := by
    intro ch hf hm
    rw [h ch hm] at hf
    exact absurd hf (by decide)
  have hascii : isAscii text = true := by
    rw [isAscii, List.all_eq_true]
    exact fun ch hm => decide_eq_true (isAscii_batchChar (h ch hm))
  have hdash : contains "--".toList text = false :=
    contains_eq_false (by decide : '-' ∈ "--".toList) (habsent '-' (by decide))
  have hopen : contains "/*".toList text = false :=
    contains_eq_false (by decide : '*' ∈ "/*".toList) (habsent '*' (by decide))
  have hclose : contains "*/".toList text = false :=
    contains_eq_false (by decide : '*' ∈ "*/".toList) (habsent '*' (by decide))
  have hq : ∀ ch, isBatchChar ch = false → text.contains ch = false := by
    intro ch hf
    simpa using habsent ch hf
  simp only [rejectUnsafeSyntax, hascii, hdash, hopen, hclose, hq '\'' (by decide),
    hq '"' (by decide), hq '$' (by decide)]
  rfl

/-- The rendered batch is accepted again, with the same tokens, when its length allows it. -/
theorem Accepted.renderBatch {sql : List Char} {statements : List (List Token)}
    (h : Accepted sql statements) (hsize : (renderBatch statements).length ≤ maxSqlLength) :
    Accepted (ForwardDdl.renderBatch statements) statements where
  nonblank := by
    have hmem : ';' ∈ ForwardDdl.renderBatch statements := by simp [ForwardDdl.renderBatch]
    exact strip_ne_nil hmem (by decide)
  size := hsize
  syntaxSafe := rejectUnsafeSyntax_batchChars h.isBatchChar
  tokenized := h.tokenized_renderBatch
  nonempty := h.nonempty
  count := h.count
  checked := h.checked

/-- **The batch text is a faithful rendering of what was validated.** Its pieces tokenize to
    the validated token lists, there are 1 to 25 of them, each begins with one of the three
    statement heads, none of their tokens is a dangerous keyword in any letter case, and
    validating the text again returns it unchanged. -/
theorem batch_is_faithful_rendering (sql : List Char) (batch : ForwardDdlBatch)
    (h : validateForwardDdl sql = .ok batch) :
    ∃ statements, (splitStatements sql).mapM tokenize = .ok statements ∧
      (splitStatements batch.sql).mapM tokenize = .ok statements ∧
      1 ≤ statements.length ∧ statements.length ≤ 25 ∧
      (∀ tokens ∈ statements,
        (beginsWith tokens "CREATE" "TABLE" ∨ beginsWith tokens "ALTER" "TABLE" ∨
          beginsWith tokens "CREATE" "INDEX") ∧
        ∀ t ∈ tokens, ∀ kw ∈ dangerousKeywords, ¬ EqIgnoreCase t kw) ∧
      (batch.sql.length ≤ maxSqlLength → validateForwardDdl batch.sql = .ok batch) := by
  obtain ⟨statements, hacc, rfl⟩ := validateForwardDdl_eq_ok.mp h
  refine ⟨statements, hacc.tokenized, hacc.tokenized_renderBatch,
    List.length_pos_iff.mpr hacc.nonempty, hacc.count, ?_, ?_⟩
  · intro tokens ht
    obtain ⟨hd, hv⟩ := hacc.checked tokens ht
    exact ⟨beginsWith_of_validateTokens hv, fun t hm kw hkw => not_dangerous hd hm hkw⟩
  · intro hsize
    exact validateForwardDdl_eq_ok.mpr ⟨statements, hacc.renderBatch hsize, rfl⟩

/-- `batch_is_faithful_rendering` at a two-statement script. -/
theorem batch_is_faithful_rendering_at_script :
    ∃ statements, (splitStatements "create table t (a int) ;alter table t add b text".toList).mapM
        tokenize = .ok statements ∧
      (splitStatements "create table t (a int);\nalter table t add b text;".toList).mapM tokenize =
        .ok statements ∧
      1 ≤ statements.length ∧ statements.length ≤ 25 ∧
      (∀ tokens ∈ statements,
        (beginsWith tokens "CREATE" "TABLE" ∨ beginsWith tokens "ALTER" "TABLE" ∨
          beginsWith tokens "CREATE" "INDEX") ∧
        ∀ t ∈ tokens, ∀ kw ∈ dangerousKeywords, ¬ EqIgnoreCase t kw) ∧
      ("create table t (a int);\nalter table t add b text;".toList.length ≤ maxSqlLength →
        validateForwardDdl "create table t (a int);\nalter table t add b text;".toList =
          .ok ⟨"create table t (a int);\nalter table t add b text;".toList⟩) :=
  batch_is_faithful_rendering _ ⟨_⟩ (by decide)

end PgErdCloud.ForwardDdl
