import Mathlib
import PgErdCloud.Lib.Nesting
import PgErdCloud.ForwardDdl.Batch

/-
  The documented subset of statements, and when an accepted batch lies in it.

  `InSubset` is the grammar the docstring of `validate_forward_ddl` describes. The validator
  checks the balance of everything from the first `(` on and then drops the last token, so a
  `CREATE TABLE` whose first group closes early passes it with anything behind that group
  (`create table t (a) as table secret`); and `_split_top_level_commas` splits at depth zero
  only, so after a stray `)` no comma of an `ALTER TABLE` separates actions any more.

  * `inSubset_iff_conforming`: a validated statement is in the subset exactly when it has
    neither of the two shapes (`Conforming`).
  * `batch_inSubset_iff`: the same for a batch.
-/

namespace PgErdCloud.ForwardDdl

open PgErdCloud.Lib.PyStr PgErdCloud.Lib.Fallible PgErdCloud.Lib.Nesting

/-! ## The documented subset -/

theorem lparen_ne_rparen : lparen ≠ rparen := by decide

/-- `name` or `schema.name`, unquoted snake_case. -/
def IsQualifiedName (name : List Token) : Prop :=
  (∃ a, name = [a] ∧ isSnakeCase a = true) ∨
    ∃ a b, name = [a, dot, b] ∧ isSnakeCase a = true ∧ isSnakeCase b = true

/-- Two words, an optional phrase, and a table name. -/
def IsHead (first second : String) (phrase head : List Token) : Prop :=
  ∃ words opt name, head = words ++ (opt ++ name) ∧
    words.map upper = [first.toList, second.toList] ∧
    (opt = [] ∨ opt.map upper = phrase) ∧ IsQualifiedName name

/-- The tokens begin with `ADD` or `RENAME`. -/
def StartsAction (tokens : List Token) : Prop :=
  ∃ t rest, tokens = t :: rest ∧ (upper t = "ADD".toList ∨ upper t = "RENAME".toList)

/-- Every comma-separated action starts with `ADD` or `RENAME`; a comma separates actions
    when it is not inside an open parenthesis. -/
def EveryAction (tokens : List Token) : Prop :=
  StartsAction tokens ∧
    ∀ pre post, tokens = pre ++ comma :: post → depth lparen rparen pre ≤ 0 → StartsAction post

/-- The statements the forward-apply API is documented to allow. -/
inductive InSubset : List Token → Prop where
  | createTable {head clauses : List Token} (hh : IsHead "CREATE" "TABLE" ifNotExists head)
      (hc : WellNested lparen rparen clauses) :
      InSubset (head ++ lparen :: (clauses ++ [rparen]))
  | alterTable {head actions : List Token} (hh : IsHead "ALTER" "TABLE" ifExists head)
      (ha : EveryAction actions) : InSubset (head ++ actions)
  | createIndex {tokens : List Token} (h : beginsWith tokens "CREATE" "INDEX" = true) :
      InSubset tokens

/-! ## The condition -/

/-- The tokens from the first opening parenthesis on. -/
def fromFirstParen (tokens : List Token) : List Token :=
  tokens.dropWhile fun t => t ≠ lparen

/-- No proper part of the text from the first `(` is balanced by itself. -/
def NoEarlyBalance (tokens : List Token) : Prop :=
  ∀ pre post, fromFirstParen tokens = pre ++ post → pre ≠ [] → post ≠ [] →
    expectBalancedParentheses pre ≠ .ok ()

/-- Behind a stray `)`, every comma is followed by `ADD` or `RENAME`. -/
def NoHiddenAction (tokens : List Token) : Prop :=
  ∀ pre post, tokens = pre ++ comma :: post → depth lparen rparen pre < 0 → StartsAction post

/-- A statement without what the code misses: a list that is balanced before its end, and a part
    behind one parenthesis too many that is no action. -/
def Conforming (tokens : List Token) : Prop :=
  (beginsWith tokens "CREATE" "TABLE" = true → NoEarlyBalance tokens) ∧
    (beginsWith tokens "ALTER" "TABLE" = true → NoHiddenAction tokens)

/-! ## Parentheses -/

theorem balanceFrom_eq_zero_iff (tokens : List Token) (d : Int) (hd : 0 ≤ d) :
    balanceFrom d tokens = 0 ↔
      d + depth lparen rparen tokens = 0 ∧ ∀ p, p <+: tokens → 0 ≤ d + depth lparen rparen p := by
  induction tokens generalizing d with
  | nil =>
      simp only [balanceFrom, depth_nil, List.prefix_nil, forall_eq]
      omega
  | cons t ts ih =>
      have hpre : (∀ p, p <+: t :: ts → 0 ≤ d + depth lparen rparen p) ↔
          ∀ p, p <+: ts → 0 ≤ d + weight lparen rparen t + depth lparen rparen p := by
        constructor
        · intro h p hp
          have := h (t :: p) (by simpa using hp)
          rw [depth_cons] at this
          omega
        · intro h p hp
          rcases List.prefix_cons_iff.mp hp with rfl | ⟨q, rfl, hq⟩
          · simpa using hd
          · have := h q hq
            rw [depth_cons]
            omega
      rw [hpre, depth_cons, balanceFrom]
      by_cases hl : t = lparen
      · subst hl
        rw [if_pos rfl, ih (d + 1) (by omega), weight_open, ← add_assoc]
      · rw [if_neg hl]
        by_cases hr : t = rparen
        · subst hr
          rw [if_pos rfl, weight_close lparen_ne_rparen]
          split_ifs with hneg
          · constructor
            · intro h
              omega
            · rintro ⟨_, h⟩
              have := h [] List.nil_prefix
              simp only [depth_nil] at this
              omega
          · rw [ih (d - 1) (by omega), ← add_assoc]
            rfl
        · rw [if_neg hr, weight_atom hl hr, ih d hd]
          simp

/-- `_expect_balanced_parentheses` passes exactly the nested token lists. -/
theorem expectBalancedParentheses_eq_ok {tokens : List Token} :
    expectBalancedParentheses tokens = .ok () ↔ WellNested lparen rparen tokens := by
  have h := balanceFrom_eq_zero_iff tokens 0 le_rfl
  simp only [zero_add] at h
  rw [wellNested_iff lparen_ne_rparen, NonNeg, ← h, expectBalancedParentheses, fail]
  split_ifs with hz <;> simp_all

theorem noEarlyBalance_iff {tokens : List Token} {rest : List Token}
    (hbody : fromFirstParen tokens = lparen :: rest)
    (hn : WellNested lparen rparen (lparen :: rest)) :
    NoEarlyBalance tokens ↔ ∃ clauses, rest = clauses ++ [rparen] ∧
      WellNested lparen rparen clauses := by
  rw [group_closes_last_iff lparen_ne_rparen rest hn, NoEarlyBalance, hbody]
  have hpre : ∀ pre post, lparen :: rest = pre ++ post →
      (expectBalancedParentheses pre ≠ .ok () ↔ depth lparen rparen pre ≠ 0) := by
    intro pre post he
    have hnn : NonNeg lparen rparen pre :=
      (hn.nonNeg lparen_ne_rparen).of_isPrefix ⟨post, he.symm⟩
    rw [ne_eq, expectBalancedParentheses_eq_ok, wellNested_iff lparen_ne_rparen]
    exact not_congr ⟨fun h => h.1, fun h => ⟨h, hnn⟩⟩
  exact ⟨fun h pre post he h1 h2 => (hpre pre post he).mp (h pre post he h1 h2),
    fun h pre post he h1 h2 => (hpre pre post he).mpr (h pre post he h1 h2)⟩

/-! ## Heads hold no punctuation but dots -/

/-- Neither a parenthesis nor a comma. -/
def IsPlain (t : Token) : Prop :=
  t ≠ lparen ∧ t ≠ rparen ∧ t ≠ comma

theorem isPlain_of_upper {t w : Token} (h : upper t = w)
    (hw : w ≠ lparen ∧ w ≠ rparen ∧ w ≠ comma) : IsPlain t := by
  refine ⟨?_, ?_, ?_⟩ <;> rintro rfl
  · exact hw.1 (h.symm.trans (by decide))
  · exact hw.2.1 (h.symm.trans (by decide))
  · exact hw.2.2 (h.symm.trans (by decide))

theorem isPlain_of_snakeCase {t : Token} (h : isSnakeCase t = true) : IsPlain t := by
  refine ⟨?_, ?_, ?_⟩ <;> rintro rfl <;> exact absurd h (by decide)

theorem isPlain_of_map_upper {ts ws : List Token} (h : ts.map upper = ws)
    (hw : ∀ w ∈ ws, w ≠ lparen ∧ w ≠ rparen ∧ w ≠ comma) : ∀ t ∈ ts, IsPlain t :=
  fun _ ht => isPlain_of_upper rfl (hw _ (h ▸ List.mem_map_of_mem ht))

theorem IsQualifiedName.isPlain {name : List Token} (h : IsQualifiedName name) :
    ∀ t ∈ name, IsPlain t := by
  rcases h with ⟨a, rfl, ha⟩ | ⟨a, b, rfl, ha, hb⟩
  · simpa using isPlain_of_snakeCase ha
  · have hdot : IsPlain dot := by
      refine ⟨?_, ?_, ?_⟩ <;> decide
    simpa using ⟨isPlain_of_snakeCase ha, hdot, isPlain_of_snakeCase hb⟩

theorem depth_plain {ts : List Token} (h : ∀ t ∈ ts, IsPlain t) : depth lparen rparen ts = 0 := by
  induction ts with
  | nil => rfl
  | cons t ts ih =>
      have ht := h t List.mem_cons_self
      rw [depth_cons, weight_atom ht.1 ht.2.1, zero_add]
      exact ih fun u hu => h u (List.mem_cons_of_mem t hu)

theorem fromFirstParen_append {head rest : List Token} (h : ∀ t ∈ head, IsPlain t) :
    fromFirstParen (head ++ lparen :: rest) = lparen :: rest := by
  rw [fromFirstParen, List.dropWhile_append_of_pos fun _ ht => by simpa using (h _ ht).1]
  simp

/-- A comma behind a plain head is a comma of what follows the head. -/
theorem comma_behind_head {head rest pre post : List Token} (h : ∀ t ∈ head, IsPlain t)
    (he : head ++ rest = pre ++ comma :: post) :
    ∃ mid, pre = head ++ mid ∧ rest = mid ++ comma :: post := by
  rcases List.append_eq_append_iff.mp he with ⟨mid, rfl, hr⟩ | ⟨mid, rfl, hr⟩
  · exact ⟨mid, rfl, hr⟩
  · cases mid with
    | nil => exact ⟨[], by simp, by simpa using hr.symm⟩
    | cons a mid =>
        rw [List.cons_append, List.cons.injEq] at hr
        obtain ⟨rfl, _⟩ := hr
        exact absurd rfl (h comma (by simp)).2.2

theorem IsHead.isPlain {first second : String} {phrase head : List Token}
    (h : IsHead first second phrase head)
    (hw : ∀ w ∈ first.toList :: second.toList :: phrase, w ≠ lparen ∧ w ≠ rparen ∧ w ≠ comma) :
    ∀ t ∈ head, IsPlain t := by
  obtain ⟨words, opt, name, rfl, hwords, hopt, hname⟩ := h
  intro t ht
  rcases List.mem_append.mp ht with ht | ht
  · refine isPlain_of_map_upper hwords (fun w hm => hw w ?_) t ht
    simp only [List.mem_cons, List.not_mem_nil, or_false] at hm
    rcases hm with rfl | rfl <;> simp
  · rcases List.mem_append.mp ht with ht | ht
    · rcases hopt with rfl | hopt
      · exact absurd ht List.not_mem_nil
      · exact isPlain_of_map_upper hopt (fun w hm => hw w (by simp [hm])) t ht
    · exact hname.isPlain t ht

theorem beginsWith_of_words {words rest : List Token} {first second : String}
    (h : words.map upper = [first.toList, second.toList]) :
    beginsWith (words ++ rest) first second = true := by
  obtain ⟨a, ws, rfl, ha, hws⟩ := List.map_eq_cons_iff.mp h
  obtain ⟨b, vs, rfl, hb, hvs⟩ := List.map_eq_cons_iff.mp hws
  rw [List.map_eq_nil_iff] at hvs
  subst hvs
  simp [beginsWith, ha, hb]

theorem IsHead.beginsWith {first second : String} {phrase head rest : List Token}
    (h : IsHead first second phrase head) :
    ForwardDdl.beginsWith (head ++ rest) first second = true := by
  obtain ⟨words, opt, name, rfl, hwords, _, _⟩ := h
  rw [List.append_assoc]
  exact beginsWith_of_words hwords

theorem beginsWith_unique {tokens : List Token} {a b c d : String}
    (h : beginsWith tokens a b = true) (h' : beginsWith tokens c d = true) :
    a.toList = c.toList ∧ b.toList = d.toList := by
  simp only [beginsWith, Bool.and_eq_true, decide_eq_true_eq] at h h'
  exact ⟨Option.some.inj (h.1.symm.trans h'.1), Option.some.inj (h.2.symm.trans h'.2)⟩

/-! ## The subset satisfies the condition -/

theorem createTable_plain : ∀ w ∈ "CREATE".toList :: "TABLE".toList :: ifNotExists,
    w ≠ lparen ∧ w ≠ rparen ∧ w ≠ comma := by
  simp [ifNotExists, lparen, rparen, comma]

theorem alterTable_plain : ∀ w ∈ "ALTER".toList :: "TABLE".toList :: ifExists,
    w ≠ lparen ∧ w ≠ rparen ∧ w ≠ comma := by
  simp [ifExists, lparen, rparen, comma]

theorem conforming_of_inSubset {tokens : List Token} (h : InSubset tokens) :
    Conforming tokens := by
  cases h with
  | @createTable head clauses hh hc =>
      refine ⟨fun _ => ?_, fun hb => ?_⟩
      · have hbody : fromFirstParen (head ++ lparen :: (clauses ++ [rparen])) =
            lparen :: (clauses ++ [rparen]) :=
          fromFirstParen_append (hh.isPlain createTable_plain)
        have hn : WellNested lparen rparen (lparen :: (clauses ++ [rparen])) := .group hc .nil
        exact (noEarlyBalance_iff hbody hn).mpr ⟨clauses, rfl, hc⟩
      · exact absurd (beginsWith_unique hh.beginsWith hb).1 (by decide)
  | @alterTable head actions hh ha =>
      refine ⟨fun hb => absurd (beginsWith_unique hh.beginsWith hb).1 (by decide), fun _ => ?_⟩
      intro pre post he hd
      have hplain := hh.isPlain alterTable_plain
      obtain ⟨mid, rfl, hr⟩ := comma_behind_head hplain he
      rw [depth_append, depth_plain hplain, zero_add] at hd
      exact ha.2 mid post hr hd.le
  | createIndex hi =>
      exact ⟨fun hb => absurd (beginsWith_unique hi hb).2 (by decide),
        fun hb => absurd (beginsWith_unique hi hb).1 (by decide)⟩

/-! ## What the validator has established -/

theorem parseIdentifier_eq_ok {tokens : List Token} {index j : Nat} {kind : String} :
    parseIdentifier tokens index kind = .ok j ↔
      ∃ t, tokens[index]? = some t ∧ isSnakeCase t = true ∧ j = index + 1 := by
  rw [parseIdentifier]
  cases tokens[index]? with
  | none => simp [fail]
  | some t =>
      by_cases ht : isSnakeCase t = true
      · simp only [ht, if_true, Except.ok.injEq]
        constructor
        · intro h
          exact ⟨t, rfl, ht, h.symm⟩
        · rintro ⟨_, _, _, h⟩
          exact h.symm
      · simp [ht, fail]

theorem drop_of_getElem? {tokens : List Token} {i : Nat} {t : Token} (h : tokens[i]? = some t) :
    tokens.drop i = t :: tokens.drop (i + 1) := by
  obtain ⟨hi, rfl⟩ := List.getElem?_eq_some_iff.mp h
  exact List.drop_eq_getElem_cons hi

theorem parseQualifiedName_spec {tokens : List Token} {index j : Nat} {kind : String}
    (h : parseQualifiedName tokens index kind = .ok j) :
    ∃ name, IsQualifiedName name ∧ tokens.drop index = name ++ tokens.drop j := by
  obtain ⟨i, hi, h⟩ := bind_eq_ok.mp h
  obtain ⟨a, ha, hsa, rfl⟩ := parseIdentifier_eq_ok.mp hi
  split_ifs at h with hdot
  · obtain ⟨b, hb, hsb, rfl⟩ := parseIdentifier_eq_ok.mp h
    refine ⟨[a, dot, b], .inr ⟨a, b, rfl, hsa, hsb⟩, ?_⟩
    rw [drop_of_getElem? ha, drop_of_getElem? hdot, drop_of_getElem? hb]
    rfl
  · obtain rfl := Except.ok.inj h
    exact ⟨[a], .inl ⟨a, rfl, hsa⟩, drop_of_getElem? ha⟩

/-- The part of a statement before the position its first name is read at. -/
theorem opening_spec {tokens : List Token} {first second : String} {phrase : List Token}
    (hb : beginsWith tokens first second = true) {start : Nat}
    (hs : start = if matchesAt tokens 2 phrase then 2 + phrase.length else 2) :
    ∃ words opt, words.map upper = [first.toList, second.toList] ∧
      (opt = [] ∨ opt.map upper = phrase) ∧ tokens = words ++ (opt ++ tokens.drop start) := by
  simp only [beginsWith, Bool.and_eq_true, decide_eq_true_eq, Option.map_eq_some_iff] at hb
  obtain ⟨⟨a, ha, hua⟩, b, hb, hub⟩ := hb
  have htokens : tokens = [a, b] ++ tokens.drop 2 := by
    have h0 : tokens.drop 0 = a :: tokens.drop 1 := drop_of_getElem? ha
    rw [drop_of_getElem? hb] at h0
    exact h0
  have hwords : [a, b].map upper = [first.toList, second.toList] := by
    simp only [List.map_cons, List.map_nil, hua, hub]
  split_ifs at hs with hm
  · subst hs
    rw [matchesAt] at hm
    split_ifs at hm with hlen
    refine ⟨[a, b], (tokens.drop 2).take phrase.length, hwords, .inr (by simpa using hm), ?_⟩
    rw [← List.drop_drop, List.take_append_drop]
    exact htokens
  · subst hs
    exact ⟨[a, b], [], hwords, .inl rfl, htokens⟩

/-- The part of a statement before the position its name was parsed to. -/
theorem head_spec {tokens : List Token} {first second : String} {phrase : List Token}
    (hb : beginsWith tokens first second = true) {start j : Nat} {kind : String}
    (hs : start = if matchesAt tokens 2 phrase then 2 + phrase.length else 2)
    (hp : parseQualifiedName tokens start kind = .ok j) :
    ∃ head, IsHead first second phrase head ∧ tokens = head ++ tokens.drop j := by
  obtain ⟨name, hname, hdrop⟩ := parseQualifiedName_spec hp
  obtain ⟨words, opt, hwords, hopt, htokens⟩ := opening_spec hb hs
  refine ⟨words ++ (opt ++ name), ⟨words, opt, name, rfl, hwords, hopt, hname⟩, ?_⟩
  rw [List.append_assoc, List.append_assoc, ← hdrop]
  exact htokens

theorem validateCreateTable_spec {tokens : List Token}
    (hb : beginsWith tokens "CREATE" "TABLE" = true) (h : validateCreateTable tokens = .ok ()) :
    ∃ head rest, IsHead "CREATE" "TABLE" ifNotExists head ∧ tokens = head ++ lparen :: rest ∧
      WellNested lparen rparen (lparen :: rest) := by
  obtain ⟨index, hp, h⟩ := bind_eq_ok.mp h
  obtain ⟨head, hh, htokens⟩ := head_spec hb rfl hp
  split_ifs at h with hparen
  · simp [fail] at h
  · obtain ⟨_, hbal, _⟩ := bind_eq_ok.mp h
    rw [ne_eq, not_not] at hparen
    rw [drop_of_getElem? hparen] at htokens hbal
    exact ⟨head, _, hh, htokens, expectBalancedParentheses_eq_ok.mp hbal⟩

/-- Every chunk boundary of the splitter is the start of a chunk: the beginning of the text,
    and what follows a comma at depth zero. The induction carries the running depth. -/
theorem splitCommasFrom_chunks (rest : List Token) (chunks : List (List Token))
    (current : List Token) (d : Int) :
    (∀ c ∈ chunks, c ∈ splitCommasFrom chunks current d rest) ∧
    (∃ c ∈ splitCommasFrom chunks current d rest, c <+: current ++ rest) ∧
    ∀ pre post, rest = pre ++ comma :: post → d + depth lparen rparen pre = 0 →
      ∃ c ∈ splitCommasFrom chunks current d rest, c <+: post := by
  induction rest generalizing chunks current d with
  | nil =>
      exact ⟨fun c hc => List.mem_append_left _ hc,
        ⟨current, List.mem_append_right _ List.mem_cons_self, by simp⟩, by simp⟩
  | cons t ts ih =>
      have hd : (if t = lparen then d + 1 else if t = rparen then d - 1 else d) =
          d + weight lparen rparen t := by
        rw [weight]
        split_ifs <;> omega
      simp only [splitCommasFrom, hd]
      split_ifs with hc
      · obtain ⟨rfl, hz⟩ := hc
        obtain ⟨hold, hfirst, hlater⟩ :=
          ih (chunks ++ [current]) [] (d + weight lparen rparen comma)
        refine ⟨fun c hm => hold c (List.mem_append_left _ hm),
          ⟨current, hold current (by simp), List.prefix_append _ _⟩, ?_⟩
        intro pre post he hdep
        cases pre with
        | nil =>
            obtain ⟨_, rfl⟩ := List.cons.inj he
            simpa using hfirst
        | cons a pre =>
            obtain ⟨rfl, rfl⟩ := List.cons.inj he
            exact hlater pre post rfl (by rw [depth_cons] at hdep; omega)
      · obtain ⟨hold, ⟨c, hm, hpre⟩, hlater⟩ :=
          ih chunks (current ++ [t]) (d + weight lparen rparen t)
        refine ⟨hold, ⟨c, hm, by simpa using hpre⟩, ?_⟩
        intro pre post he hdep
        cases pre with
        | nil =>
            obtain ⟨rfl, rfl⟩ := List.cons.inj he
            refine absurd ⟨rfl, ?_⟩ hc
            have hw : weight lparen rparen comma = 0 := weight_atom (by decide) (by decide)
            rw [hw]
            simpa using hdep
        | cons a pre =>
            obtain ⟨rfl, rfl⟩ := List.cons.inj he
            exact hlater pre post rfl (by rw [depth_cons] at hdep; omega)

theorem startsAction_of_validate {tokens : List Token}
    (h : validateAlterTableAction tokens = .ok ()) : StartsAction tokens := by
  cases tokens with
  | nil => simp [validateAlterTableAction, fail] at h
  | cons t rest =>
      refine ⟨t, rest, rfl, ?_⟩
      by_contra hn
      rw [not_or] at hn
      have hr : ∀ p : Prop, ¬ (upper t = "RENAME".toList ∧ p) := fun _ hp => hn.2 hp.1
      simp only [validateAlterTableAction, if_neg hn.1, if_neg (hr _)] at h
      exact absurd h (by simp [fail])

theorem StartsAction.of_isPrefix {chunk tokens : List Token} (h : StartsAction chunk)
    (hp : chunk <+: tokens) : StartsAction tokens := by
  obtain ⟨t, rest, rfl, ht⟩ := h
  obtain ⟨tail, rfl⟩ := hp
  exact ⟨t, rest ++ tail, rfl, ht⟩

theorem validateAlterTable_spec {tokens : List Token}
    (hb : beginsWith tokens "ALTER" "TABLE" = true) (h : validateAlterTable tokens = .ok ()) :
    ∃ head actions, IsHead "ALTER" "TABLE" ifExists head ∧ tokens = head ++ actions ∧
      StartsAction actions ∧ ∀ pre post, actions = pre ++ comma :: post →
        depth lparen rparen pre = 0 → StartsAction post := by
  obtain ⟨index, hp, h⟩ := bind_eq_ok.mp h
  obtain ⟨head, hh, htokens⟩ := head_spec hb rfl hp
  split_ifs at h with hlen
  · simp [fail] at h
  · obtain ⟨_, _, hact⟩ := bind_eq_ok.mp h
    have hall := forM_eq_ok.mp hact
    obtain ⟨_, ⟨c, hm, hpre⟩, hlater⟩ := splitCommasFrom_chunks (tokens.drop index) [] [] 0
    refine ⟨head, tokens.drop index, hh, htokens,
      (startsAction_of_validate (hall c hm)).of_isPrefix hpre, ?_⟩
    intro pre post he hd
    obtain ⟨c, hm, hpre⟩ := hlater pre post he (by rw [hd]; rfl)
    exact (startsAction_of_validate (hall c hm)).of_isPrefix hpre

/-! ## The exact condition -/

theorem inSubset_of_conforming {tokens : List Token} (hv : validateTokens tokens = .ok ())
    (h : Conforming tokens) : InSubset tokens := by
  rw [validateTokens] at hv
  split_ifs at hv with hct hat hci
  · obtain ⟨head, rest, hh, rfl, hn⟩ := validateCreateTable_spec hct hv
    have hbody : fromFirstParen (head ++ lparen :: rest) = lparen :: rest :=
      fromFirstParen_append (hh.isPlain createTable_plain)
    obtain ⟨clauses, rfl, hc⟩ := (noEarlyBalance_iff hbody hn).mp (h.1 hct)
    exact .createTable hh hc
  · obtain ⟨head, actions, hh, rfl, hs, hzero⟩ := validateAlterTable_spec hat hv
    have hplain := hh.isPlain alterTable_plain
    refine .alterTable hh ⟨hs, ?_⟩
    intro pre post he hd
    rcases hd.lt_or_eq with hlt | heq
    · refine h.2 hat (head ++ pre) post (by rw [he, List.append_assoc]) ?_
      rwa [depth_append, depth_plain hplain, zero_add]
    · exact hzero pre post he heq
  · exact .createIndex hci
  · simp [fail] at hv

/-- A validated statement is in the subset exactly when it is conforming. -/
theorem inSubset_iff_conforming {tokens : List Token} (hv : validateTokens tokens = .ok ()) :
    InSubset tokens ↔ Conforming tokens :=
  ⟨conforming_of_inSubset, inSubset_of_conforming hv⟩

/-- Every statement of the text is in the documented subset. -/
def StatementsInSubset (sql : List Char) : Prop :=
  ∀ statement ∈ splitStatements sql, ∃ tokens, tokenize statement = .ok tokens ∧ InSubset tokens

/-- **When the returned batch lies in the documented subset.** For every accepted text: exactly
    when none of its `CREATE TABLE` statements is balanced before its end and none of its
    `ALTER TABLE` statements has another action behind a stray `)`. -/
theorem batch_inSubset_iff (sql : List Char) (batch : ForwardDdlBatch)
    (h : validateForwardDdl sql = .ok batch) :
    StatementsInSubset batch.sql ↔
      ∀ statement ∈ splitStatements sql, ∀ tokens, tokenize statement = .ok tokens →
        Conforming tokens := by
  obtain ⟨statements, hacc, rfl⟩ := validateForwardDdl_eq_ok.mp h
  have hiff : ∀ tokens ∈ statements, InSubset tokens ↔ Conforming tokens :=
    fun tokens ht => inSubset_iff_conforming (hacc.checked tokens ht).2
  constructor
  · intro hsub statement hs tokens htok
    obtain ⟨ts, hts, he⟩ := exists_output_of_mapM hacc.tokenized hs
    rw [htok, Except.ok.injEq] at he
    subst he
    obtain ⟨piece, hp, hpe⟩ := exists_input_of_mapM hacc.tokenized_renderBatch hts
    obtain ⟨ts', hts', hin⟩ := hsub piece hp
    rw [hpe, Except.ok.injEq] at hts'
    subst hts'
    exact (hiff tokens hts).mp hin
  · intro hconf piece hp
    obtain ⟨tokens, ht, hpe⟩ := exists_output_of_mapM hacc.tokenized_renderBatch hp
    obtain ⟨statement, hs, he⟩ := exists_input_of_mapM hacc.tokenized ht
    exact ⟨tokens, hpe, (hiff tokens ht).mpr (hconf statement hs tokens he)⟩

/-- `batch_inSubset_iff` at a plain `create table`. -/
theorem batch_inSubset_iff_at_create :
    StatementsInSubset "create table t (a int);".toList ↔
      ∀ statement ∈ splitStatements "create table t (a int)".toList, ∀ tokens,
        tokenize statement = .ok tokens → Conforming tokens :=
  batch_inSubset_iff _ ⟨_⟩ (by decide)

/-- `create table t (a) as table secret` is accepted, and is not in the subset. -/
theorem not_every_batch_inSubset :
    ¬ ∀ (sql : List Char) (batch : ForwardDdlBatch), validateForwardDdl sql = .ok batch →
      StatementsInSubset batch.sql := by
  intro h
  have hacc : validateForwardDdl "create table t (a) as table secret".toList =
      .ok ⟨"create table t (a) as table secret;".toList⟩ := by decide
  obtain ⟨tokens, htok, hin⟩ := h _ _ hacc "create table t (a) as table secret".toList (by decide)
  have htokens : tokenize "create table t (a) as table secret".toList =
      .ok (["create", "table", "t", "(", "a", ")", "as", "table", "secret"].map String.toList) := by
    decide
  rw [htokens, Except.ok.injEq] at htok
  subst htok
  have hearly := (conforming_of_inSubset hin).1 (by decide)
  exact hearly (["(", "a", ")"].map String.toList) (["as", "table", "secret"].map String.toList)
    (by decide) (by decide) (by decide) (by decide)

end PgErdCloud.ForwardDdl
