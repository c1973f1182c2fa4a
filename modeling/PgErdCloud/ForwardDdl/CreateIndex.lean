import Mathlib
import PgErdCloud.ForwardDdl.Subset

/-
  `CREATE INDEX` is accepted exactly in the documented form.

  The validator advances an index over the head, counts the parentheses of the rest, filters
  the words and splits the rest without its last token at commas. `IsCreateIndex` is the form
  as a grammar. A word that looks like a keyword can be a name; behind `CREATE INDEX` and
  behind the table's name the next token decides, so the form is read in one way only. The
  columns hold no parenthesis, so the balance forces the last token to be the closing one.

  * `validateCreateIndex_iff`: a statement that begins with `CREATE INDEX` passes exactly when
    it has the form.
-/

namespace PgErdCloud.ForwardDdl

open PgErdCloud.Lib.PyStr PgErdCloud.Lib.Fallible PgErdCloud.Lib.Nesting

/-! ## The form -/

/-- `id {, id}` -/
inductive IsColumnList : List Token → Prop where
  | one {a : Token} (h : isSnakeCase a = true) : IsColumnList [a]
  | more {a : Token} {rest : List Token} (h : isSnakeCase a = true) (hr : IsColumnList rest) :
      IsColumnList (a :: comma :: rest)

/-- `[USING btree|hash]` -/
def IsMethod (tokens : List Token) : Prop :=
  tokens = [] ∨ ∃ u m, tokens = [u, m] ∧ upper u = "USING".toList ∧
    (upper m = "BTREE".toList ∨ upper m = "HASH".toList)

/-- `CREATE INDEX [IF NOT EXISTS] id ON id [. id] [USING btree|hash] ( id {, id} )`, with the
    keywords in any letter case. -/
def IsCreateIndex (tokens : List Token) : Prop :=
  ∃ words opt name on table method columns,
    tokens = words ++ (opt ++ name :: on :: (table ++ (method ++
      lparen :: (columns ++ [rparen])))) ∧
    words.map upper = ["CREATE".toList, "INDEX".toList] ∧
    (opt = [] ∨ opt.map upper = ifNotExists) ∧ isSnakeCase name = true ∧
    upper on = "ON".toList ∧ IsQualifiedName table ∧ IsMethod method ∧ IsColumnList columns

theorem IsColumnList.snake_or_comma {columns : List Token} (h : IsColumnList columns) :
    ∀ t ∈ columns, isSnakeCase t = true ∨ t = comma := by
  induction h with
  | one ha => simp [ha]
  | more ha _ ih =>
      intro t ht
      rcases List.mem_cons.mp ht with rfl | ht
      · exact .inl ha
      · rcases List.mem_cons.mp ht with rfl | ht
        · exact .inr rfl
        · exact ih t ht

theorem IsColumnList.wellNested {columns : List Token} (h : IsColumnList columns) :
    WellNested lparen rparen columns := by
  induction h with
  | one ha => exact .atom (isPlain_of_snakeCase ha).1 (isPlain_of_snakeCase ha).2.1 .nil
  | more ha _ ih =>
      exact .atom (isPlain_of_snakeCase ha).1 (isPlain_of_snakeCase ha).2.1
        (.atom (by decide) (by decide) ih)

/-! ## Columns -/

theorem validateIndexColumn_eq_ok {column : List Token} :
    validateIndexColumn column = .ok () ↔ ∃ a, column = [a] ∧ isSnakeCase a = true := by
  rw [validateIndexColumn]
  split_ifs with hlen
  · refine iff_of_false (by simp [fail]) ?_
    rintro ⟨a, rfl, -⟩
    exact hlen rfl
  · obtain ⟨a, rfl⟩ := List.length_eq_one_iff.mp (not_not.mp hlen)
    constructor
    · intro h
      obtain ⟨j, hj, -⟩ := bind_eq_ok.mp h
      obtain ⟨t, ht, hs, -⟩ := parseIdentifier_eq_ok.mp hj
      obtain rfl := Option.some.inj ht
      exact ⟨a, rfl, hs⟩
    · rintro ⟨b, hb, hs⟩
      obtain rfl := List.singleton_inj.mp hb
      exact bind_eq_ok.mpr ⟨1, parseIdentifier_eq_ok.mpr ⟨a, rfl, hs, rfl⟩, rfl⟩

/-- The chunks that are finished stay in front. -/
theorem splitCommasFrom_append (rest : List Token) (chunks : List (List Token))
    (current : List Token) (d : Int) :
    splitCommasFrom chunks current d rest = chunks ++ splitCommasFrom [] current d rest := by
  induction rest generalizing chunks current d with
  | nil => simp [splitCommasFrom]
  | cons t ts ih =>
      simp only [splitCommasFrom]
      generalize (if t = lparen then d + 1 else if t = rparen then d - 1 else d) = d'
      split_ifs with hc
      · rw [ih (chunks ++ [current]), ih ([] ++ [current]), List.nil_append, List.append_assoc]
      · rw [ih chunks]

theorem splitCommasFrom_comma (current rest : List Token) :
    splitCommasFrom [] current 0 (comma :: rest) = current :: splitTopLevelCommas rest := by
  rw [splitCommasFrom, splitCommasFrom_append]
  simp [comma, lparen, rparen, splitTopLevelCommas]

theorem splitCommasFrom_other {t : Token} (ht : t ≠ comma) (current rest : List Token) (d : Int) :
    ∃ d', splitCommasFrom [] current d (t :: rest) =
      splitCommasFrom [] (current ++ [t]) d' rest := by
  rw [splitCommasFrom, if_neg fun h => ht h.1]
  exact ⟨_, rfl⟩

theorem splitCommasFrom_plain {t : Token} (ht : IsPlain t) (current rest : List Token) (d : Int) :
    splitCommasFrom [] current d (t :: rest) = splitCommasFrom [] (current ++ [t]) d rest := by
  rw [splitCommasFrom]
  simp [ht.1, ht.2.1, ht.2.2]

/-- The chunk that is being read is the beginning of a chunk. -/
theorem exists_chunk (rest : List Token) (current : List Token) (d : Int) :
    ∃ c ∈ splitCommasFrom [] current d rest, current <+: c := by
  induction rest generalizing current d with
  | nil => exact ⟨current, by simp [splitCommasFrom], List.prefix_refl current⟩
  | cons t ts ih =>
      simp only [splitCommasFrom]
      generalize (if t = lparen then d + 1 else if t = rparen then d - 1 else d) = d'
      split_ifs with hc
      · rw [splitCommasFrom_append]
        exact ⟨current, by simp, List.prefix_refl current⟩
      · obtain ⟨c, hm, hp⟩ := ih (current ++ [t]) d'
        exact ⟨c, hm, (List.prefix_append _ _).trans hp⟩

/-- Where all chunks are single names, so is what the current chunk begins with. -/
theorem eq_singleton_of_chunks {current rest : List Token} {t : Token} {d : Int}
    (h : ∀ c ∈ splitCommasFrom [] (t :: current) d rest, validateIndexColumn c = .ok ()) :
    current = [] ∧ isSnakeCase t = true := by
  obtain ⟨c, hm, hp⟩ := exists_chunk rest (t :: current) d
  obtain ⟨a, rfl, ha⟩ := validateIndexColumn_eq_ok.mp (h c hm)
  obtain ⟨rfl, hnil⟩ := List.cons_prefix_cons.mp hp
  exact ⟨List.prefix_nil.mp hnil, ha⟩

/-- What the splitter cuts into single names is a list of columns. -/
theorem isColumnList_of_chunks : ∀ {tokens : List Token},
    (∀ c ∈ splitTopLevelCommas tokens, validateIndexColumn c = .ok ()) → IsColumnList tokens
  | [], h => by
      obtain ⟨a, ha, -⟩ := validateIndexColumn_eq_ok.mp (h [] List.mem_cons_self)
      exact absurd ha (by simp)
  | t :: rest, h => by
      have hcomma : t ≠ comma := by
        rintro rfl
        rw [splitTopLevelCommas, splitCommasFrom_comma] at h
        obtain ⟨a, ha, -⟩ := validateIndexColumn_eq_ok.mp (h [] List.mem_cons_self)
        exact absurd ha (by simp)
      have hsnake : isSnakeCase t = true := by
        obtain ⟨d, hd⟩ := splitCommasFrom_other hcomma [] rest 0
        rw [splitTopLevelCommas, hd] at h
        exact (eq_singleton_of_chunks h).2
      rw [splitTopLevelCommas, splitCommasFrom_plain (isPlain_of_snakeCase hsnake)] at h
      match rest, h with
      | [], _ => exact .one hsnake
      | u :: rest, h =>
          by_cases hu : u = comma
          · subst hu
            rw [splitCommasFrom_comma] at h
            exact .more hsnake (isColumnList_of_chunks fun c hc => h c (List.mem_cons_of_mem _ hc))
          · obtain ⟨d, hd⟩ := splitCommasFrom_other hu ([] ++ [t]) rest 0
            rw [hd] at h
            exact absurd (eq_singleton_of_chunks h).1 (by simp)

theorem chunks_of_isColumnList {tokens : List Token} (h : IsColumnList tokens) :
    ∀ c ∈ splitTopLevelCommas tokens, validateIndexColumn c = .ok () := by
  induction h with
  | @one a ha =>
      have hsplit : splitTopLevelCommas [a] = [[a]] := by
        rw [splitTopLevelCommas, splitCommasFrom_plain (isPlain_of_snakeCase ha)]
        rfl
      rw [hsplit]
      intro c hc
      rw [List.mem_singleton.mp hc]
      exact validateIndexColumn_eq_ok.mpr ⟨a, rfl, ha⟩
  | @more a rest ha _ ih =>
      have hsplit : splitTopLevelCommas (a :: comma :: rest) = [a] :: splitTopLevelCommas rest := by
        rw [splitTopLevelCommas, splitCommasFrom_plain (isPlain_of_snakeCase ha), List.nil_append,
          splitCommasFrom_comma]
      rw [hsplit]
      intro c hc
      rcases List.mem_cons.mp hc with rfl | hc
      · exact validateIndexColumn_eq_ok.mpr ⟨a, rfl, ha⟩
      · exact ih c hc

/-! ## The word filter -/

theorem validateAllowedWords_eq_ok {allowed : List Token} {kind : String} {tokens : List Token} :
    validateAllowedWords allowed kind tokens = .ok () ↔ ∀ t ∈ tokens,
      isPunctToken t = true ∨ isDigitToken t = true ∨ upper t ∈ allowed ∨ isSnakeCase t = true := by
  induction tokens with
  | nil => simp [validateAllowedWords]
  | cons t ts ih =>
      rw [validateAllowedWords, List.forall_mem_cons, ← ih]
      by_cases hp : (isPunctToken t || isDigitToken t) = true
      · rw [if_pos hp]
        rw [Bool.or_eq_true] at hp
        exact ⟨fun h => ⟨by tauto, h⟩, fun h => h.2⟩
      · rw [if_neg hp]
        rw [Bool.or_eq_true, not_or] at hp
        by_cases hd : upper t ∉ allowed ∧ ¬ isSnakeCase t = true
        · rw [if_pos hd]
          exact iff_of_false (by simp [fail]) fun h => by tauto
        · rw [if_neg hd]
          exact ⟨fun h => ⟨by tauto, h⟩, fun h => h.2⟩

/-- Every token of the form is a word that the filter lets through. -/
theorem IsCreateIndex.allowed {tokens : List Token} (h : IsCreateIndex tokens) :
    validateAllowedWords createIndexWords "CREATE INDEX" tokens = .ok () := by
  rw [validateAllowedWords_eq_ok]
  obtain ⟨words, opt, name, on, table, method, columns, rfl, hwords, hopt, hname, hon, htable,
    hmethod, hcolumns⟩ := h
  have hkeywords : ∀ {ts ws : List Token}, ts.map upper = ws → (∀ w ∈ ws, w ∈ createIndexWords) →
      ∀ t ∈ ts, upper t ∈ createIndexWords :=
    fun he hall t ht => hall _ (he ▸ List.mem_map_of_mem ht)
  have hwordOk : ∀ t ∈ words, upper t ∈ createIndexWords :=
    hkeywords hwords (by decide)
  have hoptOk : ∀ t ∈ opt, upper t ∈ createIndexWords := by
    rcases hopt with rfl | hopt
    · simp
    · exact hkeywords hopt (by decide)
  have htableOk : ∀ t ∈ table, isPunctToken t = true ∨ isSnakeCase t = true := by
    rcases htable with ⟨a, rfl, ha⟩ | ⟨a, b, rfl, ha, hb⟩
    · simp [ha]
    · simp [ha, hb, isPunctToken]
  have hmethodOk : ∀ t ∈ method, upper t ∈ createIndexWords := by
    rcases hmethod with rfl | ⟨u, m, rfl, hu, hm⟩
    · simp
    · intro t ht
      rcases List.mem_cons.mp ht with rfl | ht
      · rw [hu]
        decide
      · rw [List.mem_singleton.mp ht]
        rcases hm with hm | hm
        · rw [hm]
          decide
        · rw [hm]
          decide
  have hcolumnOk : ∀ t ∈ columns, isPunctToken t = true ∨ isSnakeCase t = true := by
    intro t ht
    rcases hcolumns.snake_or_comma t ht with hs | rfl
    · exact .inr hs
    · exact .inl rfl
  intro t ht
  simp only [List.mem_append, List.mem_cons, List.not_mem_nil, or_false] at ht
  rcases ht with ht | ht | rfl | rfl | ht | ht | rfl | ht | rfl
  · exact .inr (.inr (.inl (hwordOk t ht)))
  · exact .inr (.inr (.inl (hoptOk t ht)))
  · exact .inr (.inr (.inr hname))
  · rw [hon]
    exact .inr (.inr (.inl (by decide)))
  · rcases htableOk t ht with h | h
    · exact .inl h
    · exact .inr (.inr (.inr h))
  · exact .inr (.inr (.inl (hmethodOk t ht)))
  · exact .inl rfl
  · rcases hcolumnOk t ht with h | h
    · exact .inl h
    · exact .inr (.inr (.inr h))
  · exact .inl rfl

/-! ## Reading forward -/

theorem getElem?_of_drop {tokens rest : List Token} {i : Nat} {t : Token}
    (h : tokens.drop i = t :: rest) : tokens[i]? = some t := by
  rw [← List.head?_drop, h, List.head?_cons]

theorem drop_of_drop {tokens xs ys : List Token} {i : Nat} (h : tokens.drop i = xs ++ ys) :
    tokens.drop (i + xs.length) = ys := by
  rw [← List.drop_drop, h, List.drop_left]

theorem drop_succ_of_drop {tokens rest : List Token} {i : Nat} {t : Token}
    (h : tokens.drop i = t :: rest) : tokens.drop (i + 1) = rest := by
  rw [← List.drop_drop, h, List.drop_one, List.tail_cons]

theorem parseIdentifier_of_drop {tokens rest : List Token} {i : Nat} {t : Token} (kind : String)
    (h : tokens.drop i = t :: rest) (ht : isSnakeCase t = true) :
    parseIdentifier tokens i kind = .ok (i + 1) :=
  parseIdentifier_eq_ok.mpr ⟨t, getElem?_of_drop h, ht, rfl⟩

theorem parseQualifiedName_of_drop {tokens name rest : List Token} {i : Nat} (kind : String)
    (h : tokens.drop i = name ++ rest) (hname : IsQualifiedName name)
    (hrest : rest.head? ≠ some dot) :
    parseQualifiedName tokens i kind = .ok (i + name.length) := by
  rcases hname with ⟨a, rfl, ha⟩ | ⟨a, b, rfl, ha, hb⟩
  · have hnext : tokens[i + 1]? ≠ some dot := by
      rw [← List.head?_drop, drop_succ_of_drop h]
      exact hrest
    rw [parseQualifiedName, parseIdentifier_of_drop kind h ha]
    exact if_neg hnext
  · have hdot : tokens.drop (i + 1) = dot :: b :: rest := drop_succ_of_drop h
    have hb' : tokens.drop (i + 1 + 1) = b :: rest := drop_succ_of_drop hdot
    rw [parseQualifiedName, parseIdentifier_of_drop kind h ha]
    show (if tokens[i + 1]? = some dot then _ else _) = _
    rw [if_pos (getElem?_of_drop hdot), parseIdentifier_of_drop kind hb' hb]
    rfl

theorem matchesAt_iff {tokens expected : List Token} {i : Nat} (hne : expected ≠ []) :
    matchesAt tokens i expected = true ↔
      ((tokens.drop i).take expected.length).map upper = expected := by
  rw [matchesAt]
  split_ifs with hlen
  · refine iff_of_false (by simp) fun h => ?_
    have hl := congrArg List.length h
    rw [List.length_map, List.length_take, List.length_drop] at hl
    have hpos := List.length_pos_of_ne_nil hne
    omega
  · simp

/-- The position of the name in a statement of the form. -/
theorem start_eq {tokens opt : List Token} {name on : Token} {rest : List Token}
    (h : tokens.drop 2 = opt ++ name :: on :: rest) (hopt : opt = [] ∨ opt.map upper = ifNotExists)
    (hon : upper on = "ON".toList) :
    (if matchesAt tokens 2 ifNotExists then 5 else 2) = 2 + opt.length := by
  rcases hopt with rfl | hopt
  · have hno : ¬ matchesAt tokens 2 ifNotExists = true := by
      rw [matchesAt_iff (by decide), h]
      intro he
      have hnot : upper on = "NOT".toList := by
        have hget := congrArg (fun ts : List Token => ts[1]?) he
        simpa [ifNotExists] using hget
      rw [hon] at hnot
      exact absurd hnot (by decide)
    rw [if_neg hno]
    rfl
  · have hlen : opt.length = 3 := by
      rw [← List.length_map upper, hopt]
      rfl
    have hyes : matchesAt tokens 2 ifNotExists = true := by
      rw [matchesAt_iff (by decide), h, List.take_append_of_le_length (by rw [hlen]; exact le_rfl),
        List.take_of_length_le (by rw [hlen]; exact le_rfl), hopt]
    rw [if_pos hyes, hlen]

/-! ## The list in parentheses -/

theorem drop_dropLast_of_drop {tokens init : List Token} {i : Nat} {last : Token}
    (h : tokens.drop i = init ++ [last]) : tokens.dropLast.drop i = init := by
  rw [List.dropLast_eq_take, List.drop_take, h]
  have hlen := congrArg List.length h
  rw [List.length_drop, List.length_append, List.length_singleton] at hlen
  rw [show tokens.length - 1 - i = init.length by omega, List.take_left]

/-- What passes the checks behind the head is a list of columns in parentheses. -/
theorem columns_of_checks {tokens : List Token} {index : Nat}
    (hparen : tokens[index]? = some lparen)
    (hbalanced : expectBalancedParentheses (tokens.drop index) = .ok ())
    (hchunks : ∀ c ∈ splitTopLevelCommas (tokens.dropLast.drop (index + 1)),
      validateIndexColumn c = .ok ()) :
    ∃ columns, IsColumnList columns ∧ tokens.drop index = lparen :: (columns ++ [rparen]) := by
  have hcolumns := isColumnList_of_chunks hchunks
  have hdrop := drop_of_getElem? hparen
  have hnested := expectBalancedParentheses_eq_ok.mp (hdrop ▸ hbalanced)
  have hdepth := hnested.depth_eq lparen_ne_rparen
  rw [depth_cons, weight_open] at hdepth
  rcases List.eq_nil_or_concat (tokens.drop (index + 1)) with hnil | ⟨columns, last, hrest⟩
  · rw [hnil] at hdepth
    exact absurd hdepth (by decide)
  · rw [List.concat_eq_append] at hrest
    rw [drop_dropLast_of_drop hrest] at hcolumns
    rw [hrest, depth_append, hcolumns.wellNested.depth_eq lparen_ne_rparen, depth_cons,
      depth_nil] at hdepth
    have hlast : last = rparen := by
      unfold weight at hdepth
      split_ifs at hdepth with hl hr
      · omega
      · exact hr
      · omega
    exact ⟨columns, hcolumns, by rw [hdrop, hrest, hlast]⟩

/-- A list of columns in parentheses is balanced. -/
theorem balanced_of_columns {columns : List Token} (h : IsColumnList columns) :
    expectBalancedParentheses (lparen :: (columns ++ [rparen])) = .ok () :=
  expectBalancedParentheses_eq_ok.mpr (.group h.wellNested .nil)

/-! ## The whole statement -/

theorem isCreateIndex_of_validate {tokens : List Token}
    (hb : beginsWith tokens "CREATE" "INDEX" = true) (h : validateCreateIndex tokens = .ok ()) :
    IsCreateIndex tokens := by
  unfold validateCreateIndex at h
  generalize hstart : (if matchesAt tokens 2 ifNotExists then 5 else 2) = start at h
  obtain ⟨words, opt, hwords, hopt, htokens⟩ := opening_spec hb hstart.symm
  obtain ⟨onAt, hname, h⟩ := bind_eq_ok.mp h
  obtain ⟨name, hget, hsnake, rfl⟩ := parseIdentifier_eq_ok.mp hname
  split_ifs at h with hno
  · exact absurd h (by simp [fail])
  rw [ne_eq, not_not, Option.map_eq_some_iff] at hno
  obtain ⟨on, hgetOn, hon⟩ := hno
  obtain ⟨index, htable, h⟩ := bind_eq_ok.mp h
  obtain ⟨table, hqualified, hdrop⟩ := parseQualifiedName_spec htable
  rw [drop_of_getElem? hget, drop_of_getElem? hgetOn, hdrop] at htokens
  dsimp only at h
  split_ifs at h with hbad hmethod hparen hparen
  · exact absurd h (by simp [fail])
  · exact absurd h (by simp [fail])
  · obtain ⟨_, hbalanced, h⟩ := bind_eq_ok.mp h
    obtain ⟨_, _, h⟩ := bind_eq_ok.mp h
    obtain ⟨columns, hcolumns, hlist⟩ :=
      columns_of_checks (not_not.mp hparen) hbalanced (forM_eq_ok.mp h)
    obtain ⟨u, hgetUsing, hu⟩ := Option.map_eq_some_iff.mp hmethod
    have hkind : tokens[index + 1]?.map upper = some "BTREE".toList ∨
        tokens[index + 1]?.map upper = some "HASH".toList := by
      by_contra hnot
      rw [not_or] at hnot
      exact hbad ⟨hmethod, hnot⟩
    obtain ⟨m, hgetKind, hm⟩ : ∃ m, tokens[index + 1]? = some m ∧
        (upper m = "BTREE".toList ∨ upper m = "HASH".toList) := by
      cases hget : tokens[index + 1]? with
      | none => simp [hget] at hkind
      | some m => exact ⟨m, rfl, by simpa [hget] using hkind⟩
    rw [drop_of_getElem? hgetUsing, drop_of_getElem? hgetKind, hlist] at htokens
    exact ⟨words, opt, name, on, table, [u, m], columns, htokens, hwords, hopt, hsnake, hon,
      hqualified, .inr ⟨u, m, rfl, hu, hm⟩, hcolumns⟩
  · exact absurd h (by simp [fail])
  · obtain ⟨_, hbalanced, h⟩ := bind_eq_ok.mp h
    obtain ⟨_, _, h⟩ := bind_eq_ok.mp h
    obtain ⟨columns, hcolumns, hlist⟩ :=
      columns_of_checks (not_not.mp hparen) hbalanced (forM_eq_ok.mp h)
    rw [hlist] at htokens
    exact ⟨words, opt, name, on, table, [], columns, htokens, hwords, hopt, hsnake, hon, hqualified,
      .inl rfl, hcolumns⟩

theorem validate_of_isCreateIndex {tokens : List Token} (h : IsCreateIndex tokens) :
    validateCreateIndex tokens = .ok () := by
  have hallowed := h.allowed
  obtain ⟨words, opt, name, on, table, method, columns, htokens, hwords, hopt, hname, hon, htable,
    hmethod, hcolumns⟩ := h
  have hwordsLength : words.length = 2 := by
    rw [← List.length_map upper, hwords]
    rfl
  have hopening : tokens.drop 2 = opt ++ name :: on :: (table ++ (method ++
      lparen :: (columns ++ [rparen]))) := by
    rw [htokens, ← hwordsLength, List.drop_left]
  have hstart := start_eq hopening hopt hon
  have hname' : tokens.drop (2 + opt.length) = name :: on :: _ := drop_of_drop hopening
  have hon' : tokens.drop (2 + opt.length + 1) = on :: _ := drop_succ_of_drop hname'
  have htable' := drop_succ_of_drop hon'
  have hmethod' := drop_of_drop htable'
  unfold validateCreateIndex
  rw [hstart]
  refine bind_eq_ok.mpr ⟨_, parseIdentifier_of_drop "index" hname' hname, ?_⟩
  rw [getElem?_of_drop hon', Option.map_some, hon, if_neg (by simp)]
  have hnotDot : (method ++ lparen :: (columns ++ [rparen])).head? ≠ some dot := by
    rcases hmethod with rfl | ⟨u, m, rfl, hu, -⟩
    · simp [lparen, dot]
    · intro hdot
      obtain rfl : u = dot := by simpa using hdot
      exact absurd hu (by decide)
  refine bind_eq_ok.mpr ⟨_, parseQualifiedName_of_drop "table" htable' htable hnotDot, ?_⟩
  -- the checks of the list, wherever it begins
  have hlist : ∀ index, tokens.drop index = lparen :: (columns ++ [rparen]) →
      (if tokens[index]? ≠ some lparen then fail "CREATE INDEX must list indexed columns"
      else do
        expectBalancedParentheses (tokens.drop index)
        validateAllowedWords createIndexWords "CREATE INDEX" tokens
        (splitTopLevelCommas (tokens.dropLast.drop (index + 1))).forM validateIndexColumn) =
          .ok () := by
    intro index hdrop
    rw [if_neg (not_not.mpr (getElem?_of_drop hdrop)), hdrop,
      drop_dropLast_of_drop (drop_succ_of_drop hdrop)]
    exact bind_eq_ok.mpr ⟨(), balanced_of_columns hcolumns, bind_eq_ok.mpr ⟨(), hallowed,
      forM_eq_ok.mpr (chunks_of_isColumnList hcolumns)⟩⟩
  dsimp only
  rcases hmethod with rfl | ⟨u, m, rfl, hu, hm⟩
  · have hparen := getElem?_of_drop hmethod'
    have hnotUsing : ¬ tokens[2 + opt.length + 1 + 1 + table.length]?.map upper =
        some "USING".toList := by
      rw [hparen]
      decide
    rw [if_neg fun hbad => hnotUsing hbad.1, if_neg hnotUsing]
    exact hlist _ hmethod'
  · have hkind := drop_succ_of_drop hmethod'
    have husing : tokens[2 + opt.length + 1 + 1 + table.length]?.map upper =
        some "USING".toList := by
      rw [getElem?_of_drop hmethod', Option.map_some, hu]
    have hgood : ¬ (tokens[2 + opt.length + 1 + 1 + table.length]?.map upper =
          some "USING".toList ∧
        tokens[2 + opt.length + 1 + 1 + table.length + 1]?.map upper ≠ some "BTREE".toList ∧
        tokens[2 + opt.length + 1 + 1 + table.length + 1]?.map upper ≠ some "HASH".toList) := by
      rw [getElem?_of_drop hkind, Option.map_some]
      rintro ⟨-, hbtree, hhash⟩
      rcases hm with hm | hm
      · exact hbtree (congrArg some hm)
      · exact hhash (congrArg some hm)
    rw [if_neg hgood, if_pos husing]
    exact hlist _ (drop_succ_of_drop hkind)

/-- **Acceptance is exact.** A statement is a `CREATE INDEX` that passes exactly when it has the
    form `CREATE INDEX [IF NOT EXISTS] id ON id [. id] [USING btree|hash] ( id {, id} )`. -/
theorem validateCreateIndex_iff (tokens : List Token) :
    beginsWith tokens "CREATE" "INDEX" = true ∧ validateCreateIndex tokens = .ok () ↔
      IsCreateIndex tokens := by
  constructor
  · rintro ⟨hb, h⟩
    exact isCreateIndex_of_validate hb h
  · intro h
    refine ⟨?_, validate_of_isCreateIndex h⟩
    obtain ⟨words, opt, name, on, table, method, columns, rfl, hwords, -⟩ := h
    exact beginsWith_of_words hwords

end PgErdCloud.ForwardDdl
