/-
  Index definitions as PostgreSQL reads them, and what `_index_columns` reads in their texts:
  of an index on plain columns the first words of its keys, without case, quotes and options;
  of any other index nothing.
-/
import PgErdCloud.Spec.ParenGroup
import PgErdCloud.Lib.SqlTokens
import PgErdCloud.Lib.Fallible

namespace PgErdCloud.Spec

open Lib Lib.PyStr Lib.SqlTokens Lib.Fallible
open LexState (isIdentStart isIdentCont foldCase quoteIdent)

/-! ## Definitions -/

/-- What an index orders by. -/
inductive KeyTarget
  | column (name : Str)
  /-- a call of a function, or an expression in parentheses; with all that is in and behind
      them -/
  | expression (function : List Str) (rest : Str)
  deriving DecidableEq

/-- A key: what is indexed and how. A clause that is not written is `none` or empty. -/
structure Key where
  target : KeyTarget
  collation : List Str
  opclass : List Str
  /-- parameters of the operator class, behind their parenthesis -/
  parameters : Option Str
  descending : Option Bool
  nullsFirst : Option Bool

/-- The statement up to the list of keys. -/
structure Header where
  unique : Bool
  concurrently : Bool
  ifNotExists : Bool
  name : Option Str
  only : Bool
  table : List Str
  method : Option Str

/-- The statement behind the list of keys. -/
structure Tail where
  included : List Str
  nullsDistinct : Option Bool
  storage : Option Str
  tablespace : Option Str
  predicate : Option Str

/-! ## Tokens -/

/-- The tokens of a clause that may be there. -/
def optional (there : Bool) (words : List String) : List Token :=
  if there then keywords words else []

/-- The tokens of what a key orders by. -/
def KeyTarget.tokens : KeyTarget → List Token
  | .column name => [.name name]
  | .expression function rest => dotted function ++ [.symbol '(', .raw rest]

/-- The direction, where it is written. -/
def orderTokens : Option Bool → List Token
  | none => []
  | some true => keywords ["desc"]
  | some false => keywords ["asc"]

/-- The place of the `NULL`s, where it is written. -/
def nullsTokens : Option Bool → List Token
  | none => []
  | some true => keywords ["nulls", "first"]
  | some false => keywords ["nulls", "last"]

/-- The clauses up to the parameters of the operator class. -/
def Key.headTokens (key : Key) : List Token :=
  key.target.tokens ++ optional (key.collation ≠ []) ["collate"] ++ dotted key.collation ++
    dotted key.opclass

/-- The tokens of a key. -/
def Key.tokens (key : Key) : List Token :=
  key.headTokens ++ (key.parameters.map fun rest => [.symbol '(', .raw rest]).getD [] ++
    orderTokens key.descending ++ nullsTokens key.nullsFirst

/-- The tokens of the statement up to the list of keys. -/
def Header.tokens (h : Header) : List Token :=
  keywords ["create"] ++ optional h.unique ["unique"] ++ keywords ["index"] ++
    optional h.concurrently ["concurrently"] ++ optional h.ifNotExists ["if", "not", "exists"] ++
    (h.name.map fun name => [.name name]).getD [] ++ keywords ["on"] ++ optional h.only ["only"] ++
    dotted h.table ++ (h.method.map fun name => keywords ["using"] ++ [.name name]).getD []

/-- The tokens of the statement behind the list of keys. -/
def Tail.tokens (t : Tail) : List Token :=
  (if t.included = [] then [] else keywords ["include"] ++ nameList t.included) ++
    (t.nullsDistinct.map fun distinct => keywords ["nulls"] ++ optional (!distinct) ["not"] ++
      keywords ["distinct"]).getD [] ++
    (t.storage.map fun text => keywords ["with"] ++ [.raw text]).getD [] ++
    (t.tablespace.map fun name => keywords ["tablespace"] ++ [.name name]).getD [] ++
    (t.predicate.map fun text => keywords ["where"] ++ [.raw text]).getD []

/-! ## Texts -/

/-- A key as it is written. -/
structure KeyText where
  key : Key
  text : Str
  written : Writes key.tokens text

/-- A definition as it is written. -/
structure IndexText where
  header : Header
  headerText : Str
  headerWritten : Writes header.tokens headerText
  keys : List KeyText
  keyed : keys ≠ []
  tail : Tail
  tailText : Str
  tailWritten : Writes tail.tokens tailText

/-- The statement. -/
def IndexText.text (d : IndexText) : Str :=
  d.headerText ++ '(' :: (join [','] (d.keys.map KeyText.text) ++ ')' :: d.tailText)

/-! ## What a definition says -/

/-- A key with its defaults: ascending, and then nulls last. -/
structure TrueKey where
  target : KeyTarget
  collation : List Str
  opclass : List Str
  parameters : Option Str
  descending : Bool
  nullsFirst : Bool
  deriving DecidableEq

/-- The key with PostgreSQL's defaults filled in: ascending, and `NULL`s last but in descending
    order. -/
def Key.trueKey (key : Key) : TrueKey where
  target := key.target
  collation := key.collation
  opclass := key.opclass
  parameters := key.parameters
  descending := key.descending.getD false
  nullsFirst := key.nullsFirst.getD (key.descending.getD false)

/-- The keys of the index. -/
def IndexText.trueKeys (d : IndexText) : List TrueKey := d.keys.map fun k => k.key.trueKey

/-- The access method, by default a B-tree. -/
def IndexText.method (d : IndexText) : Str := d.header.method.getD "btree".toList

/-! ## What is read of it -/

/-- A column with options, none of them in parentheses. -/
def Key.plain (key : Key) : Bool :=
  match key.target with
  | .column _ => key.parameters.isNone
  | .expression _ _ => false

section
variable (unicode : Unicode)

/-- The columns that are read of a key. -/
def KeyText.columns (key : KeyText) : Option (List Str) :=
  if key.key.plain then (split ',' key.text).mapM (partColumn unicode) else none

/-- The columns that are read of a definition. -/
def IndexText.reads (d : IndexText) : List Str :=
  if isPartial unicode d.text then []
  else ((d.keys.mapM (KeyText.columns unicode)).map List.flatten).getD []

end

/-! ## Scanning -/

/-- The scan goes over the text without opening or closing a group. -/
def Passes (text : Str) : Prop :=
  ∀ depth group rest, firstParenGroupFrom false depth group (text ++ rest) =
    firstParenGroupFrom false depth (group ++ text) rest

theorem passes_nil : Passes [] := by
  intro depth group rest
  rw [List.nil_append, List.append_nil]

theorem Passes.append {s t : Str} (hs : Passes s) (ht : Passes t) : Passes (s ++ t) := by
  intro depth group rest
  rw [List.append_assoc, hs, ht, List.append_assoc]

theorem passes_of_plain {text : Str} (h : ∀ c ∈ text, c ≠ '"' ∧ c ≠ '(' ∧ c ≠ ')') :
    Passes text := by
  induction text with
  | nil => exact passes_nil
  | cons c text ih =>
      obtain ⟨hq, ho, hc⟩ := h c List.mem_cons_self
      intro depth group rest
      rw [List.cons_append, scan_cons hq ho hc, ih fun d hd => h d (List.mem_cons_of_mem c hd),
        List.append_assoc]
      rfl

theorem passes_quoteIdent (ident : Str) : Passes (quoteIdent ident) := by
  have hbody : ∀ depth group rest,
      firstParenGroupFrom true depth group (replaceChar '"' "\"\"".toList ident ++ rest) =
        firstParenGroupFrom true depth (group ++ replaceChar '"' "\"\"".toList ident) rest := by
    induction ident with
    | nil => simp [replaceChar]
    | cons c ident ih =>
        intro depth group rest
        have hcons : replaceChar '"' "\"\"".toList (c :: ident) =
            (if c = '"' then ['"', '"'] else [c]) ++ replaceChar '"' "\"\"".toList ident := rfl
        rw [hcons]
        split_ifs with hc
        · rw [List.append_assoc, List.cons_append, List.cons_append, List.nil_append,
            scan_quote, scan_unquoted_quote, ih]
          simp only [List.append_assoc, List.cons_append, List.nil_append]
        · rw [List.append_assoc, List.cons_append, List.nil_append, scan_quoted_cons hc, ih]
          simp only [List.append_assoc]
  intro depth group rest
  rw [quoteIdent, List.cons_append, List.append_assoc, scan_unquoted_quote, hbody,
    List.cons_append, List.nil_append, scan_quote]
  simp only [List.append_assoc, List.cons_append, List.nil_append]

/-- An open group only grows. -/
theorem prefix_of_scan {text g : Str} {quoted : Bool} {depth : Nat} {group : Str}
    (h : firstParenGroupFrom quoted (depth + 1) group text = some g) : group <+: g := by
  induction text generalizing quoted depth group with
  | nil => exact absurd ((scan_nil _ _ _).symm.trans h) (by simp)
  | cons ch text ih =>
      have hgrow : ∀ {quoted depth}, firstParenGroupFrom quoted (depth + 1) (group ++ [ch]) text =
          some g → group <+: g := fun h => (List.prefix_append _ _).trans (ih h)
      cases quoted with
      | true =>
          by_cases hq : ch = '"'
          · subst hq
            rw [scan_quote] at h
            exact hgrow h
          · rw [scan_quoted_cons hq] at h
            exact hgrow h
      | false =>
          by_cases hq : ch = '"'
          · subst hq
            rw [scan_unquoted_quote] at h
            exact hgrow h
          by_cases ho : ch = '('
          · subst ho
            rw [scan_opening] at h
            exact hgrow h
          by_cases hc : ch = ')'
          · subst hc
            cases depth with
            | zero =>
                rw [scan_closing_last] at h
                exact Option.some.inj h ▸ List.prefix_refl _
            | succ depth =>
                rw [scan_closing] at h
                exact hgrow h
          · rw [scan_cons hq ho hc] at h
            exact hgrow h

/-! ## Texts of keys -/

theorem passes_of_isWord {text : Str} (h : isWord text = true) : Passes text := by
  refine passes_of_plain fun c hc => ?_
  have hcont := isIdentCont_of_isWord h hc
  refine ⟨?_, ?_, ?_⟩ <;>
  · rintro rfl
    exact absurd hcont (by decide)

theorem passes_of_isText {token : Token} {text : Str} (h : token.IsText text)
    (hinert : token.inert = true) : Passes text := by
  cases token with
  | keyword word => exact passes_of_isWord h.1
  | name ident =>
      obtain ⟨-, -, ⟨hword, -⟩ | rfl⟩ := h
      · exact passes_of_isWord hword
      · exact passes_quoteIdent ident
  | symbol ch =>
      obtain rfl : text = [ch] := h
      refine passes_of_plain fun c hc => ?_
      obtain rfl := List.mem_singleton.mp hc
      simp only [Token.inert, List.mem_cons, decide_eq_true_eq, not_or] at hinert
      exact ⟨hinert.2.2.1, hinert.1, hinert.2.1⟩
  | raw content => exact absurd hinert (by simp [Token.inert])

theorem passes_of_blank {blank : Str} (h : ∀ c ∈ blank, isBlank c = true) : Passes blank := by
  refine passes_of_plain fun c hc => ?_
  have hblank := h c hc
  refine ⟨?_, ?_, ?_⟩ <;>
  · rintro rfl
    exact absurd hblank (by decide)

theorem Passes.of_writes {tokens : List Token} {text : Str} (h : Writes tokens text)
    (hinert : ∀ token ∈ tokens, token.inert = true) : Passes text :=
  h.induction (fun _ => passes_of_blank)
    (fun token hm _ ht => passes_of_isText ht (hinert token hm)) fun _ _ => Passes.append

theorem inert_keywords (words : List String) : ∀ token ∈ keywords words, token.inert = true := by
  intro token hm
  obtain ⟨word, -, rfl⟩ := List.mem_map.mp hm
  rfl

theorem inert_optional (there : Bool) (words : List String) :
    ∀ token ∈ optional there words, token.inert = true := by
  unfold optional
  split_ifs
  · exact inert_keywords words
  · exact fun token hm => absurd hm List.not_mem_nil

theorem inert_dotted (names : List Str) : ∀ token ∈ dotted names, token.inert = true := by
  induction names with
  | nil => simp [dotted, List.intercalate]
  | cons name names ih =>
      cases names with
      | nil => simp [dotted, List.intercalate, Token.inert]
      | cons next names =>
          have hcons : dotted (name :: next :: names) =
              .name name :: .symbol '.' :: dotted (next :: names) := by
            simp [dotted, List.intercalate]
          rw [hcons, List.forall_mem_cons, List.forall_mem_cons]
          exact ⟨rfl, rfl, ih⟩

theorem inert_order (descending : Option Bool) :
    ∀ token ∈ orderTokens descending, token.inert = true := by
  rcases descending with _ | _ | _
  · exact fun token hm => absurd hm List.not_mem_nil
  · exact inert_keywords _
  · exact inert_keywords _

theorem inert_nulls (nullsFirst : Option Bool) :
    ∀ token ∈ nullsTokens nullsFirst, token.inert = true := by
  rcases nullsFirst with _ | _ | _
  · exact fun token hm => absurd hm List.not_mem_nil
  · exact inert_keywords _
  · exact inert_keywords _

theorem inert_header (h : Header) : ∀ token ∈ h.tokens, token.inert = true := by
  unfold Header.tokens
  simp only [List.forall_mem_append]
  refine ⟨⟨⟨⟨⟨⟨⟨⟨⟨inert_keywords _, inert_optional _ _⟩, inert_keywords _⟩, inert_optional _ _⟩,
    inert_optional _ _⟩, ?_⟩, inert_keywords _⟩, inert_optional _ _⟩, inert_dotted _⟩, ?_⟩
  · cases h.name <;> simp [Token.inert]
  · cases h.method <;> simp [Token.inert, keywords]

theorem inert_head {key : Key} {name : Str} (h : key.target = .column name) :
    ∀ token ∈ key.headTokens, token.inert = true := by
  unfold Key.headTokens
  rw [h]
  simp only [List.forall_mem_append]
  exact ⟨⟨⟨by simp [KeyTarget.tokens, Token.inert], inert_optional _ _⟩, inert_dotted _⟩,
    inert_dotted _⟩

theorem inert_of_plain {key : Key} (h : key.plain = true) :
    ∀ token ∈ key.tokens, token.inert = true := by
  cases htarget : key.target with
  | expression function rest => exact absurd h (by simp [Key.plain, htarget])
  | column name =>
      have hparameters : key.parameters = none := by simpa [Key.plain, htarget] using h
      unfold Key.tokens
      rw [hparameters]
      simp only [List.forall_mem_append]
      exact ⟨⟨⟨inert_head htarget, fun token hm => absurd hm List.not_mem_nil⟩, inert_order _⟩,
        inert_nulls _⟩

/-- Tokens up to a parenthesis. -/
theorem open_of_writes {tokens others : List Token} {text : Str}
    (h : Writes (tokens ++ .symbol '(' :: others) text)
    (hinert : ∀ token ∈ tokens, token.inert = true) :
    ∃ before after, text = before ++ '(' :: after ∧ Passes before := by
  obtain ⟨before, after, rfl, hothers, hbefore⟩ := h.of_append
  have hpasses : Passes before := hbefore Passes passes_nil (fun _ => passes_of_blank)
    (fun token hm _ ht => passes_of_isText ht (hinert token hm)) fun _ _ => Passes.append
  cases hothers with
  | @cons _ _ blank text rest hblank htext hapart hrest =>
      obtain rfl : text = ['('] := htext
      exact ⟨before ++ blank, rest, by simp, hpasses.append (passes_of_blank hblank)⟩

/-- A key that is not plain opens a parenthesis. -/
theorem open_of_not_plain {key : Key} {text : Str} (h : key.plain = false)
    (hwritten : Writes key.tokens text) :
    ∃ before after, text = before ++ '(' :: after ∧ Passes before := by
  cases htarget : key.target with
  | expression function rest =>
      have htokens : Writes (dotted function ++ .symbol '(' :: .raw rest ::
          (optional (key.collation ≠ []) ["collate"] ++ dotted key.collation ++
            dotted key.opclass ++
            (key.parameters.map fun rest => [.symbol '(', .raw rest]).getD [] ++
            orderTokens key.descending ++ nullsTokens key.nullsFirst)) text := by
        simpa [Key.tokens, Key.headTokens, htarget, KeyTarget.tokens] using hwritten
      exact open_of_writes htokens (inert_dotted function)
  | column name =>
      cases hparameters : key.parameters with
      | none => exact absurd h (by simp [Key.plain, htarget, hparameters])
      | some rest =>
          have htokens : Writes (key.headTokens ++ .symbol '(' :: .raw rest ::
              (orderTokens key.descending ++ nullsTokens key.nullsFirst)) text := by
            simpa [Key.tokens, hparameters] using hwritten
          exact open_of_writes htokens (inert_head htarget)

/-! ## Definitions read back -/

section
variable (unicode : Unicode)

theorem passes_join {texts : List Str} (h : ∀ text ∈ texts, Passes text) :
    Passes (join [','] texts) := by
  induction texts with
  | nil => exact passes_nil
  | cons text texts ih =>
      have htext := h text List.mem_cons_self
      have hrest := fun t ht => h t (List.mem_cons_of_mem text ht)
      cases texts with
      | nil => simpa [join, List.intercalate] using htext
      | cons next texts =>
          rw [join_cons_cons]
          have hcomma : Passes [','] := passes_of_plain (by simp)
          exact htext.append (hcomma.append (ih hrest))

/-- A key that is not plain opens a parenthesis in the list. -/
theorem open_join {keys : List KeyText} (h : ∃ key ∈ keys, key.key.plain = false) :
    ∃ before after, join [','] (keys.map KeyText.text) = before ++ '(' :: after ∧
      Passes before := by
  induction keys with
  | nil => exact absurd h (by simp)
  | cons key keys ih =>
      have hlist : ∃ tail, join [','] ((key :: keys).map KeyText.text) = key.text ++ tail ∧
          (keys ≠ [] → tail = [','] ++ join [','] (keys.map KeyText.text)) := by
        cases keys with
        | nil => exact ⟨[], by simp, fun hne => absurd rfl hne⟩
        | cons next keys => exact ⟨_, join_cons_cons _ _ _ _, fun _ => rfl⟩
      obtain ⟨tail, hjoin, htail⟩ := hlist
      cases hplain : key.key.plain with
      | false =>
          obtain ⟨before, after, htext, hpasses⟩ := open_of_not_plain hplain key.written
          exact ⟨before, after ++ tail, by rw [hjoin, htext, List.append_assoc, List.cons_append],
            hpasses⟩
      | true =>
          have hrest : ∃ key ∈ keys, key.key.plain = false := by
            obtain ⟨key', hm, hkey'⟩ := h
            rcases List.mem_cons.mp hm with rfl | hm
            · exact absurd (hplain.symm.trans hkey') (by decide)
            · exact ⟨key', hm, hkey'⟩
          obtain ⟨before, after, hrestText, hpasses⟩ := ih hrest
          obtain ⟨_, hm, -⟩ := hrest
          have hcomma : Passes [','] := passes_of_plain (by simp)
          have hkey := Passes.of_writes key.written (inert_of_plain hplain)
          refine ⟨key.text ++ ([','] ++ before), after, ?_, hkey.append (hcomma.append hpasses)⟩
          rw [hjoin, htail (List.ne_nil_of_mem hm), hrestText]
          simp only [List.append_assoc, List.cons_append, List.nil_append]

theorem split_join {texts : List Str} (h : texts ≠ []) :
    split ',' (join [','] texts) = texts.flatMap (split ',') := by
  induction texts with
  | nil => exact absurd rfl h
  | cons text texts ih =>
      cases texts with
      | nil => simp
      | cons next texts =>
          rw [join_cons_cons, List.cons_append, List.nil_append, split,
            List.splitOn_append_cons_self, List.flatMap_cons, ← ih (List.cons_ne_nil _ _)]
          rfl

theorem partColumn_of_mem {part : Str} (h : '(' ∈ part) : partColumn unicode part = none := by
  unfold partColumn
  split
  · rfl
  · rw [if_pos h]

/-- A list with a parenthesis is not comparable. -/
theorem mapM_partColumn_of_mem {group : Str} (h : '(' ∈ group) :
    (split ',' group).mapM (partColumn unicode) = none := by
  have hjoin : join [','] (split ',' group) = group := List.intercalate_splitOn ','
  rw [← hjoin] at h
  rcases mem_join h with h | ⟨part, hm, hpart⟩
  · exact absurd h (by decide)
  · exact mapM_eq_none hm (partColumn_of_mem unicode hpart)

theorem scan_header (d : IndexText) (rest : Str) :
    firstParenGroup (d.headerText ++ '(' :: rest) = firstParenGroupFrom false 1 [] rest := by
  have hpasses := Passes.of_writes d.headerWritten (inert_header d.header)
  rw [firstParenGroup, hpasses, scan_opening_first]

/-- **What `_index_columns` reads of a definition.** -/
theorem indexColumns_text (d : IndexText) :
    indexColumns unicode (some d.text) = d.reads unicode := by
  unfold indexColumns IndexText.reads
  dsimp only
  rw [Option.getD_some]
  split_ifs with hpartial
  · rfl
  rw [IndexText.text, scan_header]
  by_cases hplain : ∀ key ∈ d.keys, key.key.plain = true
  · -- all keys are plain: the group is their list
    have hpasses : Passes (join [','] (d.keys.map KeyText.text)) := by
      refine passes_join fun text hm => ?_
      obtain ⟨key, hkey, rfl⟩ := List.mem_map.mp hm
      exact Passes.of_writes key.written (inert_of_plain (hplain key hkey))
    have hkeyed : d.keys.map KeyText.text ≠ [] := by simpa using d.keyed
    have hcolumns : d.keys.mapM (KeyText.columns unicode) =
        d.keys.mapM fun key => (split ',' key.text).mapM (partColumn unicode) := by
      refine mapM_congr fun key hkey => ?_
      rw [KeyText.columns, if_pos (hplain key hkey)]
    rw [hpasses, scan_closing_last]
    dsimp only
    rw [List.nil_append, split_join hkeyed, List.flatMap_map, mapM_flatMap, hcolumns]
  · -- the first key that is not plain opens a parenthesis inside the list
    simp only [not_forall, Bool.not_eq_true] at hplain
    obtain ⟨key, hkey, hplain⟩ := hplain
    obtain ⟨before, after, hjoin, hpasses⟩ := open_join ⟨key, hkey, hplain⟩
    have hnone : d.keys.mapM (KeyText.columns unicode) = none :=
      mapM_eq_none hkey (by simp [KeyText.columns, hplain])
    rw [hjoin, List.append_assoc, hpasses, List.cons_append, List.nil_append, scan_opening, hnone]
    cases hgroup : firstParenGroupFrom false 2 (before ++ ['('])
        (after ++ ')' :: d.tailText) with
    | none => rfl
    | some group =>
        have hmem : '(' ∈ group := (prefix_of_scan hgroup).subset (by simp)
        dsimp only
        rw [mapM_partColumn_of_mem unicode hmem]
        rfl

end

end PgErdCloud.Spec
