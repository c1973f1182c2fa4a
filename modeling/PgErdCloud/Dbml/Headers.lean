/-
  How the parser reads the header of a table. It takes a header for the table that it names
  exactly when the line is not too long, has no settings, gives no quoted alias and quotes no
  name but that of a table without schema, which has then no dot, no two slashes and no white
  space at its ends.
-/
import PgErdCloud.Dbml.ColumnLines

namespace PgErdCloud.Dbml

open Lib Lib.PyStr Lib.Regex

variable {chars : Chars}

/-! ## The name of a table -/

/-- Nothing of a name of a table follows. -/
def EndsName (chars : Chars) (rest : Str) : Prop :=
  ∀ ch ∈ rest.head?, chars.isWord ch = false ∧ ch ≠ '.'

theorem endsName_cons {ch : Char} (rest : Str) (h : ch ∈ punctuation) (hdot : ch ≠ '.') :
    EndsName chars (ch :: rest) := by
  intro c hc
  obtain rfl : ch = c := by simpa using hc
  exact ⟨isWord_punctuation chars h, hdot⟩

theorem Gap.endsName (g : Gap) (rest : Str) : EndsName chars (g.text ++ rest) := by
  obtain ⟨ch, text, htext⟩ := List.exists_cons_of_ne_nil g.ne_nil
  have hch : ch = ' ' ∨ ch = '\t' := g.blank ch (by rw [htext]; exact List.mem_cons_self)
  rw [htext]
  refine endsName_cons _ ?_ ?_ <;> rcases hch with rfl | rfl <;> decide

theorem Blank.endsName {s rest : Str} (h : Blank s) (hrest : EndsName chars rest) :
    EndsName chars (s ++ rest) := by
  cases s with
  | nil => exact hrest
  | cons ch s => exact Gap.endsName ⟨ch :: s, h, by simp⟩ rest

/-- Words with dots between them. -/
theorem consumeTableName_join {parts : List Str} {rest : Str}
    (hparts : ∀ part ∈ parts, ∀ ch ∈ part, chars.isWord ch = true) (hne : parts ≠ [])
    (hjoin : join ['.'] parts ≠ []) (hrest : EndsName chars rest) :
    consumeTableName chars (join ['.'] parts ++ rest) =
      if [] ∈ parts then none else some (join ['.'] parts, rest) := by
  have hdot : ∀ part ∈ parts, '.' ∉ part :=
    fun part hpart hmem => ne_of_isWord (hparts part hpart _ hmem) (by decide) rfl
  have hsplit : split '.' (join ['.'] parts) = parts := split_join hdot hne
  have hmem : ∀ ch ∈ join ['.'] parts, chars.isWord ch = true ∨ ch = '.' := by
    intro ch hch
    rcases mem_join hch with hch | ⟨part, hpart, hch⟩
    · exact .inr (List.mem_singleton.mp hch)
    · exact .inl (hparts part hpart ch hch)
  have hrun : ∀ ch ∈ join ['.'] parts,
      (chars.isAlnum ch || decide (ch ∈ "_.".toList)) = true := by
    intro ch hch
    rcases hmem ch hch with hword | rfl
    · rw [Chars.isWord, Bool.or_eq_true, decide_eq_true_eq] at hword
      rcases hword with hword | rfl
      · rw [hword, Bool.true_or]
      · simp
    · simp
  have hstop : ∀ ch ∈ rest.head?, (chars.isAlnum ch || decide (ch ∈ "_.".toList)) = false := by
    intro ch hch
    obtain ⟨hword, hdot⟩ := hrest ch hch
    rw [Chars.isWord, Bool.or_eq_false_iff, decide_eq_false_iff_not] at hword
    simp [hword.1, hword.2, hdot]
  generalize join ['.'] parts = raw at *
  obtain ⟨ch, raw, rfl⟩ := List.exists_cons_of_ne_nil hjoin
  have hquote : ch ≠ '"' := by
    rcases hmem ch List.mem_cons_self with hword | rfl
    · exact ne_of_isWord hword (by decide)
    · decide
  have htake := takeWhile_append_stop hrun hstop
  have hdrop : ((ch :: raw) ++ rest).dropWhile
      (fun c => chars.isAlnum c || decide (c ∈ "_.".toList)) = rest := by
    have happend := List.takeWhile_append_dropWhile
      (p := fun c => chars.isAlnum c || decide (c ∈ "_.".toList)) (l := (ch :: raw) ++ rest)
    rw [htake] at happend
    exact List.append_cancel_left happend
  rw [List.cons_append] at htake hdrop ⊢
  simp only [consumeTableName]
  rw [if_neg hquote, htake, hdrop, hsplit]
  simp

theorem consumeTableName_quoted {name : Str} (rest : Str) (hne : name ≠ []) (hquote : '"' ∉ name) :
    consumeTableName chars ('"' :: (name ++ '"' :: rest)) = some (name, rest) := by
  rw [consumeTableName, if_pos rfl, cutAt_char_append rest hquote]
  simp only
  rw [if_neg hne]

theorem consumeTableName_unclosed {rest : Str} (hquote : '"' ∉ rest) :
    consumeTableName chars ('"' :: rest) = none := by
  rw [consumeTableName, if_pos rfl, cutAt_eq_none hquote]

theorem splitTableName_of_ends {raw : Str} (hquote : '"' ∉ raw)
    (hhead : ∀ ch ∈ raw.head?, isSpace ch = false)
    (hlast : ∀ ch ∈ raw.getLast?, isSpace ch = false) :
    splitTableName raw = (cutAt ".".toList raw).elim ("public".toList, raw) fun cut =>
      (stripChars ['"'] cut.1, stripChars ['"'] cut.2) := by
  rw [splitTableName, strip_of_ends hhead hlast, stripChars_of_not_mem hquote]
  cases cutAt ".".toList raw <;> rfl

/-- The name of a table that was written in quotes is found again exactly where it has no dot
    and no white space at its ends. -/
theorem splitTableName_quoted_iff {name : Str} (hquote : '"' ∉ name) :
    splitTableName name = ("public".toList, name) ↔ '.' ∉ name ∧
      (∀ ch ∈ name.head?, isSpace ch = false) ∧ ∀ ch ∈ name.getLast?, isSpace ch = false := by
  constructor
  · intro h
    have hstripped : stripChars ['"'] (strip name) = strip name :=
      stripChars_of_not_mem fun hmem => hquote ((strip_isInfix name).mem hmem)
    rw [splitTableName, hstripped] at h
    by_cases hdot : '.' ∈ strip name
    · -- The text behind the dot is too short to be the whole name.
      obtain ⟨before, after, hsplit, hbefore⟩ := List.eq_append_cons_of_mem hdot
      have hcut : cutAt ".".toList (strip name) = some (before, after) := by
        rw [hsplit]
        exact cutAt_char_append after hbefore
      have hafter : stripChars ['"'] after = after := by
        refine stripChars_of_not_mem fun hmem => hquote ((strip_isInfix name).mem ?_)
        rw [hsplit]
        exact List.mem_append_right _ (List.mem_cons_of_mem _ hmem)
      rw [hcut] at h
      simp only [hafter] at h
      have hname : after = name := (Prod.mk.inj h).2
      have hle := (strip_isInfix name).length_le
      rw [hsplit, hname, List.length_append, List.length_cons] at hle
      omega
    · have hnone : cutAt ".".toList (strip name) = none := cutAt_eq_none hdot
      rw [hnone] at h
      have hname : strip name = name := (Prod.mk.inj h).2
      rw [hname] at hdot
      exact ⟨hdot, hname ▸ isSpace_head_strip name, hname ▸ isSpace_getLast_strip name⟩
  · rintro ⟨hdot, hhead, hlast⟩
    have hnone : cutAt ".".toList name = none := cutAt_eq_none hdot
    rw [splitTableName_of_ends hquote hhead hlast, hnone]
    rfl

/-! ## Behind the name -/

theorem mem_lstrip {s : Str} {ch : Char} (h : ch ∈ s) :
    isSpace ch = true ∨ ch ∈ lstrip s := by
  rw [← List.takeWhile_append_dropWhile (p := isSpace) (l := s), List.mem_append] at h
  exact h.imp (fun h => List.mem_takeWhile_imp h) id

theorem mem_strip {s : Str} {ch : Char} (h : ch ∈ s) : isSpace ch = true ∨ ch ∈ strip s := by
  rcases mem_lstrip h with h | h
  · exact .inl h
  · rcases mem_lstrip (List.mem_reverse.mpr h) with h | h
    · exact .inl h
    · exact .inr (List.mem_reverse.mpr h)

/-- What is written in letters of ASCII is a word. -/
theorem isWord_of_isWordIgnoreCase {word : String} {s : Str}
    (hword : ∀ l ∈ word.toList, l.isLower = true) (h : isWordIgnoreCase word s = true) :
    ∀ ch ∈ s, chars.isWord ch = true := by
  intro ch hch
  have hlower : s.map Char.toLower = word.toList := of_decide_eq_true h
  exact isWord_of_isAlphanum
    (isAlphanum_of_toLower (hword _ (hlower ▸ List.mem_map_of_mem hch)) rfl)

theorem length_of_isWordIgnoreCase {word : String} {s : Str} (h : isWordIgnoreCase word s = true) :
    s.length = word.toList.length := by
  have hlength := congrArg List.length (of_decide_eq_true h)
  rwa [List.length_map] at hlength

/-- Of the characters behind a name, only words, white space and the brace are read. -/
theorem mem_tail {tail : Str} (h : tableHeaderTailOk chars tail = true) :
    ∀ ch ∈ tail, isSpace ch = true ∨ chars.isWord ch = true ∨ ch = '\x7b' := by
  have hok {rest : Str} (hrest : (rest = [] || rest = "\x7b".toList) = true) :
      ∀ ch ∈ rest, ch = '\x7b' := by
    intro ch hch
    rw [Bool.or_eq_true, decide_eq_true_eq, decide_eq_true_eq] at hrest
    rcases hrest with rfl | rfl
    · exact absurd hch List.not_mem_nil
    · simpa using hch
  intro ch hch
  rcases mem_strip hch with hch | hch
  · exact .inl hch
  rw [tableHeaderTailOk] at h
  simp only at h
  split_ifs at h with hnil has hword
  · rw [hnil] at hch
    exact absurd hch List.not_mem_nil
  · rw [Bool.and_eq_true] at has
    have hletters : ∀ c ∈ (strip tail).take 2, chars.isWord c = true :=
      isWord_of_isWordIgnoreCase (by simp) has.1
    rw [← List.take_append_drop 2 (strip tail), List.mem_append] at hch
    rcases hch with hch | hch
    · exact .inr (.inl (hletters ch hch))
    rcases mem_lstrip hch with hch | hch
    · exact .inl hch
    rw [← List.takeWhile_append_dropWhile (p := chars.isWord)
      (l := lstrip ((strip tail).drop 2)), List.mem_append] at hch
    rcases hch with hch | hch
    · exact .inr (.inl (List.mem_takeWhile_imp hch))
    rcases mem_lstrip hch with hch | hch
    · exact .inl hch
    · exact .inr (.inr (hok h ch hch))
  · exact .inr (.inr (hok h ch hch))

/-- White space and a brace, or nothing, behind the name. -/
theorem Opening.strip_text (o : Opening) : strip o.text = [] ∨ strip o.text = "\x7b".toList := by
  cases o with
  | here gap blank =>
      have hstrip := @strip_around gap "\x7b".toList [] blank.isSpace (by simp)
        (by simp) (by simp; decide) (by simp; decide)
      rw [List.append_nil] at hstrip
      exact .inr hstrip
  | next margin => exact .inl rfl

/-- What the header ends with is read behind an alias, too. -/
theorem Opening.lstrip_text (o : Opening) : lstrip o.text = [] ∨ lstrip o.text = "\x7b".toList := by
  cases o with
  | here gap blank =>
      refine .inr ?_
      rw [text, lstrip_append_of_isSpace _ blank.isSpace]
      rfl
  | next margin => exact .inl rfl

theorem tableHeaderTailOk_opening (o : Opening) : tableHeaderTailOk chars o.text = true := by
  rw [tableHeaderTailOk]
  rcases o.strip_text with hstrip | hstrip <;> rw [hstrip] <;> rfl

theorem Opening.endsWord_text (o : Opening) : EndsWord chars o.text := by
  cases o with
  | here gap blank =>
      cases gap with
      | nil => exact endsWord_cons [] (by decide)
      | cons ch gap => exact blank.endsWord (by simp) _
  | next margin => exact endsWord_nil

theorem Alias.isWord_keyword (a : Alias chars) : ∀ ch ∈ a.keyword, chars.isWord ch = true :=
  isWord_of_isWordIgnoreCase (by simp) a.isKeyword

theorem Alias.keyword_ne_nil (a : Alias chars) : a.keyword ≠ [] := by
  intro he
  have hlength : a.keyword.length = 2 := length_of_isWordIgnoreCase a.isKeyword
  rw [he] at hlength
  exact absurd hlength (by decide)

/-- Stripping leaves the alias, and the brace where there is one. -/
theorem exists_strip_alias {a : Alias chars} {word : Str} (hname : a.name = .bare word)
    (o : Opening) : ∃ rest, strip (a.text ++ o.text) =
      a.keyword ++ (a.after.text ++ (word ++ rest)) ∧ EndsWord chars rest ∧
      (lstrip rest = [] ∨ lstrip rest = "\x7b".toList) := by
  obtain ⟨hne, hword⟩ : word ≠ [] ∧ ∀ ch ∈ word, chars.isWord ch = true := by
    have hvalid := a.valid_name
    rwa [hname] at hvalid
  have htext : a.text ++ o.text =
      a.before.text ++ ((a.keyword ++ (a.after.text ++ word)) ++ o.text) := by
    rw [Alias.text, hname]
    simp [Ident.text]
  have hhead (s : Str) : ∀ ch ∈ (a.keyword ++ s).head?, isSpace ch = false := by
    rw [List.head?_append_of_ne_nil _ a.keyword_ne_nil]
    exact fun ch hch => isSpace_of_isWord (a.isWord_keyword ch (List.mem_of_mem_head? hch))
  cases o with
  | here gap blank =>
      refine ⟨_, ?_, (Opening.here gap blank).endsWord_text, (Opening.here gap blank).lstrip_text⟩
      rw [htext, Opening.text]
      have hstrip := @strip_around a.before.text
        (a.keyword ++ (a.after.text ++ word) ++ (gap ++ "\x7b".toList)) [] a.before.blank.isSpace
        (by simp) (by simp) ?_ ?_
      · simpa using hstrip
      · rw [List.append_assoc]
        exact hhead _
      · simp
        decide
  | next margin =>
      refine ⟨[], ?_, endsWord_nil, .inl rfl⟩
      rw [htext, Opening.text]
      have hstrip := @strip_around a.before.text (a.keyword ++ (a.after.text ++ word)) []
        a.before.blank.isSpace (by simp) (by simp [a.keyword_ne_nil]) (hhead _) ?_
      · simpa using hstrip
      · rw [← List.append_assoc, List.getLast?_append_of_ne_nil _ hne]
        exact fun ch hch => isSpace_of_isWord (hword ch (List.mem_of_getLast? hch))

/-- **An alias that is a word** is read. -/
theorem tableHeaderTailOk_alias {a : Alias chars} {word : Str} (hname : a.name = .bare word)
    (o : Opening) : tableHeaderTailOk chars (a.text ++ o.text) = true := by
  obtain ⟨hne, hword⟩ : word ≠ [] ∧ ∀ ch ∈ word, chars.isWord ch = true := by
    have hvalid := a.valid_name
    rwa [hname] at hvalid
  have hlength : a.keyword.length = 2 := length_of_isWordIgnoreCase a.isKeyword
  obtain ⟨rest, hrest, hstop, hok⟩ := exists_strip_alias hname o
  have hlstrip : lstrip (a.after.text ++ (word ++ rest)) = word ++ rest := by
    rw [lstrip_append_of_isSpace _ a.after.blank.isSpace]
    refine lstrip_of_head fun ch hch => ?_
    rw [List.head?_append_of_ne_nil _ hne] at hch
    exact isSpace_of_isWord (hword ch (List.mem_of_mem_head? hch))
  have hspace : (a.after.text ++ (word ++ rest)).head?.all isSpace = true := by
    obtain ⟨ch, text, hgap⟩ := List.exists_cons_of_ne_nil a.after.ne_nil
    have hch := a.after.blank.isSpace ch (by rw [hgap]; exact List.mem_cons_self)
    rw [hgap]
    exact hch
  have hdrop : (word ++ rest).dropWhile chars.isWord = rest := by
    have happend := List.takeWhile_append_dropWhile (p := chars.isWord) (l := word ++ rest)
    rw [takeWhile_append_stop hword hstop] at happend
    exact List.append_cancel_left happend
  have hne' : a.keyword ++ (a.after.text ++ (word ++ rest)) ≠ [] :=
    List.append_ne_nil_of_left_ne_nil a.keyword_ne_nil _
  have htake : (a.keyword ++ (a.after.text ++ (word ++ rest))).take 2 = a.keyword := by
    rw [← hlength, List.take_left]
  have hbehind : (a.keyword ++ (a.after.text ++ (word ++ rest))).drop 2 =
      a.after.text ++ (word ++ rest) := by
    rw [← hlength, List.drop_left]
  rw [tableHeaderTailOk, hrest]
  simp only
  rw [if_neg hne', htake, hbehind, a.isKeyword, hspace, Bool.and_self, if_pos rfl, hlstrip,
    takeWhile_append_stop hword hstop, if_neg hne, hdrop]
  simpa using hok

/-! ## What the parser can read -/

/-- A name that the parser reads: words, or, for a table alone, a text in quotes without a dot,
    two slashes or white space at its ends. -/
def TableName.Readable : TableName → Prop
  | ⟨none, .bare _⟩ => True
  | ⟨some (.bare _), .bare _⟩ => True
  | ⟨none, .quoted name⟩ => '.' ∉ name ∧ ¬ "//".toList <:+: name ∧
      (∀ ch ∈ name.head?, isSpace ch = false) ∧ ∀ ch ∈ name.getLast?, isSpace ch = false
  | ⟨some _, _⟩ => False

/-- A header that the parser reads: it has no settings, and its alias is a word. -/
structure Header.Readable (h : Header chars) : Prop where
  name : h.name.Readable
  asName : ∀ a ∈ h.asName, ∃ word, a.name = .bare word
  settings : h.settings = none

/-- The header of a table begins with its keyword. -/
theorem parseTableHeader_keyword {keyword : Str}
    (hkeyword : isWordIgnoreCase "table" keyword = true) (gap : Gap) {s : Str}
    (hs : ∀ ch ∈ s.head?, isSpace ch = false) :
    parseTableHeader chars (keyword ++ (gap.text ++ s)) =
      (consumeTableName chars s).bind fun read =>
        if tableHeaderTailOk chars read.2 then some (splitTableName read.1) else none := by
  have hlength : keyword.length = 5 := length_of_isWordIgnoreCase hkeyword
  have hspace : (gap.text ++ s).head?.any isSpace = true := by
    obtain ⟨ch, text, hgap⟩ := List.exists_cons_of_ne_nil gap.ne_nil
    have hch := gap.blank.isSpace ch (by rw [hgap]; exact List.mem_cons_self)
    rw [hgap]
    exact hch
  have htake : (keyword ++ (gap.text ++ s)).take 5 = keyword := by rw [← hlength, List.take_left]
  have hdrop : (keyword ++ (gap.text ++ s)).drop 5 = gap.text ++ s := by
    rw [← hlength, List.drop_left]
  rw [parseTableHeader, htake, hdrop, hkeyword, hspace, Bool.and_self, if_pos rfl,
    lstrip_append_of_isSpace _ gap.blank.isSpace, lstrip_of_head hs]
  cases consumeTableName chars s <;> rfl

/-- A readable name is read, whatever follows it. -/
theorem TableName.Readable.consume {t : TableName} (h : t.Readable) (hvalid : t.Valid chars) :
    ∃ raw, splitTableName raw = t.key ∧ ∀ rest, EndsName chars rest →
      consumeTableName chars (t.text ++ rest) = some (raw, rest) := by
  have hends {s : Str} (h : ∀ ch ∈ s, chars.isWord ch = true) :
      (∀ ch ∈ s.head?, isSpace ch = false) ∧ ∀ ch ∈ s.getLast?, isSpace ch = false :=
    ⟨fun ch hch => isSpace_of_isWord (h ch (List.mem_of_mem_head? hch)),
      fun ch hch => isSpace_of_isWord (h ch (List.mem_of_getLast? hch))⟩
  have hmissing {s : Str} (h : ∀ ch ∈ s, chars.isWord ch = true) {ch : Char}
      (hch : ch ∈ punctuation) : ch ∉ s := fun hmem => ne_of_isWord (h _ hmem) hch rfl
  obtain ⟨hschema, htable⟩ := hvalid
  match t, h with
  | ⟨none, .bare word⟩, _ =>
      obtain ⟨hne, hword⟩ := htable
      refine ⟨word, ?_, fun rest hrest => ?_⟩
      · have hnone : cutAt ".".toList word = none := cutAt_eq_none (hmissing hword (by decide))
        rw [splitTableName_of_ends (hmissing hword (by decide)) (hends hword).1 (hends hword).2,
          hnone]
        rfl
      · have hread := @consumeTableName_join chars [word] rest (by simpa using hword) (by simp)
          (by simpa using hne) hrest
        simpa [text, Ident.text, hne] using hread
  | ⟨some (.bare schema), .bare word⟩, _ =>
      obtain ⟨hne, hword⟩ := htable
      obtain ⟨hschemaNe, hschema⟩ := hschema _ rfl
      have hjoin : join ['.'] [schema, word] = schema ++ ".".toList ++ word := by
        simp [join_cons_cons]
      refine ⟨join ['.'] [schema, word], ?_, fun rest hrest => ?_⟩
      · have hcut : cutAt ".".toList (join ['.'] [schema, word]) = some (schema, word) := by
          rw [hjoin, List.append_assoc]
          exact cutAt_char_append word (hmissing hschema (by decide))
        have hquote : '"' ∉ join ['.'] [schema, word] := by
          rw [hjoin]
          simp [hmissing hschema (show '"' ∈ punctuation by decide),
            hmissing hword (show '"' ∈ punctuation by decide)]
        have hfirst : ∀ ch ∈ (join ['.'] [schema, word]).head?, isSpace ch = false := by
          rw [hjoin, List.append_assoc, List.head?_append_of_ne_nil _ hschemaNe]
          exact (hends hschema).1
        have hlast : ∀ ch ∈ (join ['.'] [schema, word]).getLast?, isSpace ch = false := by
          rw [hjoin, List.getLast?_append_of_ne_nil _ hne]
          exact (hends hword).2
        rw [splitTableName_of_ends hquote hfirst hlast, hcut, Option.elim_some,
          stripChars_of_not_mem (hmissing hschema (by decide)),
          stripChars_of_not_mem (hmissing hword (by decide))]
        rfl
      · have hread := @consumeTableName_join chars [schema, word] rest
          (by simpa using ⟨hschema, hword⟩) (by simp) (by simp [hjoin]) hrest
        rw [hjoin] at hread ⊢
        simpa [text, Ident.text, hne, hschemaNe] using hread
  | ⟨none, .quoted name⟩, ⟨hdot, _, hhead, hlast⟩ =>
      obtain ⟨hne, hquote, -⟩ := htable
      refine ⟨name, (splitTableName_quoted_iff hquote).mpr ⟨hdot, hhead, hlast⟩,
        fun rest _ => ?_⟩
      have hread := @consumeTableName_quoted chars name rest hne hquote
      simpa [text, Ident.text, doubleQuoted] using hread

/-- A valid name begins and ends with a visible character. -/
theorem Ident.Valid.isSpace_ends {i : Ident} (h : i.Valid chars) :
    i.text ≠ [] ∧ (∀ ch ∈ i.text.head?, isSpace ch = false) ∧
      ∀ ch ∈ i.text.getLast?, isSpace ch = false := by
  cases i with
  | bare word =>
      exact ⟨h.1, fun ch hch => isSpace_of_isWord (h.2 ch (List.mem_of_mem_head? hch)),
        fun ch hch => isSpace_of_isWord (h.2 ch (List.mem_of_getLast? hch))⟩
  | quoted name =>
      have hlast : (Ident.quoted name).text.getLast? = some '"' := List.getLast?_concat
      refine ⟨by simp [text, doubleQuoted], by simp [text, doubleQuoted]; decide, ?_⟩
      rw [hlast]
      simp
      decide

/-- A name begins with a letter, a digit, an underscore or a quote. -/
theorem Ident.Valid.exists_first {i : Ident} (h : i.Valid chars) :
    ∃ ch rest, i.text = ch :: rest ∧ (chars.isWord ch = true ∨ ch = '"') := by
  cases i with
  | bare word =>
      obtain ⟨ch, rest, rfl⟩ := List.exists_cons_of_ne_nil h.1
      exact ⟨ch, rest, rfl, .inl (h.2 ch List.mem_cons_self)⟩
  | quoted name => exact ⟨'"', _, rfl, .inr rfl⟩

/-- No comment begins in a name without two slashes. -/
theorem Ident.Valid.noComment {i : Ident} (h : i.Valid chars)
    (hslashes : ¬ "//".toList <:+: i.name) : NoComment i.text := by
  cases i with
  | bare word => exact noComment_of_isWord h.2
  | quoted name =>
      have hname : ¬ "//".toList <:+: name := hslashes
      have hquoted := (@noComment_of_not_mem ['"'] (by decide)).append
        (noComment_concat hname (show '"' ≠ '/' by decide))
      simpa [Ident.text, doubleQuoted] using hquoted

theorem TableName.Valid.isSpace_head {t : TableName} (h : t.Valid chars) (rest : Str) :
    ∀ ch ∈ (t.text ++ rest).head?, isSpace ch = false := by
  obtain ⟨schema, table⟩ := t
  cases schema with
  | none =>
      obtain ⟨hne, hhead, -⟩ := h.2.isSpace_ends
      rw [text, Option.elim_none, List.nil_append, List.head?_append_of_ne_nil _ hne]
      exact hhead
  | some schema =>
      obtain ⟨hne, hhead, -⟩ := (h.1 schema rfl).isSpace_ends
      rw [text, Option.elim_some, List.append_assoc, List.append_assoc,
        List.head?_append_of_ne_nil _ hne]
      exact hhead

/-- No comment begins in a readable name. -/
theorem TableName.Readable.noComment {t : TableName} (h : t.Readable) (hvalid : t.Valid chars) :
    NoComment t.text := by
  match t, h with
  | ⟨none, .bare word⟩, _ => exact noComment_of_isWord hvalid.2.2
  | ⟨some (.bare schema), .bare word⟩, _ =>
      exact ((noComment_of_isWord (hvalid.1 _ rfl).2).append
        (noComment_of_not_mem (by decide))).append (noComment_of_isWord hvalid.2.2)
  | ⟨none, .quoted name⟩, ⟨_, hslashes, _, _⟩ =>
      exact hvalid.2.noComment hslashes

namespace Header

variable (h : Header chars)

theorem isWord_keyword : ∀ ch ∈ h.keyword, chars.isWord ch = true :=
  isWord_of_isWordIgnoreCase (by simp) h.isKeyword

theorem keyword_ne_nil : h.keyword ≠ [] := by
  intro he
  have hlength := length_of_isWordIgnoreCase h.isKeyword
  rw [he] at hlength
  exact absurd hlength (by decide)

/-- The line of a header ends with a visible character. -/
theorem isSpace_getLast : ∀ ch ∈ h.text.getLast?, isSpace ch = false := by
  have htable := h.valid_name.2.isSpace_ends
  have hname : h.name.text.getLast? = h.name.table.text.getLast? := by
    rw [TableName.text, List.getLast?_append_of_ne_nil _ htable.1]
  have hnameNe : h.name.text ≠ [] := by simp [TableName.text, htable.1]
  rw [text, ← List.append_assoc, ← List.append_assoc, tail]
  cases h.opening with
  | here gap blank =>
      rw [Opening.text, ← List.append_assoc, ← List.append_assoc, ← List.append_assoc,
        List.getLast?_append_of_ne_nil _ (by simp)]
      simp
      decide
  | next margin =>
      rw [Opening.text, List.append_nil]
      cases h.settings with
      | some settings =>
          have hbracket : ('[' :: (settings.inside ++ "]".toList)).getLast? = some ']' :=
            List.getLast?_concat (l := '[' :: settings.inside)
          rw [Option.elim_some, HeaderSettings.text, ← List.append_assoc,
            List.getLast?_append_of_ne_nil _ (by simp),
            List.getLast?_append_of_ne_nil _ (by simp), hbracket]
          simp
          decide
      | none =>
          rw [Option.elim_none, List.append_nil]
          cases h.asName with
          | some a =>
              obtain ⟨hne, -, hlast⟩ := a.valid_name.isSpace_ends
              rw [Option.elim_some, Alias.text, ← List.append_assoc, ← List.append_assoc,
                ← List.append_assoc, List.getLast?_append_of_ne_nil _ hne]
              exact hlast
          | none =>
              rw [Option.elim_none, List.append_nil, List.getLast?_append_of_ne_nil _ hnameNe,
                hname]
              exact htable.2.2

/-- The text of the header up to a place within the name or behind it. -/
theorem exists_line (start more : Str) (hsplit : h.name.text ++ h.tail = start ++ more)
    (hne : start ≠ []) (hlast : ∀ ch ∈ start.getLast?, isSpace ch = false)
    (hstart : NoComment start) (m : Margin) {line : Str}
    (hline : lineOf (m.around h.text) = some line) :
    ∃ rest, line = h.keyword ++ (h.gap.text ++ (start ++ rest)) := by
  have htext : m.around h.text = m.indent ++ ((h.keyword ++ (h.gap.text ++ start)) ++
      (more ++ (m.trail ++ m.commentText))) := by
    rw [Margin.around, text, hsplit]
    simp
  rw [htext] at hline
  have hkeyword : h.keyword ≠ [] := h.keyword_ne_nil
  obtain ⟨rest, rfl⟩ := lineOf_beginning _ m.blank_indent (by simp [hne])
    (by
      rw [List.head?_append_of_ne_nil _ hkeyword]
      exact fun ch hch => isSpace_of_isWord (h.isWord_keyword ch (List.mem_of_mem_head? hch)))
    (by
      rw [← List.append_assoc, List.getLast?_append_of_ne_nil _ hne]
      exact hlast)
    ((noComment_of_isWord h.isWord_keyword).append (h.gap.blank.noComment.append hstart)) hline
  exact ⟨rest, by simp⟩

/-- Two slashes within quotes begin a comment all the same, and the quotes are never closed. -/
theorem parseTableHeader_slashes {name : Str} (more : Str) (hquote : '"' ∉ name)
    (hslashes : "//".toList <:+: name) (hsplit : h.name.text ++ h.tail = '"' :: (name ++ more))
    (m : Margin) {line : Str} (hline : lineOf (m.around h.text) = some line) :
    parseTableHeader chars line = none := by
  have htext : m.around h.text = m.indent ++ ((h.keyword ++ (h.gap.text ++ ['"'])) ++
      (name ++ (more ++ (m.trail ++ m.commentText)))) := by
    rw [Margin.around, text, hsplit]
    simp
  have hstart : NoComment (h.keyword ++ (h.gap.text ++ ['"'])) :=
    (noComment_of_isWord h.isWord_keyword).append
      (h.gap.blank.noComment.append (noComment_of_not_mem (by decide)))
  rw [htext] at hline
  obtain ⟨rest, rfl, hrest⟩ := lineOf_slashes _ m.blank_indent (by simp)
    (by
      rw [List.head?_append_of_ne_nil _ h.keyword_ne_nil]
      exact fun ch hch => isSpace_of_isWord (h.isWord_keyword ch (List.mem_of_mem_head? hch)))
    (by simp; decide) hstart hslashes hline
  have hmissing : '"' ∉ rest := fun hmem => hquote (hrest _ hmem)
  rw [List.append_assoc, List.append_assoc, List.singleton_append,
    parseTableHeader_keyword h.isKeyword h.gap (by simp; decide),
    consumeTableName_unclosed hmissing]
  rfl

/-- What stands behind the name never goes on with it. -/
theorem endsName_tail : EndsName chars h.tail := by
  have hopening : EndsName chars h.opening.text := by
    cases h.opening with
    | here gap blank => exact blank.endsName (endsName_cons [] (by decide) (by decide))
    | next margin => exact fun ch hch => absurd hch (by simp [Opening.text])
  rw [tail]
  cases h.asName with
  | some a => simpa [Alias.text] using a.before.endsName _
  | none =>
      cases h.settings with
      | none => exact hopening
      | some settings =>
          simpa [HeaderSettings.text] using
            settings.blank_gap.endsName (endsName_cons _ (by decide) (by decide))

/-- Settings and an alias in quotes stand behind characters that begin no comment, with one that
    the parser reads nowhere behind a name. -/
theorem exists_bad_of_tail (hbad : ¬ ((∀ a ∈ h.asName, ∃ word, a.name = .bare word) ∧
    h.settings = none)) :
    ∃ start bad more, h.tail = start ++ [bad] ++ more ∧ NoComment start ∧ bad ∈ "\"[".toList := by
  have halias (a : Alias chars) : NoComment (a.before.text ++ (a.keyword ++ a.after.text)) :=
    a.before.blank.noComment.append ((noComment_of_isWord
      (@isWord_of_isWordIgnoreCase chars _ _ (by simp) a.isKeyword)).append
      a.after.blank.noComment)
  rw [tail]
  cases hname : h.asName with
  | some a =>
      cases haname : a.name with
      | quoted name =>
          refine ⟨_, '"', name ++ ('"' :: (h.settings.elim [] HeaderSettings.text ++
            h.opening.text)), ?_, halias a, by simp⟩
          simp [Alias.text, haname, Ident.text, doubleQuoted]
      | bare word =>
          obtain ⟨hne, hword⟩ : word ≠ [] ∧ ∀ ch ∈ word, chars.isWord ch = true := by
            have hvalid := a.valid_name
            rwa [haname] at hvalid
          cases hsettings : h.settings with
          | none =>
              refine absurd ⟨fun b hb => ?_, hsettings⟩ hbad
              rw [hname, Option.mem_some_iff] at hb
              exact ⟨word, hb ▸ haname⟩
          | some settings =>
              refine ⟨_, '[', settings.inside ++ (']' :: h.opening.text), ?_, (halias a).append
                ((noComment_of_isWord hword).append settings.blank_gap.noComment), by simp⟩
              simp [Alias.text, haname, Ident.text, HeaderSettings.text]
  | none =>
      cases hsettings : h.settings with
      | none => exact absurd ⟨by simp [hname], hsettings⟩ hbad
      | some settings =>
          refine ⟨_, '[', settings.inside ++ (']' :: h.opening.text), ?_,
            settings.blank_gap.noComment, by simp⟩
          simp [HeaderSettings.text]

variable {h}

/-- A name in quotes alone that was read for its table is readable. -/
theorem readable_quoted {m : Margin} {line : Str} (hline : lineOf (m.around h.text) = some line)
    (hread : parseTableHeader chars line = some h.name.key) {name : Str}
    (hname : h.name = ⟨none, .quoted name⟩) : h.name.Readable := by
  have htable := h.valid_name.2
  rw [hname] at htable ⊢
  obtain ⟨hne, hquote, -⟩ := htable
  by_cases hslashes : "//".toList <:+: name
  · rw [h.parseTableHeader_slashes ('"' :: h.tail) hquote hslashes
      (by rw [hname]; simp [TableName.text, Ident.text, doubleQuoted]) m hline] at hread
    exact absurd hread (by simp)
  · obtain ⟨rest, rfl⟩ := h.exists_line (['"'] ++ (name ++ ['"'])) (h.tail)
      (by rw [hname]; simp [TableName.text, Ident.text, doubleQuoted]) (by simp)
      (by rw [← List.append_assoc, List.getLast?_concat]; simp; decide)
      ((noComment_of_not_mem (by decide)).append (noComment_concat hslashes (by decide)))
      m hline
    have hconsume : consumeTableName chars (['"'] ++ (name ++ ['"']) ++ rest) =
        some (name, rest) := by
      simpa using @consumeTableName_quoted chars name rest hne hquote
    rw [parseTableHeader_keyword h.isKeyword h.gap (by simp; decide), hconsume,
      Option.bind_some] at hread
    split_ifs at hread
    have hsplit : splitTableName name = ("public".toList, name) := by
      rw [Option.some.inj hread, hname]
      rfl
    obtain ⟨hdot, hhead, hlast⟩ := (splitTableName_quoted_iff hquote).mp hsplit
    exact ⟨hdot, hslashes, hhead, hlast⟩

/-- Behind a schema in quotes the parser reads no table. -/
theorem unread_quoted_schema {m : Margin} {line : Str}
    (hline : lineOf (m.around h.text) = some line) {schema : Str} {table : Ident}
    (hname : h.name = ⟨some (.quoted schema), table⟩) :
    parseTableHeader chars line ≠ some h.name.key := by
  intro hread
  have hschema := h.valid_name.1
  rw [hname] at hschema
  obtain ⟨hne, hquote, -⟩ := hschema _ rfl
  by_cases hslashes : "//".toList <:+: schema
  · rw [h.parseTableHeader_slashes ('"' :: ('.' :: (table.text ++ h.tail))) hquote
      hslashes (by rw [hname]; simp [TableName.text, Ident.text, doubleQuoted]) m
      hline] at hread
    exact absurd hread (by simp)
  · obtain ⟨rest, rfl⟩ := h.exists_line (['"'] ++ (schema ++ ['"'] ++ ['.']))
      (table.text ++ h.tail)
      (by rw [hname]; simp [TableName.text, Ident.text, doubleQuoted]) (by simp)
      (by rw [← List.append_assoc, List.getLast?_concat]; simp; decide)
      ((noComment_of_not_mem (by decide)).append
        ((noComment_concat hslashes (by decide)).append (noComment_of_not_mem (by decide))))
      m hline
    have hconsume : consumeTableName chars (['"'] ++ (schema ++ ['"'] ++ ['.']) ++ rest) =
        some (schema, '.' :: rest) := by
      simpa using @consumeTableName_quoted chars schema ('.' :: rest) hne hquote
    rw [parseTableHeader_keyword h.isKeyword h.gap (by simp; decide), hconsume,
      Option.bind_some] at hread
    split_ifs at hread with htail
    rcases mem_tail htail '.' List.mem_cons_self with hdot | hdot | hdot
    · exact absurd hdot (by decide)
    · exact absurd rfl (ne_of_isWord hdot (show '.' ∈ punctuation by decide))
    · exact absurd hdot (by decide)

/-- Behind a schema that is a word the parser reads no table in quotes. -/
theorem unread_quoted_table {m : Margin} {line : Str}
    (hline : lineOf (m.around h.text) = some line) {schema table : Str}
    (hname : h.name = ⟨some (.bare schema), .quoted table⟩) :
    parseTableHeader chars line ≠ some h.name.key := by
  intro hread
  have hschema := h.valid_name.1
  rw [hname] at hschema
  obtain ⟨hne, hword⟩ := hschema _ rfl
  obtain ⟨rest, rfl⟩ := h.exists_line (schema ++ ['.', '"']) (table ++ ('"' :: h.tail))
    (by rw [hname]; simp [TableName.text, Ident.text, doubleQuoted]) (by simp)
    (by simp; decide)
    ((noComment_of_isWord hword).append (noComment_of_not_mem (by decide))) m hline
  have hstop : EndsName chars ('"' :: rest) := endsName_cons _ (by decide) (by decide)
  have hjoin : join ['.'] [schema, []] = schema ++ ['.'] := by simp [join_cons_cons]
  have hconsume := @consumeTableName_join chars [schema, []] ('"' :: rest)
    (by simpa using hword) (by simp) (by simp [hjoin]) hstop
  rw [hjoin, if_pos (by simp)] at hconsume
  have htext : schema ++ ['.', '"'] ++ rest = schema ++ ['.'] ++ '"' :: rest := by simp
  have hhead : ∀ ch ∈ (schema ++ ['.', '"'] ++ rest).head?, isSpace ch = false := by
    rw [List.append_assoc, List.head?_append_of_ne_nil _ hne]
    exact fun ch hch => isSpace_of_isWord (hword ch (List.mem_of_mem_head? hch))
  rw [parseTableHeader_keyword h.isKeyword h.gap hhead, htext, hconsume] at hread
  exact absurd hread (by simp)

/-- The name of a header that was read for its table is readable. -/
theorem readable_name {m : Margin} {line : Str} (hline : lineOf (m.around h.text) = some line)
    (hread : parseTableHeader chars line = some h.name.key) : h.name.Readable := by
  match hname : h.name with
  | ⟨none, .bare _⟩ => trivial
  | ⟨some (.bare _), .bare _⟩ => trivial
  | ⟨none, .quoted _⟩ => exact hname ▸ readable_quoted hline hread hname
  | ⟨some (.quoted _), _⟩ => exact absurd hread (unread_quoted_schema hline hname)
  | ⟨some (.bare _), .quoted _⟩ => exact absurd hread (unread_quoted_table hline hname)

/-- Of a header that was read, the alias is a word, and there are no settings. -/
theorem readable_tail {m : Margin} {line : Str} (hline : lineOf (m.around h.text) = some line)
    (hread : parseTableHeader chars line = some h.name.key) :
    (∀ a ∈ h.asName, ∃ word, a.name = .bare word) ∧ h.settings = none := by
  by_contra hbad
  obtain ⟨start, bad, more, htail, hstart, hmem⟩ := h.exists_bad_of_tail hbad
  obtain ⟨raw, -, hconsume⟩ := (readable_name hline hread).consume h.valid_name
  have hbad : bad = '"' ∨ bad = '[' := by simpa using hmem
  obtain ⟨rest, rfl⟩ := h.exists_line (h.name.text ++ (start ++ [bad])) more
    (by rw [htail]; simp) (by simp)
    (by
      rw [← List.append_assoc, List.getLast?_concat]
      rcases hbad with rfl | rfl <;> simp <;> decide)
    ((readable_name hline hread).noComment h.valid_name |>.append
      (hstart.append (noComment_of_not_mem (by rcases hbad with rfl | rfl <;> decide)))) m hline
  have hends : EndsName chars (start ++ [bad] ++ rest) := by
    have htailEnds := h.endsName_tail
    rw [htail] at htailEnds
    rw [EndsName, List.head?_append_of_ne_nil _ (by simp)] at htailEnds ⊢
    exact htailEnds
  have hhead : ∀ ch ∈ (h.name.text ++ (start ++ [bad]) ++ rest).head?, isSpace ch = false := by
    rw [List.append_assoc]
    exact h.valid_name.isSpace_head _
  rw [parseTableHeader_keyword h.isKeyword h.gap hhead, List.append_assoc, hconsume _ hends,
    Option.bind_some] at hread
  split_ifs at hread with hok
  rcases mem_tail hok bad (by simp) with hspace | hword | hbrace
  · rcases hbad with rfl | rfl <;> exact absurd hspace (by decide)
  · refine ne_of_isWord hword (show bad ∈ punctuation from ?_) rfl
    rcases hbad with rfl | rfl <;> decide
  · rcases hbad with rfl | rfl <;> exact absurd hbrace (by decide)

/-- The tail of a readable header begins no comment and is read. -/
theorem Readable.tail (hr : h.Readable) :
    NoComment h.tail ∧ tableHeaderTailOk chars h.tail = true := by
  have hopening : NoComment h.opening.text := by
    cases h.opening with
    | here gap blank => exact blank.noComment.append (noComment_of_not_mem (by decide))
    | next margin => exact noComment_of_not_mem (by simp [Opening.text])
  rw [Header.tail, hr.settings]
  cases hname : h.asName with
  | none => exact ⟨hopening, tableHeaderTailOk_opening h.opening⟩
  | some a =>
      obtain ⟨word, hword⟩ := hr.asName a hname
      obtain ⟨-, hchars⟩ : word ≠ [] ∧ ∀ ch ∈ word, chars.isWord ch = true := by
        have hvalid := a.valid_name
        rwa [hword] at hvalid
      refine ⟨NoComment.append ?_ hopening, tableHeaderTailOk_alias hword h.opening⟩
      rw [Option.elim_some, Alias.text, hword]
      exact a.before.blank.noComment.append ((noComment_of_isWord
        (@isWord_of_isWordIgnoreCase chars _ _ (by simp) a.isKeyword)).append
        (a.after.blank.noComment.append (noComment_of_isWord hchars)))

/-- **A header is read** for its table exactly when its line is not too long and it is one that
    the parser can read. -/
theorem read_iff (h : Header chars) (m : Margin) :
    (lineOf (m.around h.text)).bind (parseTableHeader chars) = some h.name.key ↔
      (m.around h.text).length ≤ maxLine ∧ h.Readable := by
  constructor
  · intro hread
    obtain ⟨line, hline, hread⟩ := Option.bind_eq_some_iff.mp hread
    obtain ⟨hasName, hsettings⟩ := readable_tail hline hread
    refine ⟨?_, readable_name hline hread, hasName, hsettings⟩
    rw [lineOf] at hline
    split_ifs at hline with hlong
    exact Nat.not_lt.mp hlong
  · rintro ⟨hlength, hr⟩
    obtain ⟨raw, hkey, hconsume⟩ := hr.name.consume h.valid_name
    obtain ⟨hcomment, hok⟩ := hr.tail
    have hline := @lineOf_around m h.text (by simp [text, h.keyword_ne_nil])
      (by
        rw [text, List.head?_append_of_ne_nil _ h.keyword_ne_nil]
        exact fun ch hch => isSpace_of_isWord (h.isWord_keyword ch (List.mem_of_mem_head? hch)))
      h.isSpace_getLast
      ((noComment_of_isWord h.isWord_keyword).append (h.gap.blank.noComment.append
        ((hr.name.noComment h.valid_name).append hcomment)))
    rw [hline, if_neg (Nat.not_lt.mpr hlength), Option.bind_some, text,
      parseTableHeader_keyword h.isKeyword h.gap (h.valid_name.isSpace_head _),
      hconsume _ h.endsName_tail, Option.bind_some, hok, if_pos rfl, hkey]

/-- A header is one line. -/
theorem oneLine_text (h : Header chars) : OneLine h.text := by
  have hkeyword {word : String} {s : Str} (hword : ∀ l ∈ word.toList, l.isLower = true)
      (hs : isWordIgnoreCase word s = true) : OneLine s :=
    fun ch hch => isLineBreak_of_isWord (@isWord_of_isWordIgnoreCase chars _ _ hword hs ch hch)
  have hname : OneLine h.name.text := by
    obtain ⟨hschema, htable⟩ := h.valid_name
    rw [TableName.text, oneLine_append]
    refine ⟨?_, htable.oneLine_text⟩
    cases hnone : h.name.schema with
    | none => simp [OneLine]
    | some schema =>
        rw [Option.elim_some, oneLine_append]
        exact ⟨(hschema schema hnone).oneLine_text, by simp [OneLine, isLineBreak]⟩
  have halias : OneLine (h.asName.elim [] Alias.text) := by
    cases h.asName with
    | none => simp [OneLine]
    | some a =>
        rw [Option.elim_some, Alias.text, oneLine_append, oneLine_append, oneLine_append]
        exact ⟨a.before.blank.oneLine, hkeyword (by simp) a.isKeyword, a.after.blank.oneLine,
          a.valid_name.oneLine_text⟩
  have hsettings : OneLine (h.settings.elim [] HeaderSettings.text) := by
    cases h.settings with
    | none => simp [OneLine]
    | some settings =>
        rw [Option.elim_some, HeaderSettings.text, oneLine_append, oneLine_cons, oneLine_append]
        exact ⟨settings.blank_gap.oneLine, by decide, settings.oneLine_inside,
          by simp [OneLine, isLineBreak]⟩
  have hopening : OneLine h.opening.text := by
    cases h.opening with
    | here gap blank =>
        rw [Opening.text, oneLine_append]
        exact ⟨blank.oneLine, by simp [OneLine, isLineBreak]⟩
    | next margin => simp [OneLine, Opening.text]
  rw [text, tail, oneLine_append, oneLine_append, oneLine_append, oneLine_append, oneLine_append]
  exact ⟨hkeyword (by simp) h.isKeyword, h.gap.blank.oneLine, hname, halias, hsettings, hopening⟩

end Header

end PgErdCloud.Dbml
