/-
  How the parser reads a line of the form `name type [settings]`: which lines of a table it
  takes for something else by their first word, and what it reads of the others.
-/
import PgErdCloud.Dbml.LineFacts
import PgErdCloud.Lib.RegexWords

namespace PgErdCloud.Dbml

open Lib Lib.PyStr Lib.Regex

variable {chars : Chars} {β : Type} {k : Match → Option β} {r : β}

/-! ## The parts of the pattern -/

/-- How a name is read: its group, and what the group read. -/
def Ident.group : Ident → String
  | bare _ => "name"
  | quoted _ => "qname"

/-- The name of a column. -/
def nameRe (chars : Chars) : Regex :=
  .any [quotedName (.group "qname"), .group "name" (.plus (.one chars.isWord))]

theorem first_nameRe {i : Ident} (hi : i.Valid chars) {rest : Str} (hrest : EndsWord chars rest)
    (before : Str) (h : k ⟨i.text, [(i.group, i.name)]⟩ = some r) :
    first (nameRe chars) ⟨before, i.text ++ rest⟩ k = some r := by
  cases i with
  | bare word =>
      obtain ⟨hne, hword⟩ := hi
      refine first_right (Fails.seq (fails_lit fun c hc => ?_) _) ?_
      · obtain ⟨ch, word, rfl⟩ := List.exists_cons_of_ne_nil hne
        obtain rfl : ch = c := by simpa [Ident.text] using hc
        exact ne_of_isWord (hword ch List.mem_cons_self) (by decide)
      · exact first_group_of (first_plus hne hword hrest h)
  | quoted name =>
      obtain ⟨hne, hquote, -⟩ := hi
      have hrun : ∀ ch ∈ name, decide (ch ≠ '"') = true := by
        intro ch hch
        exact decide_eq_true fun he => hquote (he ▸ hch)
      simp only [Ident.text, doubleQuoted, List.append_assoc] at h ⊢
      refine first_left (first_all_of (first_lit_of ?_))
      rw [skip_append]
      refine first_all_of (first_group_of (first_plus hne hrun (by simp) ?_))
      rw [skip_append]
      refine first_all_of (first_lit_of (first_all_nil ?_))
      simpa [Match.andThen, Match.nothing, Ident.group, Ident.name] using h

/-- Text that does not go on with the type. -/
structure EndsType (chars : Chars) (rest : Str) : Prop where
  word : EndsWord chars rest
  paren : ∀ ch ∈ rest.head?, ch ≠ '('
  brackets : ∀ before, (lit "[]".toList).Fails ⟨before, rest⟩

/-- The type of a column. -/
def typeRe (chars : Chars) : Regex :=
  .all [.plus (.one chars.isWord),
      .opt (.all [.lit "(".toList, .star (.one (· ≠ ')')), .lit ")".toList]),
      .opt (.lit "[]".toList)]

theorem first_arrayRe {isArray : Bool} {rest : Str} (hrest : EndsType chars rest) (before : Str)
    (h : k ⟨if isArray then "[]".toList else [], []⟩ = some r) :
    first (opt (lit "[]".toList)) ⟨before, (if isArray then "[]".toList else []) ++ rest⟩ k =
      some r := by
  cases isArray with
  | true => exact first_opt (first_lit_of h)
  | false => exact first_opt_none (hrest.brackets _) h

theorem first_typeRe {t : TypeWord} (ht : t.Valid chars) {rest : Str} (hrest : EndsType chars rest)
    (before : Str) (h : k ⟨t.text, []⟩ = some r) :
    first (typeRe chars) ⟨before, t.text ++ rest⟩ k = some r := by
  obtain ⟨word, args, isArray⟩ := t
  obtain ⟨hne, hword, hargs⟩ := ht
  simp only at hne hword hargs
  have harray : EndsWord chars ((if isArray then "[]".toList else []) ++ rest) := by
    cases isArray with
    | true => exact endsWord_cons _ (by decide)
    | false => exact hrest.word
  cases args with
  | none =>
      simp only [TypeWord.text, Option.elim_none, List.append_nil, List.append_assoc] at h ⊢
      refine first_all_of (first_plus hne hword harray ?_)
      rw [skip_append]
      refine first_all_of (first_opt_none ?_ ?_)
      · refine Fails.seq (fails_lit fun c hc => ?_) _
        cases isArray with
        | true =>
            obtain rfl : '[' = c := by simpa using hc
            decide
        | false => exact hrest.paren c hc
      · rw [skip_nothing]
        refine first_all_of (first_arrayRe hrest _ (first_all_nil ?_))
        simpa [Match.andThen, Match.nothing] using h
  | some args =>
      obtain ⟨hparen, -⟩ := hargs args rfl
      have hrun : ∀ ch ∈ args, decide (ch ≠ ')') = true := by
        intro ch hch
        exact decide_eq_true fun he => hparen (he ▸ hch)
      simp only [TypeWord.text, Option.elim_some, List.append_assoc] at h ⊢
      refine first_all_of (first_plus hne hword (endsWord_cons _ (by decide)) ?_)
      rw [skip_append]
      refine first_all_of (first_opt (first_all_of (first_lit_of ?_)))
      rw [skip_append]
      refine first_all_of (first_star hrun (by simp) ?_)
      rw [skip_append]
      refine first_all_of (first_lit_of (first_all_nil ?_))
      have hread : (((⟨"(".toList, []⟩ : Match).andThen ((⟨args, []⟩ : Match).andThen
          ((⟨")".toList, []⟩ : Match).andThen .nothing))).text) =
          "(".toList ++ (args ++ ")".toList) := by
        simp [Match.andThen, Match.nothing]
      rw [hread, ← List.append_assoc args, ← List.append_assoc "(".toList, skip_append]
      refine first_all_of (first_arrayRe hrest _ (first_all_nil ?_))
      simpa [Match.andThen, Match.nothing] using h

/-- The settings of a column, and the end of its line. -/
def tailRe : Regex :=
  .all [.opt (.all [spaces, .lit "[".toList, .group "settings" (.star (.one (· ≠ '\n'))),
    .lit "]".toList]), spaces, .lineEnd]

/-! ## Columns -/

theorem Blank.endsWord {s : Str} (h : Blank s) (hne : s ≠ []) (rest : Str) :
    EndsWord chars (s ++ rest) := by
  obtain ⟨ch, s, rfl⟩ := List.exists_cons_of_ne_nil hne
  exact endsWord_cons _ (h.head_punctuation ch rfl)

theorem first_columnRe {i : Ident} {gap : Str} {t : TypeWord} {rest : Str} {m : Match}
    (hi : i.Valid chars) (hgap : Blank gap) (hne : gap ≠ []) (ht : t.Valid chars)
    (hrest : EndsType chars rest)
    (htail : first tailRe ⟨(i.text ++ gap ++ t.text).reverse, rest⟩ some = some m) :
    (columnRe chars).matchStart (i.text ++ (gap ++ (t.text ++ rest))) =
      some ⟨i.text ++ (gap ++ (t.text ++ m.text)),
        (i.group, i.name) :: ("type", t.text) :: m.groups⟩ := by
  have htype : ∀ ch ∈ (t.text ++ rest).head?, isSpace ch = false := by
    intro ch hch
    obtain ⟨first, word, hfirst⟩ := List.exists_cons_of_ne_nil ht.1
    obtain rfl : first = ch := by simpa [TypeWord.text, hfirst] using hch
    exact isSpace_of_isWord (ht.2.1 first (by rw [hfirst]; exact List.mem_cons_self))
  rw [matchStart, head?_ways]
  refine first_all_of ((first_here rfl).trans ?_)
  rw [skip_nothing]
  refine first_all_of (first_nameRe hi (hgap.endsWord hne _) _ ?_)
  rw [skip_append]
  refine first_all_of (first_plus hne hgap.isSpace htype ?_)
  rw [skip_append]
  refine first_all_of (first_group_of (first_typeRe ht hrest _ ?_))
  have hplace : Place.skip ⟨gap.reverse ++ (i.text.reverse ++ []), t.text ++ rest⟩ t.text =
      ⟨(i.text ++ gap ++ t.text).reverse, rest⟩ := by
    rw [skip_append]
    simp
  rw [hplace]
  refine (first_of_some htail _).trans ?_
  simp [Match.andThen, Match.nothing]

theorem Ident.Valid.quote_not_mem {i : Ident} (h : i.Valid chars) : '"' ∉ i.name := by
  cases i with
  | bare word => exact fun hmem => ne_of_isWord (h.2 _ hmem) (by decide) rfl
  | quoted name => exact h.2.1

variable {i : Ident} {gap : Str} {t : TypeWord}

/-- What is read of a column, once its settings are. -/
theorem parseColumn_of_tail {rest : Str} {m : Match}
    (hi : i.Valid chars) (hgap : Blank gap) (hne : gap ≠ []) (ht : t.Valid chars)
    (hrest : EndsType chars rest)
    (htail : first tailRe ⟨(i.text ++ gap ++ t.text).reverse, rest⟩ some = some m)
    (hgroups : ∀ g ∈ m.groups, g.1 = "settings") :
    parseColumn chars (i.text ++ (gap ++ (t.text ++ rest))) =
      some (i.name, t.text, (m.group "settings").getD []) := by
  have hnone {name : String} (h : name ≠ "settings") :
      m.groups.find? (fun g => g.1 = name) = none := by
    rw [List.find?_eq_none]
    intro g hg
    simpa [hgroups g hg] using h.symm
  rw [parseColumn, first_columnRe hi hgap hne ht hrest htail, Option.map_some]
  have hname : stripChars ['"'] i.name = i.name := stripChars_of_not_mem hi.quote_not_mem
  cases i <;>
    simp [Match.group, Ident.group, hname, hnone (show "qname" ≠ "settings" by decide)]

/-- The settings that a column may have. -/
def settingsRe : Regex :=
  .all [spaces, .lit "[".toList, .group "settings" (.star (.one (· ≠ '\n'))), .lit "]".toList]

/-- Behind the white space comes something else than settings. -/
theorem fails_settingsRe {blank rest : Str} (hblank : ∀ ch ∈ blank, isSpace ch = true)
    (hrest : ∀ ch ∈ rest.head?, isSpace ch = false ∧ ch ≠ '[') (before : Str) :
    settingsRe.Fails ⟨before, blank ++ rest⟩ := by
  refine fails_star_seq hblank (fun ch hch => (hrest ch hch).1) fun t u htu => ?_
  refine Fails.seq (fails_lit fun c hc => ?_) _
  cases u with
  | nil => exact (hrest c hc).2
  | cons ch u =>
      obtain rfl : ch = c := by simpa using hc
      rintro rfl
      exact absurd (hblank '[' (htu ▸ List.mem_append_right _ List.mem_cons_self)) (by decide)

/-- `\s*$` where the text ends. -/
theorem first_lineEnd {place : Place} (hplace : place.after = []) (h : k .nothing = some r) :
    first (.all [spaces, .lineEnd]) place k = some r := by
  obtain ⟨before, after⟩ := place
  obtain rfl : after = [] := hplace
  refine first_all_of (@first_star _ _ [] [] _ _ _ (by simp) (by simp) ?_)
  exact first_all_of ((first_here rfl).trans (first_all_nil h))

/-- **A column without settings.** -/
theorem parseColumn_plain (hi : i.Valid chars) (hgap : Blank gap) (hne : gap ≠ [])
    (ht : t.Valid chars) :
    parseColumn chars (i.text ++ (gap ++ t.text)) = some (i.name, t.text, []) := by
  have hend : EndsType chars [] :=
    ⟨endsWord_nil, by simp, fun _ => fails_lit_of_not_isPrefix (by simp)⟩
  have htail : first tailRe ⟨(i.text ++ gap ++ t.text).reverse, []⟩ some = some .nothing := by
    refine first_all_of (first_opt_none (@fails_settingsRe [] [] (by simp) (by simp) _) ?_)
    exact first_lineEnd rfl rfl
  have h := parseColumn_of_tail hi hgap hne ht hend htail (by simp [Match.nothing])
  rwa [List.append_nil] at h

/-- A line that begins with neither a word nor a quote is no column. -/
theorem parseColumn_eq_none {line : Str}
    (h : ∀ ch ∈ line.head?, chars.isWord ch = false ∧ ch ≠ '"') :
    parseColumn chars line = none := by
  have hname (before : Str) : (nameRe chars).Fails ⟨before, line⟩ := by
    have hquoted : (quotedName (.group "qname")).Fails ⟨before, line⟩ :=
      (fails_lit fun ch hch => (h ch hch).2).seq _
    have hbare : (Regex.group "name" (.plus (.one chars.isWord))).Fails ⟨before, line⟩ :=
      ((fails_one fun ch hch => (h ch hch).1).seq _).group _
    exact hquoted.alt hbare
  have hfails : (columnRe chars).Fails ⟨[], line⟩ := by
    refine fails_seq_of_forall fun m hm => ?_
    obtain ⟨-, rfl⟩ := mem_ways_here.mp hm
    rw [skip_nothing]
    exact (hname []).seq _
  rw [parseColumn, matchStart, hfails]
  rfl

/-! ## First words -/

/-- The words that begin a block which says nothing about the schema. -/
def blockWords : List String := ["project", "enum", "tablegroup", "note"]

theorem isWord_of_isAlphanum {ch : Char} (h : ch.isAlphanum = true) : chars.isWord ch = true := by
  have hascii : ch.toNat < 128 := by
    have htoNat : ch.val.toNat = ch.toNat := rfl
    simp only [Char.isAlphanum, Char.isAlpha, Char.isUpper, Char.isLower, Char.isDigit,
      Bool.or_eq_true, Bool.and_eq_true, decide_eq_true_eq, ge_iff_le, UInt32.le_iff_toNat_le,
      htoNat] at h
    simp at h
    omega
  rw [Chars.isWord, chars.isAlnum_ascii ch hascii, h]
  rfl

/-- The letters of the words are of one case, and no other character is taken for them. -/
def arePlain (words : List String) : Bool :=
  words.all fun w => !w.toList.isEmpty && w.toList.all fun l => l.isLower && l ∉ "ski".toList

theorem isSome_firstWord_iff_ignoreCase {words : List String} {name rest : Str}
    (hwords : arePlain words = true) (hname : ∀ ch ∈ name, chars.isWord ch = true)
    (hrest : EndsWord chars rest) :
    ((firstWord chars.isWord words).matchStart (name ++ rest)).isSome = true ↔
      ∃ w ∈ words, isWordIgnoreCase w name = true := by
  have hplain : ∀ w ∈ words, w.toList ≠ [] ∧
      ∀ l ∈ w.toList, l.isLower = true ∧ l ∉ "ski".toList := by
    intro w hw
    have hw := List.all_eq_true.mp hwords w hw
    rw [Bool.and_eq_true, List.all_eq_true] at hw
    refine ⟨by simpa using hw.1, fun l hl => ?_⟩
    simpa using hw.2 l hl
  have hare : AreWords chars.isWord words := fun w hw => by
    refine ⟨(hplain w hw).1, fun l hl ch hch => ?_⟩
    obtain ⟨hlower, hski⟩ := (hplain w hw).2 l hl
    exact isWord_of_isAlphanum (isAlphanum_of_toLower hlower ((isLetter_iff hski).mp hch))
  rw [isSome_firstWord_iff hare hname hrest]
  refine exists_congr fun w => and_congr_right fun hw => ?_
  rw [forall₂_isLetter_iff fun l hl => ((hplain w hw).2 l hl).2, isWordIgnoreCase,
    decide_eq_true_eq]

/-- A line begins an ignored block by its first word. -/
theorem isSome_ignoredBlockRe_iff {name rest : Str} (hname : ∀ ch ∈ name, chars.isWord ch = true)
    (hrest : EndsWord chars rest) :
    ((ignoredBlockRe chars).matchStart (name ++ rest)).isSome = true ↔
      ∃ w ∈ blockWords, isWordIgnoreCase w name = true := by
  have hplain : arePlain blockWords = true := by decide
  have hre : ignoredBlockRe chars = firstWord chars.isWord blockWords := rfl
  rw [hre]
  exact isSome_firstWord_iff_ignoreCase hplain hname hrest

theorem isSome_refLineRe_iff {name rest : Str} (hname : ∀ ch ∈ name, chars.isWord ch = true)
    (hrest : EndsWord chars rest) :
    ((refLineRe chars).matchStart (name ++ rest)).isSome = true ↔
      isWordIgnoreCase "ref" name = true := by
  have hplain : arePlain ["ref"] = true := by decide
  have hre : refLineRe chars = firstWord chars.isWord ["ref"] := rfl
  rw [hre, isSome_firstWord_iff_ignoreCase hplain hname hrest]
  simp

/-- A header of a table has `table` for its first word. -/
theorem isWordIgnoreCase_of_header {line : Str} (h : (parseTableHeader chars line).isSome = true) :
    ∃ rest, line = line.take 5 ++ rest ∧ isWordIgnoreCase "table" (line.take 5) = true ∧
      EndsWord chars rest ∧ ∀ ch ∈ line.take 5, chars.isWord ch = true := by
  rw [parseTableHeader] at h
  split_ifs at h with htable
  · rw [Bool.and_eq_true] at htable
    refine ⟨line.drop 5, (List.take_append_drop 5 line).symm, htable.1, fun ch hch => ?_,
      fun ch hch => ?_⟩
    · have hspace := htable.2
      rw [Option.mem_def.mp hch, Option.any_some] at hspace
      exact isWord_eq_false_of_isSpace hspace
    · have hword : (line.take 5).map Char.toLower = "table".toList := of_decide_eq_true htable.1
      have hmem : ch.toLower ∈ "table".toList := hword ▸ List.mem_map_of_mem hch
      have hlower : ∀ l ∈ "table".toList, l.isLower = true := by simp
      exact isWord_of_isAlphanum (isAlphanum_of_toLower (hlower _ hmem) rfl)
  · exact absurd h (by simp)

theorem parseTableHeader_eq_none {name rest : Str} (hname : ∀ ch ∈ name, chars.isWord ch = true)
    (hrest : EndsWord chars rest) (h : isWordIgnoreCase "table" name = false) :
    parseTableHeader chars (name ++ rest) = none := by
  rw [← Option.not_isSome_iff_eq_none]
  intro hsome
  obtain ⟨rest', hline, htable, hrest', hword⟩ := isWordIgnoreCase_of_header hsome
  obtain ⟨hsame, -⟩ := run_unique hname hword hrest hrest' hline
  rw [hsame, htable] at h
  exact absurd h (by decide)

theorem indexesRe_eq_none {line : Str} (h : '\x7b' ∉ line) : indexesRe.matchStart line = none := by
  have hreads : indexesRe.ReadsChar '\x7b' :=
    .seq_right _ (.seq_right _ (.seq_right _ (.seq_left _ readsChar_one)))
  exact hreads.matchStart_eq_none h

end PgErdCloud.Dbml
