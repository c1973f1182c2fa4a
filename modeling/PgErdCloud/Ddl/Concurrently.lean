/-
  `CONCURRENTLY` in index definitions. Where the keyword is not there it is put behind `INDEX`;
  where it is there, a second one is put before it if the white space in between can be divided.

  A statement is read by PostgreSQL's rules: `concurrently$ix` is one name, and no keyword. The
  expression of the source ends the word at any character that Python does not count among
  letters, digits and underscores, so it takes such a name for the keyword.

  `indexDefWithConcurrently_iff` says for which statements the result has one keyword behind
  `INDEX` and changes no more. Of Python's letters and digits it is only assumed that white space
  is none of them, and which they are in ASCII.
-/
import PgErdCloud.Ddl.Export
import PgErdCloud.Lib.SqlLex

namespace PgErdCloud.Ddl

open Lib Lib.PyStr

/-! ## Statements -/

/-- A keyword as it is written, in any letter case. -/
structure Cased (word : String) where
  text : Str
  upper_eq : text.map Char.toUpper = word.toList

/-- White space, or none. -/
structure Blanks where
  text : Str
  blank : ∀ ch ∈ text, isSpace ch = true

/-- Where there is none, what follows does not go on with the word before. -/
def Blanks.Separates (blanks : Blanks) (s : Str) : Prop :=
  blanks.text = [] → ∀ ch ∈ s.head?, LexState.isIdentCont ch = false

/-- White space between two words. -/
structure Gap extends Blanks where
  ne_nil : text ≠ []

/-- One blank. -/
def Gap.single : Gap := ⟨⟨" ".toList, List.all_eq_true.mp (by decide)⟩, by decide⟩

/-- A text up to the word `INDEX`. -/
structure IndexHead where
  create : Cased "CREATE"
  gap : Gap
  unique : Option (Cased "UNIQUE" × Gap)
  index : Cased "INDEX"

/-- `UNIQUE` with the white space behind it, or nothing. -/
def IndexHead.uniqueText (h : IndexHead) : Str :=
  match h.unique with
  | none => []
  | some (unique, gap) => unique.text ++ gap.text

/-- The statement up to the word `INDEX`. -/
def IndexHead.text (h : IndexHead) : Str :=
  h.create.text ++ (h.gap.text ++ (h.uniqueText ++ h.index.text))

/-- The text begins with the keyword, as PostgreSQL reads it: behind the word there is white
    space, or a character that no identifier goes on with. -/
def BeginsWithKeyword (s : Str) : Prop :=
  ∃ (word : Cased "CONCURRENTLY") (rest : Str), s = word.text ++ rest ∧
    ∀ ch ∈ rest.head?, isSpace ch = true ∨ LexState.isIdentCont ch = false

/-- What stands behind `INDEX` and the white space. -/
def tailText (concurrently : Option (Cased "CONCURRENTLY" × Blanks)) (body : Str) : Str :=
  match concurrently with
  | none => body
  | some (concurrently, gap) => concurrently.text ++ (gap.text ++ body)

/-- A `CREATE INDEX`, with or without the keyword. What the body begins with is neither white
    space nor another such keyword; before a name in quotes there need be no white space. -/
structure IndexStatement where
  head : IndexHead
  gap : Blanks
  concurrently : Option (Cased "CONCURRENTLY" × Blanks)
  body : Str
  separated : gap.Separates (tailText concurrently body)
  bodySeparated : ∀ c ∈ concurrently, c.2.Separates body
  bodyHead : ∀ ch ∈ body.head?, isSpace ch = false
  bodyNew : ¬ BeginsWithKeyword body

/-- What stands behind `INDEX` and the white space of a statement. -/
def IndexStatement.tail (t : IndexStatement) : Str := tailText t.concurrently t.body

/-- The statement. -/
def IndexStatement.text (t : IndexStatement) : Str :=
  t.head.text ++ (t.gap.text ++ t.tail)

/-- A statement with one `CONCURRENTLY`, behind `INDEX`, and otherwise the same. -/
def IndexStatement.WithConcurrently (t : IndexStatement) (s : Str) : Prop :=
  ∃ out : IndexStatement, s = out.text ∧ out.concurrently.isSome = true ∧
    out.head.unique = t.head.unique ∧ out.body = t.body

section
variable (unicode : Unicode)

/-- The text begins with the word up to a character that is none of Python's `\w`: the keyword,
    or a name such as `concurrently$ix`. -/
def BeginsLikeKeyword (s : Str) : Prop :=
  ∃ (word : Cased "CONCURRENTLY") (rest : Str), s = word.text ++ rest ∧
    ∀ ch ∈ rest.head?, unicode.isAlnum ch = false ∧ ch ≠ '_'

/-- **The statements that come out right:** the keyword stands behind one character of white
    space; or it is not there, white space is, and no name looks like the keyword, unless behind
    more white space. -/
def IndexStatement.Readable (t : IndexStatement) : Prop :=
  if t.concurrently.isSome = true then t.gap.text.length < 2
  else t.gap.text ≠ [] ∧ (BeginsLikeKeyword unicode t.body → 2 ≤ t.gap.text.length)

end

/-! ## Reading -/

section
variable {word : String} {s : Str}

theorem Cased.dropWord_append (w : Cased word) (s : Str) :
    dropWord word.toList (w.text ++ s) = some s := by
  have hlen : word.toList.length = w.text.length := by rw [← w.upper_eq, List.length_map]
  rw [dropWord, hlen, List.take_left, List.drop_left, if_pos w.upper_eq]

/-- What is taken off the front is the word in some letter case. -/
theorem exists_cased_of_dropWord {after : Str} (h : dropWord word.toList s = some after) :
    ∃ w : Cased word, s = w.text ++ after := by
  rw [dropWord] at h
  split_ifs at h with hupper
  obtain rfl := Option.some.inj h
  exact ⟨⟨s.take word.toList.length, hupper⟩, (List.take_append_drop _ s).symm⟩

theorem isSpace_of_toUpper {ch : Char} (h : ch.toUpper.isAlphanum = true) :
    isSpace ch = false := by
  by_contra hspace
  rw [Bool.not_eq_false] at hspace
  have hupper : ch.toUpper = ch := by
    have hcases := hspace
    rw [Char.toUpper]
    split_ifs with hlower
    · exact absurd hspace (by
        rw [isSpace_of_isAlphanum (by
          simp only [Char.isAlphanum, Char.isAlpha, Char.isLower, Bool.or_eq_true,
            Bool.and_eq_true, decide_eq_true_eq]
          exact .inl (.inr hlower))]
        exact Bool.false_ne_true)
    · rfl
  rw [hupper] at h
  rw [isSpace_of_isAlphanum h] at hspace
  exact Bool.false_ne_true hspace

/-- A keyword begins with no white space. -/
theorem Cased.head_append (w : Cased word) (hword : ∃ ch rest, word.toList = ch :: rest ∧
    ch.isAlphanum = true) (s : Str) : ∀ ch ∈ (w.text ++ s).head?, isSpace ch = false := by
  obtain ⟨first, rest, hw, hfirst⟩ := hword
  cases htext : w.text with
  | nil =>
      have hupper := w.upper_eq
      rw [htext, hw] at hupper
      exact absurd hupper (by simp)
  | cons ch text =>
      have hupper := w.upper_eq
      rw [htext, hw, List.map_cons] at hupper
      intro other hother
      obtain rfl : ch = other := Option.some.inj hother
      exact isSpace_of_toUpper ((List.cons.inj hupper).1 ▸ hfirst)

theorem Blanks.dropWhile_append (g : Blanks) (hs : ∀ ch ∈ s.head?, isSpace ch = false) :
    (g.text ++ s).dropWhile isSpace = s := by
  rw [List.dropWhile_append_of_pos g.blank]
  exact lstrip_of_head hs

theorem Blanks.takeWhile_append (g : Blanks) (hs : ∀ ch ∈ s.head?, isSpace ch = false) :
    (g.text ++ s).takeWhile isSpace = g.text := by
  have hparts : (g.text ++ s).takeWhile isSpace ++ (g.text ++ s).dropWhile isSpace =
      g.text ++ s := List.takeWhile_append_dropWhile
  rw [g.dropWhile_append hs] at hparts
  exact List.append_cancel_right hparts

theorem Blanks.dropSpaces_append (g : Blanks) (hne : g.text ≠ [])
    (hs : ∀ ch ∈ s.head?, isSpace ch = false) : dropSpaces (g.text ++ s) = some s := by
  have hdrop := g.dropWhile_append hs
  obtain ⟨ch, text, htext⟩ := List.exists_cons_of_ne_nil hne
  have hch : isSpace ch = true := g.blank ch (htext ▸ List.mem_cons_self)
  rw [htext, List.cons_append] at hdrop ⊢
  rw [dropSpaces, if_pos hch, hdrop]

theorem dropSpaces_of_head (hs : ∀ ch ∈ s.head?, isSpace ch = false) : dropSpaces s = none := by
  cases s with
  | nil => rfl
  | cons ch s =>
      rw [dropSpaces, hs ch rfl]
      exact if_neg Bool.false_ne_true

end

/-- `CREATE\s+(UNIQUE\s+)?INDEX`: the text of the group, and what follows. -/
def afterIndex (s : Str) : Option (Str × Str) :=
  ((dropWord "CREATE".toList s).bind dropSpaces).bind fun rest =>
    (dropWord "INDEX".toList (takeUnique rest).2).map fun after => ((takeUnique rest).1, after)

theorem indexDefWithConcurrently_eq (unicode : Unicode) {s unique rest : Str}
    (h : afterIndex s = some (unique, rest)) :
    indexDefWithConcurrently unicode s =
      match dropSpacesUnlessConcurrently unicode rest with
      | some rest => "CREATE ".toList ++ unique ++ "INDEX CONCURRENTLY ".toList ++ rest
      | none => s := by
  obtain ⟨created, hcreated, hindex⟩ := Option.bind_eq_some_iff.mp h
  obtain ⟨after, hafter, heq⟩ := Option.map_eq_some_iff.mp hindex
  obtain ⟨rfl, rfl⟩ := Prod.mk.inj heq
  unfold indexDefWithConcurrently
  rw [hcreated]
  dsimp only
  cases hdrop : dropSpacesUnlessConcurrently unicode after with
  | none => rw [hafter, Option.bind_some, hdrop]
  | some rest => rw [hafter, Option.bind_some, hdrop]

theorem takeUnique_head (h : IndexHead) (s : Str) :
    takeUnique (h.uniqueText ++ (h.index.text ++ s)) = (h.uniqueText, h.index.text ++ s) := by
  have hindex := h.index.head_append ⟨'I', "NDEX".toList, rfl, rfl⟩ s
  rw [takeUnique, IndexHead.uniqueText]
  cases h.unique with
  | none =>
      have hnone : dropWord "UNIQUE".toList (h.index.text ++ s) = none := by
        refine if_neg fun he => ?_
        have hupper := h.index.upper_eq
        cases htext : h.index.text with
        | nil =>
            rw [htext] at hupper
            exact absurd hupper (by decide)
        | cons ch text =>
            rw [htext, List.map_cons] at hupper
            rw [htext] at he
            have hI : ch.toUpper = 'I' := (List.cons.inj hupper).1
            have hU : ch.toUpper = 'U' := (List.cons.inj he).1
            exact absurd (hI.symm.trans hU) (by decide)
      rw [List.nil_append, hnone]
      rfl
  | some u =>
      obtain ⟨unique, gap⟩ := u
      dsimp only
      rw [List.append_assoc, unique.dropWord_append, Option.bind_some,
        gap.dropSpaces_append gap.ne_nil hindex]
      have hlen : (unique.text ++ (gap.text ++ (h.index.text ++ s))).length -
          (h.index.text ++ s).length = (unique.text ++ gap.text).length := by
        simp only [List.length_append]
        omega
      dsimp only
      rw [hlen, ← List.append_assoc, List.take_left]

theorem uniqueText_head (h : IndexHead) (s : Str) :
    ∀ ch ∈ (h.uniqueText ++ (h.index.text ++ s)).head?, isSpace ch = false := by
  rw [IndexHead.uniqueText]
  cases h.unique with
  | none => exact h.index.head_append ⟨'I', "NDEX".toList, rfl, rfl⟩ s
  | some u =>
      obtain ⟨unique, gap⟩ := u
      dsimp only
      rw [List.append_assoc]
      exact unique.head_append ⟨'U', "NIQUE".toList, rfl, rfl⟩ _

theorem afterIndex_head (h : IndexHead) (s : Str) :
    afterIndex (h.text ++ s) = some (h.uniqueText, s) := by
  rw [afterIndex, IndexHead.text, List.append_assoc, List.append_assoc, List.append_assoc,
    h.create.dropWord_append, Option.bind_some,
    h.gap.dropSpaces_append h.gap.ne_nil (uniqueText_head h s), Option.bind_some,
    takeUnique_head, h.index.dropWord_append]
  rfl

/-! ## What is returned -/

/-- The head in capitals, with single blanks. -/
def canonicalHead (unique : Option (Cased "UNIQUE" × Gap)) : IndexHead where
  create := ⟨"CREATE".toList, by decide⟩
  gap := Gap.single
  unique := unique
  index := ⟨"INDEX".toList, by decide⟩

/-- The word as the code writes it. -/
def canonicalWord : Cased "CONCURRENTLY" := ⟨"CONCURRENTLY".toList, by decide⟩

section
variable {unicode : Unicode}

theorem atBoundary_iff {s : Str} : atBoundary unicode s = true ↔
    ∀ ch ∈ s.head?, unicode.isAlnum ch = false ∧ ch ≠ '_' := by
  cases s with
  | nil => simp [atBoundary]
  | cons ch s => simp [atBoundary]

theorem dropSpacesUnlessConcurrently_new {gap : Blanks} {body : Str} (hne : gap.text ≠ [])
    (hhead : ∀ ch ∈ body.head?, isSpace ch = false) (hnew : ¬ BeginsLikeKeyword unicode body) :
    dropSpacesUnlessConcurrently unicode (gap.text ++ body) = some body := by
  rw [dropSpacesUnlessConcurrently, gap.dropSpaces_append hne hhead]
  dsimp only
  cases hword : dropWord "CONCURRENTLY".toList body with
  | none => rfl
  | some after =>
      obtain ⟨word, rfl⟩ := exists_cased_of_dropWord hword
      have hgoes : ¬ atBoundary unicode after = true := fun hstops =>
        hnew ⟨word, after, rfl, atBoundary_iff.mp hstops⟩
      dsimp only
      rw [if_neg hgoes]

theorem dropSpacesUnlessConcurrently_there {gap : Blanks} {rest : Str}
    (hhead : ∀ ch ∈ rest.head?, isSpace ch = false) (hthere : BeginsLikeKeyword unicode rest) :
    dropSpacesUnlessConcurrently unicode (gap.text ++ rest) =
      if gap.text.length < 2 then none
      else some (gap.text.drop (gap.text.length - 1) ++ rest) := by
  by_cases hne : gap.text = []
  · rw [hne, List.nil_append, dropSpacesUnlessConcurrently, dropSpaces_of_head hhead]
    rfl
  · obtain ⟨word, after, rfl, hstops⟩ := hthere
    rw [dropSpacesUnlessConcurrently, gap.dropSpaces_append hne hhead]
    dsimp only
    rw [word.dropWord_append]
    dsimp only
    rw [if_pos (atBoundary_iff.mpr hstops), gap.takeWhile_append hhead]

theorem not_isAlnum_of_isIdentCont
    (hascii : ∀ ch : Char, ch.toNat < 128 → unicode.isAlnum ch = ch.isAlphanum) {ch : Char}
    (h : LexState.isIdentCont ch = false) : unicode.isAlnum ch = false ∧ ch ≠ '_' := by
  simp only [LexState.isIdentCont, LexState.isIdentStart, Bool.or_eq_false_iff,
    decide_eq_false_iff_not] at h
  obtain ⟨⟨⟨⟨halpha, hunderscore⟩, hlarge⟩, hdigit⟩, -⟩ := h
  rw [hascii ch (Nat.not_le.mp hlarge), Char.isAlphanum, halpha, hdigit]
  exact ⟨rfl, hunderscore⟩

theorem beginsLikeKeyword_word (hspace : ∀ ch, isSpace ch = true → unicode.isAlnum ch = false)
    (hascii : ∀ ch : Char, ch.toNat < 128 → unicode.isAlnum ch = ch.isAlphanum)
    (w : Cased "CONCURRENTLY") {g : Blanks} {s : Str} (hseparates : g.Separates s) :
    BeginsLikeKeyword unicode (w.text ++ (g.text ++ s)) := by
  refine ⟨w, g.text ++ s, rfl, fun other hother => ?_⟩
  cases htext : g.text with
  | nil =>
      rw [htext, List.nil_append] at hother
      exact not_isAlnum_of_isIdentCont hascii (hseparates htext other hother)
  | cons ch text =>
      have hch : isSpace ch = true := g.blank ch (htext ▸ List.mem_cons_self)
      rw [htext] at hother
      obtain rfl : ch = other := Option.some.inj hother
      refine ⟨hspace ch hch, ?_⟩
      rintro rfl
      exact absurd hch (by decide)

theorem beginsWithKeyword_word (w : Cased "CONCURRENTLY") {g : Blanks} {s : Str}
    (hseparates : g.Separates s) : BeginsWithKeyword (w.text ++ (g.text ++ s)) := by
  refine ⟨w, g.text ++ s, rfl, fun other hother => ?_⟩
  cases htext : g.text with
  | nil =>
      rw [htext, List.nil_append] at hother
      exact .inr (hseparates htext other hother)
  | cons ch text =>
      rw [htext] at hother
      obtain rfl : ch = other := Option.some.inj hother
      exact .inl (g.blank ch (htext ▸ List.mem_cons_self))

/-- What the function writes before the rest. -/
theorem canonical_text (unique : Option (Cased "UNIQUE" × Gap)) (rest : Str) :
    "CREATE ".toList ++ (canonicalHead unique).uniqueText ++ "INDEX CONCURRENTLY ".toList ++ rest =
      (canonicalHead unique).text ++
        (Gap.single.text ++ (canonicalWord.text ++ (Gap.single.text ++ rest))) := by
  have hcreate : "CREATE ".toList = "CREATE".toList ++ " ".toList := by decide
  have hindex : "INDEX CONCURRENTLY ".toList =
      "INDEX".toList ++ (" ".toList ++ ("CONCURRENTLY".toList ++ " ".toList)) := by decide
  rw [hcreate, hindex, IndexHead.text]
  simp only [List.append_assoc]
  rfl

namespace IndexStatement

variable (t : IndexStatement)

theorem tail_head : ∀ ch ∈ t.tail.head?, isSpace ch = false := by
  rw [tail]
  cases t.concurrently with
  | none => exact t.bodyHead
  | some c => exact c.1.head_append ⟨'C', "ONCURRENTLY".toList, rfl, rfl⟩ _

theorem indexDef_text : indexDefWithConcurrently unicode t.text =
    match dropSpacesUnlessConcurrently unicode (t.gap.text ++ t.tail) with
    | some rest => "CREATE ".toList ++ t.head.uniqueText ++ "INDEX CONCURRENTLY ".toList ++ rest
    | none => t.text :=
  indexDefWithConcurrently_eq unicode (afterIndex_head t.head _)

/-- The statement with the keyword behind `INDEX`, and some white space behind it. -/
def completed (gap : Gap) : IndexStatement where
  head := canonicalHead t.head.unique
  gap := Gap.single.toBlanks
  concurrently := some (canonicalWord, gap.toBlanks)
  body := t.body
  separated := fun h => absurd h Gap.single.ne_nil
  bodySeparated := by
    intro c hc hnone
    obtain rfl : (canonicalWord, gap.toBlanks) = c := Option.some.inj hc
    exact absurd hnone gap.ne_nil
  bodyHead := t.bodyHead
  bodyNew := t.bodyNew

theorem tail_of_none (h : t.concurrently = none) : t.tail = t.body := by
  rw [tail, h]
  rfl

theorem indexDef_new (h : t.concurrently = none) (hgap : t.gap.text ≠ [])
    (hnew : ¬ BeginsLikeKeyword unicode t.body) :
    indexDefWithConcurrently unicode t.text = (t.completed Gap.single).text := by
  rw [indexDef_text, t.tail_of_none h, dropSpacesUnlessConcurrently_new hgap t.bodyHead hnew]
  exact canonical_text t.head.unique t.body

/-- Where no white space stands behind `INDEX` the expression does not match. -/
theorem indexDef_adjoining (hgap : t.gap.text = []) :
    indexDefWithConcurrently unicode t.text = t.text := by
  rw [indexDef_text, hgap, List.nil_append, dropSpacesUnlessConcurrently,
    dropSpaces_of_head t.tail_head]

/-- Behind one character of white space what looks like the keyword is seen. -/
theorem indexDef_there (h : BeginsLikeKeyword unicode t.tail) (hgap : t.gap.text.length < 2) :
    indexDefWithConcurrently unicode t.text = t.text := by
  rw [indexDef_text, dropSpacesUnlessConcurrently_there t.tail_head h, if_pos hgap]

/-- Of more white space one character is given back, and it is not seen. -/
theorem indexDef_doubled (h : BeginsLikeKeyword unicode t.tail) (hgap : 2 ≤ t.gap.text.length) :
    ∃ gap : Gap, indexDefWithConcurrently unicode t.text = (canonicalHead t.head.unique).text ++
      (Gap.single.text ++ (canonicalWord.text ++ (gap.text ++ t.tail))) := by
  have hdrop : ∀ ch ∈ t.gap.text.drop (t.gap.text.length - 1), isSpace ch = true :=
    fun ch hch => t.gap.blank ch (List.mem_of_mem_drop hch)
  refine ⟨⟨⟨" ".toList ++ t.gap.text.drop (t.gap.text.length - 1), ?_⟩, by simp⟩, ?_⟩
  · intro ch hch
    rcases List.mem_append.mp hch with hch | hch
    · exact Gap.single.blank ch hch
    · exact hdrop ch hch
  · rw [indexDef_text, dropSpacesUnlessConcurrently_there t.tail_head h, if_neg (by omega)]
    dsimp only
    rw [List.append_assoc " ".toList]
    exact canonical_text t.head.unique _

/-- What follows `INDEX` where a statement with the keyword is read. -/
theorem tail_unique {out : IndexStatement} (hout : out.text = t.text) : out.tail = t.tail := by
  have hafter := congrArg afterIndex hout
  rw [text, text, afterIndex_head, afterIndex_head, Option.some_inj, Prod.mk.injEq] at hafter
  have htail := congrArg (List.dropWhile isSpace) hafter.2
  rwa [t.gap.dropWhile_append t.tail_head, out.gap.dropWhile_append out.tail_head] at htail

/-- A statement without the keyword is no statement with it. -/
theorem not_text_of_none (h : t.concurrently = none) {out : IndexStatement}
    (hthere : out.concurrently.isSome = true) : out.text ≠ t.text := by
  intro hout
  obtain ⟨⟨w, g⟩, hw⟩ := Option.isSome_iff_exists.mp hthere
  have htail : w.text ++ (g.text ++ out.body) = t.body := by
    have hunique := t.tail_unique hout
    rwa [t.tail_of_none h, tail, hw] at hunique
  refine t.bodyNew ?_
  rw [← htail]
  exact beginsWithKeyword_word w (out.bodySeparated _ hw)

/-- What follows `INDEX` and the keyword. -/
theorem body_unique {head : IndexHead} {gap gap' : Blanks} {w : Cased "CONCURRENTLY"} {rest : Str}
    (hrest : ∀ ch ∈ rest.head?, isSpace ch = false) (h : t.concurrently.isSome = true)
    (htext : t.text = head.text ++ (gap.text ++ (w.text ++ (gap'.text ++ rest)))) :
    t.body = rest := by
  obtain ⟨⟨v, g⟩, hv⟩ := Option.isSome_iff_exists.mp h
  have hword (u : Cased "CONCURRENTLY") (s : Str) :
      ∀ ch ∈ (u.text ++ s).head?, isSpace ch = false :=
    u.head_append ⟨'C', "ONCURRENTLY".toList, rfl, rfl⟩ s
  have hafter := congrArg afterIndex htext
  rw [text, afterIndex_head, afterIndex_head, Option.some_inj, Prod.mk.injEq] at hafter
  have htail := congrArg (List.dropWhile isSpace) hafter.2
  rw [t.gap.dropWhile_append t.tail_head, gap.dropWhile_append (hword w _), tail, hv] at htail
  have hspaces := congrArg (dropWord "CONCURRENTLY".toList) htail
  dsimp only [tailText] at hspaces
  rw [v.dropWord_append, w.dropWord_append, Option.some_inj] at hspaces
  have hbody := congrArg (List.dropWhile isSpace) hspaces
  rwa [g.dropWhile_append t.bodyHead, gap'.dropWhile_append hrest] at hbody

variable (hspace : ∀ ch, isSpace ch = true → unicode.isAlnum ch = false)
  (hascii : ∀ ch : Char, ch.toNat < 128 → unicode.isAlnum ch = ch.isAlphanum)
include hspace hascii

theorem beginsLikeKeyword_tail (h : t.concurrently.isSome = true) :
    BeginsLikeKeyword unicode t.tail := by
  obtain ⟨⟨w, g⟩, hw⟩ := Option.isSome_iff_exists.mp h
  rw [tail, hw]
  exact beginsLikeKeyword_word hspace hascii w (t.bodySeparated _ hw)

theorem completed_there (gap : Gap) : indexDefWithConcurrently unicode (t.completed gap).text =
    (t.completed gap).text :=
  (t.completed gap).indexDef_there ((t.completed gap).beginsLikeKeyword_tail hspace hascii rfl)
    Nat.one_lt_two

/-- A second keyword is put before the first. -/
theorem not_withConcurrently (h : t.concurrently.isSome = true) (hgap : 2 ≤ t.gap.text.length) :
    ¬ t.WithConcurrently (indexDefWithConcurrently unicode t.text) := by
  rintro ⟨out, hout, hthere, -, -⟩
  obtain ⟨gap, hdoubled⟩ := t.indexDef_doubled (t.beginsLikeKeyword_tail hspace hascii h) hgap
  have hbody := out.body_unique t.tail_head hthere (hout.symm.trans hdoubled)
  refine out.bodyNew ?_
  obtain ⟨⟨w, g⟩, hw⟩ := Option.isSome_iff_exists.mp h
  rw [hbody, tail, hw]
  exact beginsWithKeyword_word w (t.bodySeparated _ hw)

end IndexStatement

/-- **One `CONCURRENTLY` stands behind `INDEX`, and the function changes its result no more,**
    for the statements that are readable and for no others. -/
theorem indexDefWithConcurrently_iff
    (hspace : ∀ ch, isSpace ch = true → unicode.isAlnum ch = false)
    (hascii : ∀ ch : Char, ch.toNat < 128 → unicode.isAlnum ch = ch.isAlphanum)
    (t : IndexStatement) :
    (t.WithConcurrently (indexDefWithConcurrently unicode t.text) ∧
        indexDefWithConcurrently unicode (indexDefWithConcurrently unicode t.text) =
          indexDefWithConcurrently unicode t.text) ↔ t.Readable unicode := by
  rw [IndexStatement.Readable]
  split_ifs with hthere
  · have hlike := t.beginsLikeKeyword_tail hspace hascii hthere
    constructor
    · rintro ⟨hwith, -⟩
      by_contra hgap
      exact t.not_withConcurrently hspace hascii hthere (Nat.not_lt.mp hgap) hwith
    · intro hgap
      rw [t.indexDef_there hlike hgap, t.indexDef_there hlike hgap]
      exact ⟨⟨t, rfl, hthere, rfl, rfl⟩, rfl⟩
  · have hnone : t.concurrently = none := Option.not_isSome_iff_eq_none.mp hthere
    have htail := t.tail_of_none hnone
    -- a statement that comes out as it is has no keyword
    have hsame (h : indexDefWithConcurrently unicode t.text = t.text) :
        ¬ t.WithConcurrently (indexDefWithConcurrently unicode t.text) := by
      rintro ⟨out, hout, hword, -, -⟩
      exact t.not_text_of_none hnone hword (hout.symm.trans h)
    by_cases hgap : t.gap.text = []
    · exact iff_of_false (fun h => hsame (t.indexDef_adjoining hgap) h.1) fun h => h.1 hgap
    by_cases hlike : BeginsLikeKeyword unicode t.body
    · have hlikeTail : BeginsLikeKeyword unicode t.tail := htail ▸ hlike
      constructor
      · rintro ⟨hwith, -⟩
        refine ⟨hgap, fun _ => ?_⟩
        by_contra hlength
        exact hsame (t.indexDef_there hlikeTail (Nat.not_le.mp hlength)) hwith
      · rintro ⟨-, hlength⟩
        obtain ⟨gap, hdoubled⟩ := t.indexDef_doubled hlikeTail (hlength hlike)
        have hcompleted : indexDefWithConcurrently unicode t.text = (t.completed gap).text := by
          rw [hdoubled, htail]
          rfl
        rw [hcompleted, t.completed_there hspace hascii gap]
        exact ⟨⟨t.completed gap, rfl, rfl, rfl, rfl⟩, rfl⟩
    · refine iff_of_true ?_ ⟨hgap, fun h => absurd h hlike⟩
      rw [t.indexDef_new hnone hgap hlike, t.completed_there hspace hascii Gap.single]
      exact ⟨⟨t.completed Gap.single, rfl, rfl, rfl, rfl⟩, rfl⟩

end

/-! ## Two statements -/

theorem isAlnum_asciiUnicode_of_isSpace (ch : Char) (h : isSpace ch = true) :
    asciiUnicode.isAlnum ch = false := by
  by_contra halnum
  rw [Bool.not_eq_false] at halnum
  rw [isSpace_of_isAlphanum halnum] at h
  exact Bool.false_ne_true h

theorem not_beginsWithKeyword {s : Str} (h : dropWord "CONCURRENTLY".toList s = none) :
    ¬ BeginsWithKeyword s := by
  rintro ⟨word, rest, rfl, -⟩
  rw [word.dropWord_append] at h
  exact absurd h (Option.some_ne_none rest)

/-- `create index  ix on t (a)`, and the same with `CONCURRENTLY` before `ix`. -/
def twoBlanks (concurrently : Option (Cased "CONCURRENTLY" × Gap)) : IndexStatement where
  head := ⟨⟨"create".toList, by decide⟩, Gap.single, none, ⟨"index".toList, by decide⟩⟩
  gap := ⟨"  ".toList, List.all_eq_true.mp (by decide)⟩
  concurrently := concurrently.map fun c => (c.1, c.2.toBlanks)
  body := "ix on t (a)".toList
  separated := fun h => absurd h (by decide)
  bodySeparated := by
    intro c hc hnone
    obtain ⟨c, -, rfl⟩ := Option.map_eq_some_iff.mp hc
    exact absurd hnone c.2.ne_nil
  bodyHead := by
    rintro ch ⟨⟩
    decide
  bodyNew := not_beginsWithKeyword (by decide)

theorem indexDefWithConcurrently_twoBlanks :
    (twoBlanks none).WithConcurrently
        (indexDefWithConcurrently asciiUnicode (twoBlanks none).text) ∧
      indexDefWithConcurrently asciiUnicode
          (indexDefWithConcurrently asciiUnicode (twoBlanks none).text) =
        indexDefWithConcurrently asciiUnicode (twoBlanks none).text :=
  (indexDefWithConcurrently_iff isAlnum_asciiUnicode_of_isSpace (fun _ _ => rfl) _).mpr
    ⟨by decide, fun _ => le_rfl⟩

theorem not_indexDefWithConcurrently_twoBlanks :
    ¬ (twoBlanks (some (canonicalWord, Gap.single))).WithConcurrently
      (indexDefWithConcurrently asciiUnicode "create index  CONCURRENTLY ix on t (a)".toList) :=
  (twoBlanks (some (canonicalWord, Gap.single))).not_withConcurrently
    isAlnum_asciiUnicode_of_isSpace (fun _ _ => rfl) rfl le_rfl

end PgErdCloud.Ddl
