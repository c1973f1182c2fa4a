/-
  What the parser's reading of a line rests on: the characters that the grammar is written with,
  and what is left of a line once its comment and the white space around it are gone.
-/
import PgErdCloud.Lib.RegexRun
import PgErdCloud.Lib.Trim
import PgErdCloud.Dbml.Syntax

namespace PgErdCloud.Dbml

open Lib Lib.PyStr Lib.Regex

variable {chars : Chars}

/-! ## Characters -/

theorem isWord_eq_false (chars : Chars) {ch : Char} (hascii : ch.toNat < 128)
    (halnum : ch.isAlphanum = false) (hunderscore : ch ≠ '_') : chars.isWord ch = false := by
  rw [Chars.isWord, chars.isAlnum_ascii ch hascii, halnum]
  simpa using hunderscore

theorem isSpace_of_isWord {ch : Char} (h : chars.isWord ch = true) : isSpace ch = false := by
  rw [Chars.isWord, Bool.or_eq_true, decide_eq_true_eq] at h
  rcases h with h | rfl
  · exact chars.not_isSpace ch h
  · decide

theorem isWord_eq_false_of_isSpace {ch : Char} (h : isSpace ch = true) :
    chars.isWord ch = false := by
  cases hw : chars.isWord ch with
  | false => rfl
  | true =>
      rw [isSpace_of_isWord hw] at h
      exact absurd h (by decide)

/-- The characters that the grammar is written with. -/
def punctuation : Str := "\"()[]\x7b\x7d:<>-.,/' \t".toList

theorem isWord_punctuation (chars : Chars) {ch : Char} (h : ch ∈ punctuation) :
    chars.isWord ch = false := by
  have hall : (punctuation.all fun c => c.toNat < 128 && !c.isAlphanum && c ≠ '_') = true := by
    decide
  have hch := List.all_eq_true.mp hall ch h
  simp only [Bool.and_eq_true, decide_eq_true_eq, Bool.not_eq_eq_eq_not, Bool.not_true] at hch
  exact isWord_eq_false chars hch.1.1 hch.1.2 hch.2

theorem ne_of_isWord {ch c : Char} (h : chars.isWord ch = true) (hc : c ∈ punctuation) :
    ch ≠ c := by
  rintro rfl
  rw [isWord_punctuation chars hc] at h
  exact absurd h (by decide)

theorem Blank.isSpace {s : Str} (h : Blank s) : ∀ ch ∈ s, isSpace ch = true := by
  intro ch hch
  rcases h ch hch with rfl | rfl <;> decide

theorem Blank.oneLine {s : Str} (h : Blank s) : OneLine s := by
  intro ch hch
  rcases h ch hch with rfl | rfl <;> decide

theorem Blank.head_punctuation {s : Str} (h : Blank s) : ∀ ch ∈ s.head?, ch ∈ punctuation := by
  intro ch hch
  rcases h ch (List.mem_of_mem_head? hch) with rfl | rfl <;> decide

/-- Nothing of a word follows. -/
def EndsWord (chars : Chars) (rest : Str) : Prop := ∀ ch ∈ rest.head?, chars.isWord ch = false

theorem endsWord_nil : EndsWord chars [] := by
  intro ch h
  exact absurd h (by simp)

theorem endsWord_cons {ch : Char} (rest : Str) (h : ch ∈ punctuation) :
    EndsWord chars (ch :: rest) := by
  intro c hc
  obtain rfl : ch = c := by simpa using hc
  exact isWord_punctuation chars h

theorem isLineBreak_of_isWord {ch : Char} (h : chars.isWord ch = true) :
    isLineBreak ch = false := by
  cases hbreak : isLineBreak ch with
  | false => rfl
  | true =>
      have hspace := isSpace_of_isLineBreak hbreak
      rw [isSpace_of_isWord h] at hspace
      exact absurd hspace (by decide)

theorem Ident.Valid.oneLine_text {i : Ident} (h : i.Valid chars) : OneLine i.text := by
  cases i with
  | bare word => exact fun ch hch => isLineBreak_of_isWord (h.2 ch hch)
  | quoted name =>
      rw [Ident.text, doubleQuoted, oneLine_append, oneLine_append]
      exact ⟨⟨by simp [OneLine, isLineBreak], h.2.2⟩, by simp [OneLine, isLineBreak]⟩

/-! ## Comments -/

/-- No comment begins in the text, whatever follows it. -/
def NoComment (s : Str) : Prop :=
  ∀ rest, cutAt "//".toList (s ++ rest) =
    (cutAt "//".toList rest).map fun cut => (s ++ cut.1, cut.2)

theorem NoComment.append {s t : Str} (hs : NoComment s) (ht : NoComment t) :
    NoComment (s ++ t) := by
  intro rest
  rw [List.append_assoc, hs, ht]
  simp [Function.comp_def]

theorem noComment_of_not_mem {s : Str} (h : '/' ∉ s) : NoComment s :=
  fun rest => cutAt_append_of_not_mem rest h

theorem noComment_of_isWord {s : Str} (h : ∀ ch ∈ s, chars.isWord ch = true) : NoComment s :=
  noComment_of_not_mem fun hmem => ne_of_isWord (h _ hmem) (by decide) rfl

theorem Blank.noComment {s : Str} (h : Blank s) : NoComment s := by
  refine noComment_of_not_mem fun hmem => ?_
  rcases h _ hmem with he | he <;> exact absurd he (by decide)

/-- A text without two slashes, up to a character behind it. -/
theorem noComment_concat {s : Str} {ch : Char} (h : ¬ "//".toList <:+: s) (hch : ch ≠ '/') :
    NoComment (s ++ [ch]) := by
  intro rest
  have hmem : ch ∉ "//".toList := by simpa using hch
  simpa using cutAt_append_of_not_infix rest h hmem

/-! ## Lines -/

/-- White space, then a text in which no comment begins. -/
theorem lineOf_beginning {indent start : Str} (rest : Str) (hindent : Blank indent)
    (hne : start ≠ []) (hhead : ∀ ch ∈ start.head?, isSpace ch = false)
    (hlast : ∀ ch ∈ start.getLast?, isSpace ch = false) (hstart : NoComment start) {line : Str}
    (h : lineOf (indent ++ (start ++ rest)) = some line) : ∃ more, line = start ++ more := by
  have hcut : ((cutAt "//".toList (indent ++ (start ++ rest))).map Prod.fst).getD
      (indent ++ (start ++ rest)) =
      indent ++ (start ++ ((cutAt "//".toList rest).map Prod.fst).getD rest) := by
    rw [hindent.noComment, hstart]
    cases cutAt "//".toList rest with
    | none => rfl
    | some cut => rfl
  rw [lineOf, hcut] at h
  simp only at h
  split_ifs at h
  obtain rfl := Option.some.inj h
  exact ⟨_, strip_append _ hindent.isSpace hne hhead hlast⟩

/-- White space, then a text in which no comment begins, then one in which a comment begins: of
    the latter a part is left. -/
theorem lineOf_slashes {indent start name : Str} (rest : Str) (hindent : Blank indent)
    (hne : start ≠ []) (hhead : ∀ ch ∈ start.head?, isSpace ch = false)
    (hlast : ∀ ch ∈ start.getLast?, isSpace ch = false) (hstart : NoComment start)
    (hslashes : "//".toList <:+: name) {line : Str}
    (h : lineOf (indent ++ (start ++ (name ++ rest))) = some line) :
    ∃ more, line = start ++ more ∧ ∀ ch ∈ more, ch ∈ name := by
  obtain ⟨cut, hcut, hpre⟩ := @cutAt_append_of_isInfix '/' "/".toList name rest hslashes
  have hcut : cutAt "//".toList (indent ++ (start ++ (name ++ rest))) =
      some (indent ++ (start ++ cut.1), cut.2) := by
    have hsep : "//".toList = '/' :: "/".toList := rfl
    rw [hindent.noComment, hstart, hsep, hcut]
    rfl
  rw [lineOf, hcut] at h
  simp only [Option.map_some, Option.getD_some] at h
  split_ifs at h
  refine ⟨_, (Option.some.inj h).symm.trans (strip_append _ hindent.isSpace hne hhead hlast), ?_⟩
  intro ch hch
  exact hpre.mem (List.mem_reverse.mp ((lstrip_suffix _).mem (List.mem_reverse.mp hch)))

/-- **A text in a margin** is what is left of the line. -/
theorem lineOf_around (m : Margin) {text : Str} (hne : text ≠ [])
    (hhead : ∀ ch ∈ text.head?, isSpace ch = false)
    (hlast : ∀ ch ∈ text.getLast?, isSpace ch = false) (htext : NoComment text) :
    lineOf (m.around text) = if (m.around text).length > maxLine then none else some text := by
  have hstrip : strip (m.indent ++ (text ++ m.trail)) = text :=
    strip_around m.blank_indent.isSpace m.blank_trail.isSpace hne hhead hlast
  have hcut : ((cutAt "//".toList (m.around text)).map Prod.fst).getD (m.around text) =
      m.indent ++ (text ++ m.trail) := by
    rw [Margin.around, m.blank_indent.noComment, htext, m.blank_trail.noComment,
      Margin.commentText]
    cases m.comment with
    | none =>
        have hnil : cutAt "//".toList [] = none := rfl
        rw [Option.elim_none, hnil]
        simp
    | some comment =>
        have hcomment : cutAt "//".toList ("//".toList ++ comment) = some ([], comment) :=
          cutAt_append comment List.not_mem_nil
        rw [Option.elim_some, hcomment]
        simp
  rw [lineOf, hcut, hstrip, if_neg hne]

theorem Margin.oneLine_around (m : Margin) {text : Str} (h : OneLine text) :
    OneLine (m.around text) := by
  rw [around, oneLine_append, oneLine_append, oneLine_append]
  refine ⟨m.blank_indent.oneLine, h, m.blank_trail.oneLine, ?_⟩
  have hcomment := m.oneLine_comment
  rw [commentText]
  cases hnone : m.comment with
  | none => simp [OneLine]
  | some comment =>
      rw [Option.elim_some, oneLine_append]
      exact ⟨by simp [OneLine, isLineBreak], hcomment comment hnone⟩

/-- A line of a single character that is none of a word. -/
theorem lineOf_around_char (m : Margin) {ch : Char} (hspace : isSpace ch = false)
    (hslash : ch ≠ '/') :
    lineOf (m.around [ch]) = if (m.around [ch]).length > maxLine then none else some [ch] :=
  lineOf_around m (by simp) (by simpa using hspace) (by simpa using hspace)
    (noComment_of_not_mem (by simpa using hslash.symm))

end PgErdCloud.Dbml
