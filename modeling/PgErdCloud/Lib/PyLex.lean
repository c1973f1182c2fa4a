/-
  Tokens of Python source, a line at a time: names, string literals with their escapes, single
  marks and comments. What is not covered is rejected: prefixes of strings, triple quotes,
  numbers, operators of several characters, lines that go on behind a backslash. Nothing here
  belongs to one program.
-/
import PgErdCloud.Lib.Cut
import PgErdCloud.Lib.Fallible
import PgErdCloud.Lib.Hex
import PgErdCloud.Lib.Words

namespace PgErdCloud.Lib.PyLex

open PyStr Hex Fallible

/-! ## Tokens -/

/-- The tokens of a line. A name may be a keyword, and a mark is one character. -/
inductive Token
  | name (text : Str)
  | str (value : Str)
  | mark (ch : Char)
  deriving DecidableEq

/-- A line: how far it is indented, its tokens and its comment. -/
structure Line where
  indent : Nat
  tokens : List Token
  comment : Option Str
  deriving DecidableEq

/-- A line without anything. -/
def Line.blank : Line := ⟨0, [], none⟩

/-! ## Characters -/

/-- What a name begins with, of ASCII. -/
def isNameStart (ch : Char) : Bool := ch.isAlpha || ch = '_'

/-- What a name goes on with, of ASCII. -/
def isNameChar (ch : Char) : Bool := ch.isAlphanum || ch = '_'

/-- What a string literal begins and ends with. -/
def isQuote (ch : Char) : Bool := ch = '\'' || ch = '"'

/-- The operators and brackets that are read, each a token of its own. -/
def isMark (ch : Char) : Bool := ch ∈ "()[]\x7b\x7d:=,.|".toList

/-- The digits of escapes, in the lower case that `repr` writes them in. -/
def isHexDigit (ch : Char) : Bool := ch.isDigit || ch ∈ "abcdef".toList

/-- What ends a line, or is in no source at all. -/
def endsLine (ch : Char) : Bool := ch = '\n' || ch = '\r' || ch = '\x00'

/-- What stands behind a backslash, and for what. -/
def escapes : List (Char × Char) :=
  [('\\', '\\'), ('\'', '\''), ('"', '"'), ('n', '\n'), ('r', '\r'), ('t', '\t')]

/-- The letters of the escapes with a number, and how many digits they take. -/
def numericEscapes : List (Char × Nat) := [('x', 2), ('u', 4), ('U', 8)]

/-! ## The reader -/

/-- What has been read of the current token, the last character first. -/
inductive State
  | between
  /-- behind a mark, which another one could go on -/
  | mark
  | name (read : Str)
  | literal (quote : Char) (read : Str)
  | escape (quote : Char) (read : Str)
  /-- in an escape with a number, which has so many digits to come -/
  | number (quote : Char) (read : Str) (digits value : Nat)
  /-- behind a string literal -/
  | closed
  | comment (read : Str)
  deriving DecidableEq

/-- The first character of a token. -/
def start (ch : Char) : Option (State × List Token) :=
  if ch = ' ' then some (.between, [])
  else if ch = '#' then some (.comment [], [])
  else if isNameStart ch then some (.name [ch], [])
  else if isQuote ch then some (.literal ch [], [])
  else if isMark ch then some (.mark, [.mark ch])
  else none

/-- One character: the next place, and the tokens that are complete now; `none` where the text is
    not read, as an operator of two characters. -/
def step : State → Char → Option (State × List Token)
  | .between, ch => start ch
  | .mark, ch => if ch = '=' ∨ ch = '.' then none else start ch
  | .name read, ch =>
      if isNameChar ch then some (.name (ch :: read), [])
      else if isQuote ch then none
      else (start ch).map fun next => (next.1, .name read.reverse :: next.2)
  | .literal quote read, ch =>
      if endsLine ch then none
      else if ch = quote then some (.closed, [.str read.reverse])
      else if ch = '\\' then some (.escape quote read, [])
      else some (.literal quote (ch :: read), [])
  | .escape quote read, ch =>
      match escapes.lookup ch, numericEscapes.lookup ch with
      | some value, _ => some (.literal quote (value :: read), [])
      | none, some digits => some (.number quote read digits 0, [])
      | none, none => none
  | .number quote read digits value, ch =>
      let value := 16 * value + hexDigit ch
      if isHexDigit ch = false then none
      else if 1 < digits then some (.number quote read (digits - 1) value, [])
      else if value.isValidChar then some (.literal quote (Char.ofNat value :: read), [])
      else none
  | .closed, ch => if isQuote ch then none else start ch
  | .comment read, ch => some (.comment (ch :: read), [])

/-- The tokens of a text that starts at some place, and the place behind it. -/
def scan : State → Str → Option (State × List Token)
  | state, [] => some (state, [])
  | state, ch :: s =>
      (step state ch).bind fun next => (scan next.1 s).map fun last => (last.1, next.2 ++ last.2)

/-- What the end of the line makes of the current token. -/
def finish : State → Option (List Token × Option Str)
  | .between | .mark | .closed => some ([], none)
  | .name read => some ([.name read.reverse], none)
  | .comment read => some ([], some read.reverse)
  | .literal _ _ | .escape _ _ | .number _ _ _ _ => none

/-- A line: how far it is indented, its tokens, and its comment. -/
def lexLine (s : Str) : Option Line :=
  (scan .between s).bind fun last => (finish last.1).map fun rest =>
    ⟨(s.takeWhile (· = ' ')).length, last.2 ++ rest.1, rest.2⟩

/-- Every line break becomes `\n`. -/
def translateNewlines : Str → Str
  | [] => []
  | '\r' :: '\n' :: s => '\n' :: translateNewlines s
  | '\r' :: s => '\n' :: translateNewlines s
  | ch :: s => ch :: translateNewlines s

/-- The lines of a source, which has no `NUL`. -/
def lexModule (source : Str) : Option (List Line) :=
  if '\x00' ∈ source then none else (split '\n' (translateNewlines source)).mapM lexLine

example : lexLine "  a.b: c = 'it\\'s'  # d".toList =
    some ⟨2, [.name "a".toList, .mark '.', .name "b".toList, .mark ':', .name "c".toList, .mark '=',
      .str "it's".toList], some " d".toList⟩ := by decide

/-! ## Runs -/

theorem scan_append (state : State) (s t : Str) :
    scan state (s ++ t) =
      (scan state s).bind fun mid => (scan mid.1 t).map fun last => (last.1, mid.2 ++ last.2) := by
  induction s generalizing state with
  | nil => simp [scan]
  | cons ch s ih =>
      rw [List.cons_append, scan, scan]
      cases step state ch with
      | none => rfl
      | some next =>
          simp only [Option.bind_some, ih]
          cases scan next.1 s with
          | none => rfl
          | some mid => simp [Option.map_map, Function.comp_def, List.append_assoc]

theorem scan_append_of {state mid last : State} {s t : Str} {tokens tokens' : List Token}
    (hs : scan state s = some (mid, tokens)) (ht : scan mid t = some (last, tokens')) :
    scan state (s ++ t) = some (last, tokens ++ tokens') := by
  rw [scan_append, hs, Option.bind_some, ht, Option.map_some]

theorem scan_cons_of {state mid last : State} {ch : Char} {t : Str} {tokens tokens' : List Token}
    (hs : step state ch = some (mid, tokens)) (ht : scan mid t = some (last, tokens')) :
    scan state (ch :: t) = some (last, tokens ++ tokens') := by
  rw [scan, hs, Option.bind_some, ht, Option.map_some]

/-- A comment takes everything. -/
theorem scan_comment (read s : Str) :
    scan (.comment read) s = some (.comment (s.reverse ++ read), []) := by
  induction s generalizing read with
  | nil => rfl
  | cons ch s ih =>
      rw [scan, step, Option.bind_some, ih]
      simp

/-- A name goes on to the first character that belongs to none. -/
theorem scan_name (read : Str) {s : Str} (h : ∀ ch ∈ s, isNameChar ch = true) :
    scan (.name read) s = some (.name (s.reverse ++ read), []) := by
  induction s generalizing read with
  | nil => rfl
  | cons ch s ih =>
      rw [List.forall_mem_cons] at h
      rw [scan, step, if_pos h.1, Option.bind_some, ih _ h.2]
      simp

/-- A name that has not been read yet. -/
structure IsName (name : Str) : Prop where
  head : ∃ ch rest, name = ch :: rest ∧ isNameStart ch = true
  all : ∀ ch ∈ name, isNameChar ch = true

theorem scan_isName {name : Str} (h : IsName name) :
    scan .between name = some (.name name.reverse, []) := by
  obtain ⟨⟨ch, rest, rfl, hstart⟩, hall⟩ := h
  rw [List.forall_mem_cons] at hall
  have hspace : ch ≠ ' ' := by
    rintro rfl
    exact absurd hstart (by decide)
  have hcomment : ch ≠ '#' := by
    rintro rfl
    exact absurd hstart (by decide)
  rw [scan, step, start, if_neg hspace, if_neg hcomment, if_pos hstart, Option.bind_some,
    scan_name [ch] hall.2]
  simp

/-! ## Numbers -/

theorem isHexDigit_digitChar {d : Nat} (h : d < 16) : isHexDigit (Nat.digitChar d) = true := by
  interval_cases d <;> rfl

/-- An escape with a number is over with its last digit. -/
theorem scan_number (quote : Char) (read : Str) {value : Nat} {digits : Str} (hne : digits ≠ [])
    (hdigits : ∀ ch ∈ digits, isHexDigit ch = true) {ch : Char}
    (hvalue : digits.foldl (fun n ch => 16 * n + hexDigit ch) value = ch.toNat) :
    scan (.number quote read digits.length value) digits =
      some (.literal quote (ch :: read), []) := by
  induction digits generalizing value with
  | nil => exact absurd rfl hne
  | cons d digits ih =>
      rw [List.forall_mem_cons] at hdigits
      have hnot : ¬ isHexDigit d = false := by simp [hdigits.1]
      rw [List.foldl_cons] at hvalue
      cases digits with
      | nil =>
          rw [List.foldl_nil] at hvalue
          have hvalid : (16 * value + hexDigit d).isValidChar := hvalue ▸ ch.valid
          have hlast : ¬ 1 < [d].length := by simp
          rw [scan, step, if_neg hnot, if_neg hlast, if_pos hvalid, hvalue, Char.ofNat_toNat]
          rfl
      | cons d' digits =>
          have hmore : 1 < (d :: d' :: digits).length := by simp
          rw [scan, step, if_neg hnot, if_pos hmore, Option.bind_some]
          have hrest := ih (List.cons_ne_nil d' digits) hdigits.2 hvalue
          rw [List.length_cons, Nat.add_sub_cancel, hrest]
          rfl

/-- A character is what its number says, written with enough digits. -/
theorem scan_paddedHex {quote : Char} (read : Str) {width : Nat} (hwidth : 0 < width) {ch : Char}
    (hch : ch.toNat < 16 ^ width) :
    scan (.number quote read width 0) (paddedHex width ch.toNat) =
      some (.literal quote (ch :: read), []) := by
  have hlength : (paddedHex width ch.toNat).length = width := by
    refine le_antisymm ?_ (width_le_length_paddedHex width _)
    have hdigits := Nat.toDigits_length 16 ch.toNat width hwidth hch
    rw [paddedHex, JsStr.padStart, List.length_append, List.length_replicate]
    omega
  have hne : paddedHex width ch.toNat ≠ [] := by
    intro he
    rw [he, List.length_nil] at hlength
    omega
  have hall : ∀ d ∈ paddedHex width ch.toNat, isHexDigit d = true := by
    intro d hd
    obtain ⟨n, hn, rfl⟩ := mem_paddedHex hd
    exact isHexDigit_digitChar hn
  have hvalue : (paddedHex width ch.toNat).foldl (fun n ch => 16 * n + hexDigit ch) 0 =
      ch.toNat := by
    have hvalue := hexValue_padStart width (Nat.toDigits 16 ch.toNat)
    rwa [hexValue_toDigits] at hvalue
  have hrun := scan_number quote read hne hall hvalue
  rwa [hlength] at hrun

/-! ## What ends a line -/

theorem endsLine_iff {ch : Char} : endsLine ch = true ↔ ch = '\n' ∨ ch = '\r' ∨ ch = '\x00' := by
  simp [endsLine, or_assoc]

/-- Only a comment takes a character that ends lines. -/
theorem step_endsLine {state next : State} {ch : Char} {tokens : List Token}
    (h : step state ch = some (next, tokens)) (hch : endsLine ch = true) :
    ∃ read, next = .comment (ch :: read) := by
  have hstart : start ch = none ∧ isNameChar ch = false ∧ isHexDigit ch = false ∧
      escapes.lookup ch = none ∧ numericEscapes.lookup ch = none := by
    rcases endsLine_iff.mp hch with rfl | rfl | rfl
    · exact ⟨rfl, rfl, rfl, rfl, rfl⟩
    · exact ⟨rfl, rfl, rfl, rfl, rfl⟩
    · exact ⟨rfl, rfl, rfl, rfl, rfl⟩
  obtain ⟨hstart, hname, hdigit, hescape, hnumeric⟩ := hstart
  cases state with
  | between => simp [step, hstart] at h
  | mark => simp [step, hstart] at h
  | name read => simp [step, hname, hstart] at h
  | literal quote read => simp [step, hch] at h
  | escape quote read => simp [step, hescape, hnumeric] at h
  | number quote read digits value => simp [step, hdigit] at h
  | closed => simp [step, hstart] at h
  | comment read =>
      obtain ⟨rfl, -⟩ := Prod.mk.inj (Option.some.inj h)
      exact ⟨read, rfl⟩

theorem scan_cons_eq_some {state last : State} {ch : Char} {s : Str} {tokens : List Token}
    (h : scan state (ch :: s) = some (last, tokens)) : ∃ next before after,
      step state ch = some (next, before) ∧ scan next s = some (last, after) := by
  rw [scan, Option.bind_eq_some_iff] at h
  obtain ⟨⟨next, before⟩, hnext, hrest⟩ := h
  obtain ⟨⟨last', after⟩, hrun, he⟩ := Option.map_eq_some_iff.mp hrest
  obtain ⟨rfl, -⟩ := Prod.mk.inj he
  exact ⟨next, before, after, hnext, hrun⟩

/-- A character that ends lines is in no line, unless in its comment. -/
theorem endsLine_of_scan {state last : State} {s : Str} {tokens : List Token}
    (h : scan state s = some (last, tokens)) {ch : Char} (hch : ch ∈ s)
    (hends : endsLine ch = true) : ∃ read, last = .comment read ∧ ch ∈ read := by
  induction s generalizing state tokens with
  | nil => exact absurd hch List.not_mem_nil
  | cons c s ih =>
      obtain ⟨next, before, after, hnext, hrun⟩ := scan_cons_eq_some h
      rcases List.mem_cons.mp hch with rfl | hch
      · obtain ⟨read, rfl⟩ := step_endsLine hnext hends
        rw [scan_comment, Option.some.injEq, Prod.mk.injEq] at hrun
        exact ⟨_, hrun.1.symm, by simp⟩
      · exact ih hrun hch

theorem lexLine_eq_some {s : Str} {line : Line} (h : lexLine s = some line) :
    ∃ last tokens rest, scan .between s = some (last, tokens) ∧
      finish last = some (rest, line.comment) := by
  obtain ⟨⟨last, tokens⟩, hrun, hrest⟩ := Option.bind_eq_some_iff.mp h
  obtain ⟨⟨rest, comment⟩, hfinish, rfl⟩ := Option.map_eq_some_iff.mp hrest
  exact ⟨last, tokens, rest, hrun, hfinish⟩

theorem not_mem_of_lexLine {s : Str} {line : Line} (h : lexLine s = some line)
    (hcomment : ∀ comment, line.comment = some comment → ∀ ch ∈ comment, endsLine ch = false)
    {ch : Char} (hends : endsLine ch = true) : ch ∉ s := by
  intro hmem
  obtain ⟨last, tokens, rest, hrun, hfinish⟩ := lexLine_eq_some h
  obtain ⟨read, rfl, hin⟩ := endsLine_of_scan hrun hmem hends
  rw [finish, Option.some.injEq, Prod.mk.injEq] at hfinish
  have hnot := hcomment read.reverse hfinish.2.symm ch (List.mem_reverse.mpr hin)
  rw [hends] at hnot
  exact absurd hnot (by simp)

/-! ## Comments -/

/-- A comment begins, or takes the character. -/
theorem step_comment {state : State} {ch : Char} {read : Str} {tokens : List Token}
    (h : step state ch = some (.comment read, tokens)) :
    read = [] ∨ ∃ before, state = .comment before ∧ read = ch :: before := by
  have hstart : ∀ {tokens : List Token}, start ch = some (.comment read, tokens) → read = [] := by
    intro tokens hs
    unfold start at hs
    split_ifs at hs <;> simp at hs
    exact hs.1
  cases state with
  | between => exact .inl (hstart h)
  | mark =>
      rw [step] at h
      split_ifs at h
      exact .inl (hstart h)
  | name before =>
      rw [step] at h
      split_ifs at h with hname
      · simp at h
      · obtain ⟨⟨next, before'⟩, hs, he⟩ := Option.map_eq_some_iff.mp h
        obtain ⟨rfl, -⟩ := Prod.mk.inj he
        exact .inl (hstart hs)
  | literal quote before =>
      rw [step] at h
      split_ifs at h <;> simp at h
  | escape quote before =>
      rw [step] at h
      split at h <;> simp at h
  | number quote before digits value =>
      rw [step] at h
      split_ifs at h <;> simp at h
  | closed =>
      rw [step] at h
      split_ifs at h
      exact .inl (hstart h)
  | comment before =>
      obtain ⟨he, -⟩ := Prod.mk.inj (Option.some.inj h)
      exact .inr ⟨before, rfl, (State.comment.inj he).symm⟩

/-- What a comment has read is of the line, or was there. -/
theorem mem_of_scan_comment {state : State} {s read : Str} {tokens : List Token}
    (h : scan state s = some (.comment read, tokens)) {ch : Char} (hch : ch ∈ read) :
    ch ∈ s ∨ ∃ before, state = .comment before ∧ ch ∈ before := by
  induction s generalizing state tokens with
  | nil =>
      obtain ⟨rfl, -⟩ := Prod.mk.inj (Option.some.inj h)
      exact .inr ⟨read, rfl, hch⟩
  | cons c s ih =>
      obtain ⟨next, before, after, hnext, hrun⟩ := scan_cons_eq_some h
      rcases ih hrun with hs | ⟨read', rfl, hin⟩
      · exact .inl (List.mem_cons_of_mem _ hs)
      · rcases step_comment hnext with rfl | ⟨read'', rfl, rfl⟩
        · exact absurd hin List.not_mem_nil
        · rcases List.mem_cons.mp hin with rfl | hin
          · exact .inl List.mem_cons_self
          · exact .inr ⟨read'', rfl, hin⟩

/-- The characters of the comment of a line are of the line. -/
theorem mem_of_lexLine_comment {s : Str} {line : Line} (h : lexLine s = some line) {comment : Str}
    (hcomment : line.comment = some comment) {ch : Char} (hch : ch ∈ comment) : ch ∈ s := by
  obtain ⟨last, tokens, rest, hrun, hfinish⟩ := lexLine_eq_some h
  rw [hcomment] at hfinish
  cases last with
  | comment read =>
      rw [finish, Option.some.injEq, Prod.mk.injEq, Option.some.injEq] at hfinish
      rw [← hfinish.2, List.mem_reverse] at hch
      rcases mem_of_scan_comment hrun hch with hs | ⟨before, hstate, -⟩
      · exact hs
      · exact absurd hstate (by simp)
  | between | mark | name | literal | escape | number | closed => simp [finish] at hfinish

/-! ## Line breaks -/

theorem not_mem_translateNewlines (s : Str) : '\r' ∉ translateNewlines s := by
  fun_induction translateNewlines s with
  | case1 => exact List.not_mem_nil
  | case2 s ih => simp [ih]
  | case3 s hs ih => simp [ih]
  | case4 ch s hlf hcr ih =>
      rw [List.mem_cons, not_or]
      exact ⟨fun he => hcr he.symm, ih⟩

theorem translateNewlines_of_not_mem {s : Str} (h : '\r' ∉ s) : translateNewlines s = s := by
  fun_induction translateNewlines s with
  | case1 => rfl
  | case2 s ih => simp at h
  | case3 s hs ih => simp at h
  | case4 ch s hch hch' ih =>
      rw [ih fun hs => h (List.mem_cons_of_mem _ hs)]

theorem mem_translateNewlines {s : Str} {ch : Char} (h : ch ∈ translateNewlines s) :
    ch = '\n' ∨ ch ∈ s := by
  fun_induction translateNewlines s with
  | case1 => exact .inr h
  | case2 s ih =>
      rcases List.mem_cons.mp h with rfl | h
      · exact .inl rfl
      · exact (ih h).imp_right fun h => List.mem_cons_of_mem _ (List.mem_cons_of_mem _ h)
  | case3 s hs ih =>
      rcases List.mem_cons.mp h with rfl | h
      · exact .inl rfl
      · exact (ih h).imp_right (List.mem_cons_of_mem _)
  | case4 c s hlf hcr ih =>
      rcases List.mem_cons.mp h with rfl | h
      · exact .inr List.mem_cons_self
      · exact (ih h).imp_right (List.mem_cons_of_mem _)

/-! ## Modules -/

theorem mem_join_of_mem {sep part : Str} {parts : List Str} {ch : Char} (hpart : part ∈ parts)
    (hch : ch ∈ part) : ch ∈ join sep parts := by
  induction parts with
  | nil => exact absurd hpart List.not_mem_nil
  | cons p parts ih =>
      by_cases hne : parts = []
      · subst hne
        rwa [join_singleton, ← List.mem_singleton.mp hpart]
      · rw [join_cons_of_ne_nil sep p hne, List.mem_append, List.mem_append]
        rcases List.mem_cons.mp hpart with rfl | hpart
        · exact .inl hch
        · exact .inr (.inr (ih hpart))

/-- No character of the comments ends a line. -/
def CleanComments (lines : List Line) : Prop :=
  ∀ line ∈ lines, ∀ comment, line.comment = some comment → ∀ ch ∈ comment, endsLine ch = false

/-- **Lines are read one by one** where the comments have no line break. -/
theorem lexModule_join {texts : List Str} {lines : List Line} (hne : texts ≠ [])
    (h : List.Forall₂ (fun text line => lexLine text = some line) texts lines)
    (hclean : CleanComments lines) : lexModule (join "\n".toList texts) = some lines := by
  have hnot : ∀ text ∈ texts, ∀ ch, endsLine ch = true → ch ∉ text := by
    intro text htext ch hends
    obtain ⟨line, hline, hlex⟩ := exists_right_of_forall₂ h htext
    exact not_mem_of_lexLine hlex (hclean line hline) hends
  have hjoin : ∀ ch, endsLine ch = true → ch ≠ '\n' → ch ∉ join "\n".toList texts := by
    intro ch hends hbreak hmem
    rcases mem_join hmem with hsep | ⟨text, htext, hch⟩
    · exact hbreak (List.mem_singleton.mp hsep)
    · exact hnot text htext ch hends hch
  have hsplit : split '\n' (join "\n".toList texts) = texts :=
    split_join (fun text htext => hnot text htext '\n' rfl) hne
  rw [lexModule, if_neg (hjoin '\x00' rfl (by decide)),
    translateNewlines_of_not_mem (hjoin '\r' rfl (by decide)), hsplit]
  exact mapM_eq_some.mpr h

/-- What is read has no line break in a comment. -/
theorem cleanComments_of_lexModule {source : Str} {lines : List Line}
    (h : lexModule source = some lines) : CleanComments lines := by
  rw [lexModule] at h
  split_ifs at h with hnul
  intro line hline comment hcomment ch hch
  obtain ⟨text, htext, hlex⟩ := exists_left_of_forall₂ (mapM_eq_some.mp h) hline
  have hmem : ch ∈ text := mem_of_lexLine_comment hlex hcomment hch
  have hsource : ch ∈ translateNewlines source := by
    rw [← join_split '\n' (translateNewlines source)]
    exact mem_join_of_mem htext hmem
  rw [Bool.eq_false_iff, Ne, endsLine_iff]
  rintro (rfl | rfl | rfl)
  · exact not_mem_of_mem_split htext hmem
  · exact not_mem_translateNewlines source hsource
  · rcases mem_translateNewlines hsource with hbreak | hch
    · exact absurd hbreak (by decide)
    · exact hnul hch

end PgErdCloud.Lib.PyLex
