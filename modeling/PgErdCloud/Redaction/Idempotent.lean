/-
  Redaction is applied where the database is read and again where the job fails. The second time
  changes nothing: no candidate is left to replace, and every assignment of a secret that still
  matches is one whose value is the mask already.

  `redactDsnErrorMessage_idempotent` is about every message and DSN, whatever order the candidates
  are tried in; each is assumed to be `Maskable`, and the alphanumeric characters to be those of
  Python (`UnicodeWords`).
-/
import PgErdCloud.Lib.RegexReads
import PgErdCloud.Redaction.Dsn

namespace PgErdCloud.Redaction

open Lib Lib.PyStr Lib.Url

/-- What the patterns rely on in the Unicode database. -/
structure UnicodeWords (isAlnum : Char → Bool) : Prop where
  ascii : ∀ ch, ch.toNat < 128 → isAlnum ch = ch.isAlphanum
  space : ∀ ch, isSpace ch = true → isAlnum ch = false
  /-- the letters that ignoring case takes for a letter of ASCII -/
  folded : ∀ ch ∈ ['ſ', '\u212a', 'İ', 'ı'], isAlnum ch = true

/-! ## Classes of characters -/

/-- `[\w.-]` -/
def isNameChar (isAlnum : Char → Bool) (ch : Char) : Bool :=
  isWord isAlnum ch || ch ∈ ".-".toList

/-- `[:=]` -/
def isSeparator (ch : Char) : Bool := ch ∈ ":=".toList

/-- `[^&\s,;"'<>]` -/
def isValueChar (ch : Char) : Bool := !isSpace ch && ch ∉ "&,;\"'<>".toList

section Classes

variable {isAlnum : Char → Bool} {ch : Char}

theorem UnicodeWords.not_isNameChar (words : UnicodeWords isAlnum)
    (h : ch ∈ "&,;\"'<>:=*".toList) : isNameChar isAlnum ch = false := by
  have hall : ∀ c ∈ "&,;\"'<>:=*".toList, c.toNat < 128 ∧ c.isAlphanum = false ∧ c ≠ '_' ∧
      c ∉ ".-".toList := by simp
  obtain ⟨hascii, halnum, hunder, hdot⟩ := hall ch h
  rw [isNameChar, isWord, words.ascii ch hascii, halnum]
  simp only [hunder, hdot, decide_false, Bool.or_self]

theorem UnicodeWords.not_isNameChar_of_isSpace (words : UnicodeWords isAlnum)
    (h : isSpace ch = true) : isNameChar isAlnum ch = false := by
  have hplain : ∀ c ∈ "_.-".toList, isSpace c = false := by simp [isSpace]
  have hne (c : Char) (hc : c ∈ "_.-".toList) : ch ≠ c := by
    rintro rfl
    exact absurd h (by rw [hplain ch hc]; decide)
  have hunder := hne '_' (by decide)
  have hdot := hne '.' (by decide)
  have hdash := hne '-' (by decide)
  rw [isNameChar, isWord, words.space ch h]
  simp [hunder, hdot, hdash]

theorem UnicodeWords.isValueChar_of_isNameChar (words : UnicodeWords isAlnum)
    (h : isNameChar isAlnum ch = true) : isValueChar ch = true := by
  have hspace : isSpace ch = false := by
    by_contra hspace
    rw [words.not_isNameChar_of_isSpace (Bool.not_eq_false _ ▸ hspace)] at h
    exact absurd h Bool.false_ne_true
  have hmem : ch ∉ "&,;\"'<>".toList := by
    intro hmem
    have hmore : ∀ c ∈ "&,;\"'<>".toList, c ∈ "&,;\"'<>:=*".toList := by simp
    rw [words.not_isNameChar (hmore ch hmem)] at h
    exact absurd h Bool.false_ne_true
  rw [isValueChar, hspace, decide_eq_true hmem]
  rfl

theorem isSpace_of_isSeparator (h : isSeparator ch = true) : isSpace ch = false := by
  have hall : ∀ c ∈ ":=".toList, isSpace c = false := by simp [isSpace]
  exact hall ch (of_decide_eq_true h)

theorem UnicodeWords.isNameChar_of_isLetter (words : UnicodeWords isAlnum) {letter : Char}
    (hletter : letter.isLower = true) (h : Regex.isLetter letter ch = true) :
    isNameChar isAlnum ch = true := by
  have hword : isAlnum ch = true := by
    rw [Regex.isLetter] at h
    simp only [Bool.or_eq_true, Bool.and_eq_true, decide_eq_true_eq] at h
    rcases h with ((h | ⟨-, rfl⟩) | ⟨-, rfl⟩) | ⟨-, rfl | rfl⟩
    · have halpha : ch.toNat < 128 ∧ ch.isAlphanum = true := by
        rw [Char.toLower] at h
        split_ifs at h with hupper
        · have hval : 65 ≤ ch.val.toNat ∧ ch.val.toNat ≤ 90 := hupper
          refine ⟨Nat.lt_of_le_of_lt hval.2 (by decide), ?_⟩
          simp only [Char.isAlphanum, Char.isAlpha, Char.isUpper, decide_eq_true hupper]
          rfl
        · subst h
          have hval := hletter
          simp only [Char.isLower, Bool.and_eq_true, decide_eq_true_eq] at hval
          have hlast : ch.val.toNat ≤ 122 := hval.2
          refine ⟨Nat.lt_of_le_of_lt hlast (by decide), ?_⟩
          rw [Char.isAlphanum, Char.isAlpha, hletter, Bool.or_true, Bool.true_or]
      rw [words.ascii ch halpha.1, halpha.2]
    · exact words.folded _ (by decide)
    · exact words.folded _ (by decide)
    · exact words.folded _ (by decide)
    · exact words.folded _ (by decide)
  rw [isNameChar, isWord, hword]
  rfl

end Classes

/-! ## Assignments -/

/-- The pattern up to the value, behind the word boundary. -/
def assignmentStart (isAlnum : Char → Bool) : Regex :=
  .all [.star (.one (isNameChar isAlnum)), secretKey, .star (.one (isNameChar isAlnum)),
    .star (.one isSpace), .one isSeparator, .star (.one isSpace)]

theorem secretAssignment_eq (isAlnum : Char → Bool) : secretAssignment isAlnum =
    .seq (.group "prefix" (.seq (.boundary (isWord isAlnum)) (assignmentStart isAlnum)))
      (.group "value" (.plus (.one isValueChar))) := rfl

/-- A name, a separator and the blanks around it. -/
structure NameAndSeparator (isAlnum : Char → Bool) (name blanks : Str) (separator : Char)
    (blanks' : Str) : Prop where
  name_ne_nil : name ≠ []
  name_chars : ∀ ch ∈ name, isNameChar isAlnum ch = true
  blank_chars : ∀ ch ∈ blanks, isSpace ch = true
  separator_char : isSeparator separator = true
  blank_chars' : ∀ ch ∈ blanks', isSpace ch = true

/-- At a place behind `before`: the name with its separator, then a value as long as it gets,
    then the rest of the text. -/
structure Assignment (isAlnum : Char → Bool) (before start value rest : Str) : Prop where
  edge : (before.head?.any (isWord isAlnum) != start.head?.any (isWord isAlnum)) = true
  reads : ∃ place, ∃ m ∈ (assignmentStart isAlnum).ways place, m.text = start
  value_ne_nil : value ≠ []
  value_chars : ∀ ch ∈ value, isValueChar ch = true
  rest_head : ∀ ch ∈ rest.head?, isValueChar ch = false

section Assignments

variable {isAlnum : Char → Bool} {before start value rest : Str}

theorem readsSome_secretKey : secretKey.ReadsSome := by
  refine Regex.readsSome_any ?_
  simp only [List.forall_mem_cons, List.not_mem_nil, false_implies, implies_true, and_true]
  have hword (s : String) (h : s.toList ≠ []) : (word s).ReadsSome :=
    Regex.readsSome_litIgnoreCase h
  exact ⟨.seq_left _ (hword "pass" (by decide)), hword "pwd" (by decide),
    hword "token" (by decide), hword "secret" (by decide),
    .seq_left _ (hword "private" (by decide)),
    .seq_left _ (hword "api" (by decide)), .seq_left _ (hword "access" (by decide)),
    .seq_left _ (hword "auth" (by decide))⟩

theorem UnicodeWords.readsOnly_secretKey (words : UnicodeWords isAlnum) :
    secretKey.ReadsOnly (isNameChar isAlnum) := by
  have hlower : ∀ s ∈ ["pass", "word", "wd", "pwd", "token", "secret", "private", "key", "api",
      "access", "auth", "entication"], s.toList.all Char.isLower = true := by decide +kernel
  have hword (s : String) (hs : s.toList.all Char.isLower = true) :
      (word s).ReadsOnly (isNameChar isAlnum) :=
    Regex.readsOnly_litIgnoreCase fun letter hletter ch =>
      words.isNameChar_of_isLetter (List.all_eq_true.mp hs letter hletter)
  have hdash : optionalDash.ReadsOnly (isNameChar isAlnum) := by
    refine (Regex.readsOnly_one fun ch hch => ?_).opt
    have hmem : ch = '_' ∨ ch = '-' := by simpa using hch
    rcases hmem with rfl | rfl
    · simp [isNameChar, isWord]
    · simp [isNameChar]
  simp only [List.forall_mem_cons, List.not_mem_nil, false_implies, implies_true, and_true]
    at hlower
  obtain ⟨pass, word', wd, pwd, token, secret, private', key, api, access, auth, entication⟩ :=
    hlower
  have hthree (s : String) (hs : s.toList.all Char.isLower = true) :
      (Regex.all [word s, optionalDash, word "key"]).ReadsOnly (isNameChar isAlnum) := by
    refine Regex.readsOnly_all ?_
    simp only [List.forall_mem_cons, List.not_mem_nil, false_implies, implies_true, and_true]
    exact ⟨hword s hs, hdash, hword _ key⟩
  refine Regex.readsOnly_any ?_
  simp only [List.forall_mem_cons, List.not_mem_nil, false_implies, implies_true, and_true]
  refine ⟨(hword _ pass).seq (Regex.ReadsOnly.opt (Regex.readsOnly_any ?_)), hword _ pwd,
    hword _ token, hword _ secret, hthree _ private', hthree _ api, hthree _ access,
    (hword _ auth).seq (hword _ entication).opt⟩
  simp only [List.forall_mem_cons, List.not_mem_nil, false_implies, implies_true, and_true]
  exact ⟨hword _ word', hword _ wd⟩

theorem assignmentStart_isBlind : (assignmentStart isAlnum).isBlind = true := by
  have hkey : secretKey.isBlind = true := by decide +kernel
  simp [assignmentStart, Regex.all, Regex.isBlind, hkey]

theorem UnicodeWords.exists_nameAndSeparator (words : UnicodeWords isAlnum) {place : Regex.Place}
    {m : Regex.Match} (h : m ∈ (assignmentStart isAlnum).ways place) :
    ∃ name blanks separator blanks', m.text = name ++ (blanks ++ separator :: blanks') ∧
      NameAndSeparator isAlnum name blanks separator blanks' := by
  have hname : (Regex.star (.one (isNameChar isAlnum))).ReadsOnly (isNameChar isAlnum) :=
    (Regex.readsOnly_one fun _ h => h).star
  have hblank : (Regex.star (.one isSpace)).ReadsOnly isSpace :=
    (Regex.readsOnly_one fun _ h => h).star
  simp only [assignmentStart, Regex.all] at h
  obtain ⟨front, hfront, m₁, h₁, rfl⟩ := Regex.mem_ways_seq.mp h
  obtain ⟨key, hkey, m₂, h₂, rfl⟩ := Regex.mem_ways_seq.mp h₁
  obtain ⟨back, hback, m₃, h₃, rfl⟩ := Regex.mem_ways_seq.mp h₂
  obtain ⟨blanks, hblanks, m₄, h₄, rfl⟩ := Regex.mem_ways_seq.mp h₃
  obtain ⟨separator, hseparator, m₅, h₅, rfl⟩ := Regex.mem_ways_seq.mp h₄
  obtain ⟨blanks', hblanks', m₆, h₆, rfl⟩ := Regex.mem_ways_seq.mp h₅
  obtain rfl := List.mem_singleton.mp h₆
  obtain ⟨ch, -, -, hch, rfl⟩ := Regex.mem_ways_one.mp hseparator
  refine ⟨front.text ++ (key.text ++ back.text), blanks.text, ch, blanks'.text, ?_, ?_, ?_,
    hblank _ _ hblanks, hch, hblank _ _ hblanks'⟩
  · simp [Regex.Match.andThen, Regex.Match.nothing]
  · exact List.append_ne_nil_of_right_ne_nil _
      (List.append_ne_nil_of_left_ne_nil (readsSome_secretKey _ key hkey) _)
  · intro c hc
    simp only [List.mem_append] at hc
    exact hc.elim (hname _ front hfront c)
      (fun hc => hc.elim (words.readsOnly_secretKey _ key hkey c) (hname _ back hback c))

namespace NameAndSeparator

variable {name blanks blanks' : Str} {separator : Char}

theorem isNameChar_head (h : NameAndSeparator isAlnum name blanks separator blanks') :
    ∃ ch ∈ (name ++ (blanks ++ separator :: blanks')).head?, isNameChar isAlnum ch = true := by
  obtain ⟨ch, name, rfl⟩ := List.exists_cons_of_ne_nil h.name_ne_nil
  exact ⟨ch, rfl, h.name_chars ch List.mem_cons_self⟩

theorem star_not_mem (words : UnicodeWords isAlnum)
    (h : NameAndSeparator isAlnum name blanks separator blanks') :
    '*' ∉ name ++ (blanks ++ separator :: blanks') := by
  have hspace : isSpace '*' = false := by simp [isSpace]
  have hsep : isSeparator '*' = false := by simp [isSeparator]
  simp only [List.mem_append, List.mem_cons]
  rintro (hm | hm | rfl | hm)
  · have hname := h.name_chars _ hm
    rw [words.not_isNameChar (by simp)] at hname
    exact absurd hname Bool.false_ne_true
  · exact absurd (h.blank_chars _ hm) (by rw [hspace]; decide)
  · exact absurd h.separator_char (by rw [hsep]; decide)
  · exact absurd (h.blank_chars' _ hm) (by rw [hspace]; decide)

/-- A text begins with at most one name and separator in front of a value. -/
theorem unique (words : UnicodeWords isAlnum)
    (h : NameAndSeparator isAlnum name blanks separator blanks')
    {name₂ blanks₂ blanks₂' : Str} {separator₂ : Char}
    (h₂ : NameAndSeparator isAlnum name₂ blanks₂ separator₂ blanks₂')
    {value value₂ : Str} (hv : ∀ ch ∈ value.head?, isSpace ch = false)
    (hv₂ : ∀ ch ∈ value₂.head?, isSpace ch = false)
    (heq : name ++ (blanks ++ separator :: blanks') ++ value =
      name₂ ++ (blanks₂ ++ separator₂ :: blanks₂') ++ value₂) :
    name ++ (blanks ++ separator :: blanks') = name₂ ++ (blanks₂ ++ separator₂ :: blanks₂') ∧
      value = value₂ := by
  have hsepName {ch : Char} (hch : isSeparator ch = true) : isNameChar isAlnum ch = false := by
    have hall : ∀ c ∈ ":=".toList, c ∈ "&,;\"'<>:=*".toList := by simp
    exact words.not_isNameChar (hall ch (of_decide_eq_true hch))
  have hname {blanks rest : Str} {ch : Char} (hblanks : ∀ c ∈ blanks, isSpace c = true)
      (hch : isSeparator ch = true) :
      ∀ c ∈ (blanks ++ ch :: rest).head?, isNameChar isAlnum c = false := by
    intro c hc
    cases blanks with
    | nil =>
        obtain rfl : ch = c := by simpa using hc
        exact hsepName hch
    | cons blank blanks =>
        obtain rfl : blank = c := by simpa using hc
        exact words.not_isNameChar_of_isSpace (hblanks blank List.mem_cons_self)
  have hsep {rest : Str} {ch : Char} (hch : isSeparator ch = true) :
      ∀ c ∈ (ch :: rest).head?, isSpace c = false := by
    intro c hc
    obtain rfl : ch = c := by simpa using hc
    exact isSpace_of_isSeparator hch
  simp only [List.append_assoc, List.cons_append] at heq
  obtain ⟨rfl, hblanks⟩ := Regex.run_unique h.name_chars h₂.name_chars
    (hname h.blank_chars h.separator_char) (hname h₂.blank_chars h₂.separator_char) heq
  obtain ⟨rfl, hseparator⟩ := Regex.run_unique h.blank_chars h₂.blank_chars
    (hsep h.separator_char) (hsep h₂.separator_char) hblanks
  obtain ⟨rfl, hblanks'⟩ := List.cons_eq_cons.mp hseparator
  obtain ⟨rfl, rfl⟩ := Regex.run_unique h.blank_chars' h₂.blank_chars' hv hv₂ hblanks'
  exact ⟨rfl, rfl⟩

end NameAndSeparator

theorem Assignment.value_head (h : Assignment isAlnum before start value rest) :
    ∃ ch ∈ value.head?, isValueChar ch = true := by
  obtain ⟨ch, value, rfl⟩ := List.exists_cons_of_ne_nil h.value_ne_nil
  exact ⟨ch, rfl, h.value_chars ch List.mem_cons_self⟩

/-- A text begins with at most one assignment. -/
theorem Assignment.unique (words : UnicodeWords isAlnum)
    (h : Assignment isAlnum before start value rest) {before₂ start₂ value₂ rest₂ : Str}
    (h₂ : Assignment isAlnum before₂ start₂ value₂ rest₂)
    (heq : start ++ (value ++ rest) = start₂ ++ (value₂ ++ rest₂)) :
    start = start₂ ∧ value = value₂ ∧ rest = rest₂ := by
  have hspace {value rest : Str} (hv : ∃ ch ∈ value.head?, isValueChar ch = true) :
      ∀ ch ∈ (value ++ rest).head?, isSpace ch = false := by
    obtain ⟨first, hfirst, hchar⟩ := hv
    intro ch hch
    rw [List.head?_append, Option.mem_def.mp hfirst] at hch
    obtain rfl : first = ch := by simpa using hch
    rw [isValueChar, Bool.and_eq_true] at hchar
    simpa using hchar.1
  obtain ⟨place, m, hm, rfl⟩ := h.reads
  obtain ⟨place₂, m₂, hm₂, rfl⟩ := h₂.reads
  obtain ⟨name, blanks, separator, blanks', htext, hname⟩ := words.exists_nameAndSeparator hm
  obtain ⟨name₂, blanks₂, separator₂, blanks₂', htext₂, hname₂⟩ :=
    words.exists_nameAndSeparator hm₂
  rw [htext, htext₂] at heq ⊢
  obtain ⟨hstart, hvalue⟩ :=
    hname.unique words hname₂ (hspace h.value_head) (hspace h₂.value_head) heq
  exact ⟨hstart, Regex.run_unique h.value_chars h₂.value_chars h.rest_head h₂.rest_head hvalue⟩

/-- What the preferred way to match reads. -/
theorem UnicodeWords.assignment_of_head? (words : UnicodeWords isAlnum) {after : Str}
    {m : Regex.Match}
    (h : ((secretAssignment isAlnum).ways ⟨before, after⟩).head? = some m) :
    ∃ start value rest, after = start ++ (value ++ rest) ∧
      Assignment isAlnum before start value rest ∧ m.text = start ++ value ∧
      m.group "prefix" = some start := by
  rw [Regex.head?_ways, secretAssignment_eq, Regex.first_seq, Regex.first,
    List.findSome?_eq_some_iff] at h
  obtain ⟨_, n, _, hways, hvalue, -⟩ := h
  have hgroup : n ∈ (Regex.group "prefix" (.seq (.boundary (isWord isAlnum))
      (assignmentStart isAlnum))).ways ⟨before, after⟩ := by
    rw [hways]
    simp
  obtain ⟨n, hn, rfl⟩ := List.mem_map.mp hgroup
  obtain ⟨tail, htail⟩ := Regex.ways_reads _ hn
  obtain rfl : n.text ++ tail = after := htail
  obtain ⟨value, rest, rfl, hrun, hrest, -⟩ := Regex.exists_run isValueChar tail
  rw [Regex.skip_append, Regex.first_group] at hvalue
  have hne : value ≠ [] := by
    rintro rfl
    have hfails : (Regex.plus (.one isValueChar)).Fails ⟨n.text.reverse ++ before, rest⟩ :=
      (Regex.fails_one hrest).seq _
    rw [List.nil_append, hfails.first] at hvalue
    exact absurd hvalue (Option.some_ne_none m).symm
  obtain rfl := Option.some.inj (hvalue.symm.trans (Regex.first_plus hne hrun hrest rfl))
  obtain ⟨_, hedge, start, hstart, rfl⟩ := Regex.mem_ways_seq.mp hn
  obtain ⟨hsides, rfl⟩ := Regex.mem_ways_here.mp hedge
  obtain ⟨name, blanks, separator, blanks', htext, hname⟩ := words.exists_nameAndSeparator hstart
  obtain ⟨ch, hch, -⟩ := hname.isNameChar_head
  have hhead : start.text.head? = some ch := by rw [htext, hch]
  rw [Regex.nothing_andThen] at hsides ⊢
  refine ⟨start.text, value, rest, rfl, ⟨?_, ⟨_, start, hstart, rfl⟩, hne, hrun, hrest⟩, rfl, rfl⟩
  rwa [List.head?_append, hhead, Option.some_or, ← hhead] at hsides

/-- Any assignment at the place is the one that is read. -/
theorem Assignment.head?_ways (words : UnicodeWords isAlnum)
    (h : Assignment isAlnum before start value rest) :
    ∃ m, ((secretAssignment isAlnum).ways ⟨before, start ++ (value ++ rest)⟩).head? = some m ∧
      m.text = start ++ value ∧ m.group "prefix" = some start := by
  obtain ⟨place, n, hn, rfl⟩ := h.reads
  obtain ⟨name, blanks, separator, blanks', htext, hname⟩ := words.exists_nameAndSeparator hn
  have hway : (secretAssignment isAlnum).ways ⟨before, n.text ++ (value ++ rest)⟩ ≠ [] := by
    have hstart := Regex.mem_ways_elsewhere assignmentStart_isBlind hn before (value ++ rest)
    have hedge : .nothing ∈ (Regex.boundary (isWord isAlnum)).ways
        ⟨before, n.text ++ (value ++ rest)⟩ := by
      obtain ⟨ch, hch, -⟩ := hname.isNameChar_head
      have hhead : n.text.head? = some ch := by rw [htext, hch]
      refine Regex.mem_ways_here.mpr ⟨?_, rfl⟩
      have hedge := h.edge
      rwa [List.head?_append, hhead] at *
    have hvalue : (Regex.plus (.one isValueChar)).first
        ⟨n.text.reverse ++ before, value ++ rest⟩ some = some ⟨value, []⟩ :=
      Regex.first_plus h.value_ne_nil h.value_chars h.rest_head rfl
    rw [← Regex.head?_ways] at hvalue
    rw [secretAssignment_eq]
    refine List.ne_nil_of_mem (Regex.mem_ways_seq.mpr ⟨_, List.mem_map.mpr ⟨n, ?_, rfl⟩, _,
      List.mem_map.mpr ⟨⟨value, []⟩, ?_, rfl⟩, rfl⟩)
    · exact Regex.mem_ways_seq.mpr ⟨_, hedge, n, hstart, rfl⟩
    · rw [Regex.skip_append]
      exact List.mem_of_mem_head? hvalue
  obtain ⟨m, hm⟩ := Option.ne_none_iff_exists'.mp (mt List.head?_eq_none_iff.mp hway)
  obtain ⟨start, value₂, rest₂, heq, h₂, hread, hgroup⟩ := words.assignment_of_head? hm
  obtain ⟨rfl, rfl, -⟩ := h.unique words h₂ heq
  exact ⟨m, hm, hread, hgroup⟩

end Assignments

/-! ## Masked values -/

/-- The second text is the first with the mask in place of some of its values. -/
inductive MasksValues : Str → Str → Prop
  | nil : MasksValues [] []
  | keep (ch : Char) {s t : Str} : MasksValues s t → MasksValues (ch :: s) (ch :: t)
  | hide {value s t : Str} (hne : value ≠ []) (hchars : ∀ ch ∈ value, isValueChar ch = true) :
      MasksValues s t → MasksValues (value ++ s) (mask ++ t)

namespace MasksValues

variable {s t start : Str}

/-- What shows no part of a mask stood there before. -/
theorem of_append (hstart : '*' ∉ start) (h : MasksValues s (start ++ t)) :
    ∃ s', s = start ++ s' ∧ MasksValues s' t := by
  induction start generalizing s with
  | nil => exact ⟨s, rfl, h⟩
  | cons ch start ih =>
      rw [List.mem_cons, not_or] at hstart
      rw [List.cons_append] at h
      generalize htext : ch :: (start ++ t) = text at h
      cases h with
      | nil => exact absurd htext (List.cons_ne_nil _ _)
      | keep first h =>
          obtain ⟨rfl, rfl⟩ := List.cons_eq_cons.mp htext
          obtain ⟨s', rfl, h'⟩ := ih hstart.2 h
          exact ⟨s', rfl, h'⟩
      | hide hne hchars h =>
          exact absurd (List.cons_eq_cons.mp htext).1 (Ne.symm hstart.1)

/-- A value begins where a value or its mask begins. -/
theorem any_head? (h : MasksValues s t) : t.head?.any isValueChar = s.head?.any isValueChar := by
  cases h with
  | nil => rfl
  | keep ch h => rfl
  | @hide value s t hne hchars h =>
      obtain ⟨ch, value, rfl⟩ := List.exists_cons_of_ne_nil hne
      have hstar : isValueChar '*' = true := by simp [isValueChar, isSpace]
      have hch := hchars ch List.mem_cons_self
      rw [mask, List.cons_append, List.head?_cons, Option.any_some, hch]
      exact hstar

end MasksValues

/-! ## The second pass -/

/-- The replacement of the assignments, from a place on. -/
def maskFrom (isAlnum : Char → Bool) (before after : Str) : Str :=
  (secretAssignment isAlnum).subFrom (fun m => (m.group "prefix").getD [] ++ mask) 0 before after

section SecondPass

variable {isAlnum : Char → Bool} {before before' start value rest after : Str}

theorem masksValues_maskFrom (isAlnum : Char → Bool) (before after : Str) :
    MasksValues after (maskFrom isAlnum before after) := by
  have hsome : (Regex.plus (.one isValueChar)).ReadsSome := .seq_left _ (Regex.readsSome_one _)
  have honly : (Regex.plus (.one isValueChar)).ReadsOnly isValueChar :=
    (Regex.readsOnly_one fun _ h => h).seq (Regex.readsOnly_one fun _ h => h).star
  refine Regex.subFrom_cases .nil (fun ch s t h => .keep ch h) ?_
    (.seq_right _ (.group _ hsome)) 0 before after
  intro place m hm s t h
  obtain ⟨n, hn, k, hk, rfl⟩ := Regex.mem_ways_seq.mp hm
  obtain ⟨first, -, rfl⟩ := List.mem_map.mp hn
  obtain ⟨value, hvalue, rfl⟩ := List.mem_map.mp hk
  have hkept : ((Regex.Match.mk first.text (("prefix", first.text) :: first.groups)).andThen
      ⟨value.text, ("value", value.text) :: value.groups⟩).group "prefix" = some first.text := rfl
  rw [hkept, Regex.Match.andThen, Option.getD_some, List.append_assoc, List.append_assoc]
  have hhide := MasksValues.hide (hsome _ _ hvalue) (honly _ _ hvalue) h
  generalize first.text = kept
  induction kept with
  | nil => exact hhide
  | cons ch kept ih => exact .keep ch ih

/-- The two texts before a place make no difference to what may begin there. -/
def SameEdge (isAlnum : Char → Bool) (before before' after : Str) : Prop :=
  before.head?.any (isWord isAlnum) = before'.head?.any (isWord isAlnum) ∨
    ∀ ch ∈ after.head?, isNameChar isAlnum ch = false

theorem Assignment.transfer (words : UnicodeWords isAlnum)
    (h : Assignment isAlnum before start value rest) {s value' rest' : Str}
    (hedge : SameEdge isAlnum before before' (start ++ s)) (hne : value' ≠ [])
    (hchars : ∀ ch ∈ value', isValueChar ch = true)
    (hrest : ∀ ch ∈ rest'.head?, isValueChar ch = false) :
    Assignment isAlnum before' start value' rest' := by
  refine ⟨?_, h.reads, hne, hchars, hrest⟩
  obtain ⟨place, m, hm, rfl⟩ := h.reads
  obtain ⟨name, blanks, separator, blanks', htext, hname⟩ := words.exists_nameAndSeparator hm
  obtain ⟨ch, hch, hchar⟩ := hname.isNameChar_head
  rcases hedge with hedge | hedge
  · rw [← hedge]
    exact h.edge
  · have hhead : (m.text ++ s).head? = some ch := by
      rw [htext, List.head?_append, hch, Option.some_or]
    exact absurd hchar (by rw [hedge ch hhead]; decide)

theorem maskFrom_match (words : UnicodeWords isAlnum)
    (h : Assignment isAlnum before start value rest) :
    maskFrom isAlnum before (start ++ (value ++ rest)) =
      start ++ (mask ++ maskFrom isAlnum ((start ++ value).reverse ++ before) rest) := by
  obtain ⟨m, hm, hread, hgroup⟩ := h.head?_ways words
  have hne : m.text ≠ [] := by
    rw [hread]
    exact List.append_ne_nil_of_right_ne_nil _ h.value_ne_nil
  rw [← List.append_assoc, ← hread] at hm ⊢
  rw [maskFrom, Regex.subFrom_match hne hm, hgroup, Option.getD_some, List.append_assoc]
  rfl

/-- Where nothing is read in the text, nothing is read in the masked text. -/
theorem head?_ways_maskFrom (words : UnicodeWords isAlnum) {ch : Char} {masked : Str}
    (hnone : ((secretAssignment isAlnum).ways ⟨before, ch :: after⟩).head? = none)
    (hmasked : MasksValues (ch :: after) (ch :: masked))
    (hedge : SameEdge isAlnum before before' (ch :: after)) :
    ((secretAssignment isAlnum).ways ⟨before', ch :: masked⟩).head? = none := by
  by_contra hsome
  obtain ⟨m, hm⟩ := Option.ne_none_iff_exists'.mp hsome
  obtain ⟨start, value, rest, heq, h, -⟩ := words.assignment_of_head? hm
  have hstar : '*' ∉ start := by
    obtain ⟨place, n, hn, rfl⟩ := h.reads
    obtain ⟨name, blanks, separator, blanks', htext, hname⟩ := words.exists_nameAndSeparator hn
    rw [htext]
    exact hname.star_not_mem words
  rw [heq] at hmasked
  obtain ⟨s, hs, hmasked⟩ := hmasked.of_append hstar
  -- The masked text goes on with a value, so the text does.
  obtain ⟨first, hfirst, hchar⟩ := h.value_head
  have hvalue : s.head?.any isValueChar = true := by
    rw [← hmasked.any_head?, List.head?_append, Option.mem_def.mp hfirst]
    exact hchar
  obtain ⟨value', rest', rfl, hrun, hrest, hne⟩ := Regex.exists_run isValueChar s
  have hedge' : SameEdge isAlnum before' before (start ++ (value' ++ rest')) :=
    hs ▸ hedge.imp Eq.symm id
  obtain ⟨m', hm', -⟩ := (h.transfer words hedge' (hne ((Option.any_eq_true _ _).mp hvalue))
    hrun hrest).head?_ways words
  rw [hs, hm'] at hnone
  exact absurd hnone (Option.some_ne_none m')

/-- **Masked assignments stay as they are.** -/
theorem maskFrom_maskFrom (words : UnicodeWords isAlnum)
    (hedge : SameEdge isAlnum before before' after) :
    maskFrom isAlnum before' (maskFrom isAlnum before after) = maskFrom isAlnum before after := by
  -- Induction on the length of the text: behind a match both passes go on behind its value.
  induction hlen : after.length using Nat.strong_induction_on generalizing before before' after with
  | _ length ih =>
      cases after with
      | nil => rfl
      | cons ch after =>
          cases hm : ((secretAssignment isAlnum).ways ⟨before, ch :: after⟩).head? with
          | none =>
              have hkept : maskFrom isAlnum before (ch :: after) =
                  ch :: maskFrom isAlnum (ch :: before) after := Regex.subFrom_none hm
              have hmasked := masksValues_maskFrom isAlnum (ch :: before) after
              have hagain := head?_ways_maskFrom words hm (.keep ch hmasked) hedge
              have hedge' : SameEdge isAlnum (ch :: before) (ch :: before') after := .inl rfl
              have hnext := ih after.length (by simp [← hlen]) hedge' rfl
              rw [hkept, maskFrom, Regex.subFrom_none hagain]
              exact congrArg (ch :: ·) hnext
          | some m =>
              obtain ⟨start, value, rest, heq, h, -⟩ := words.assignment_of_head? hm
              rw [heq] at hedge ⊢
              have hmasked := masksValues_maskFrom isAlnum ((start ++ value).reverse ++ before) rest
              have hrest : ∀ ch ∈
                  (maskFrom isAlnum ((start ++ value).reverse ++ before) rest).head?,
                  isValueChar ch = false := by
                have hany : rest.head?.any isValueChar = false := by
                  simpa [Option.any_eq_false] using h.rest_head
                rw [← hmasked.any_head?] at hany
                simpa [Option.any_eq_false] using hany
              have h' := h.transfer words hedge (show mask ≠ [] by decide)
                (by simp [mask, isValueChar, isSpace]) hrest
              have hshort : rest.length < length := by
                have hpos := List.length_pos_iff.mpr h.value_ne_nil
                rw [← hlen, heq, List.length_append, List.length_append]
                omega
              have hedge' : SameEdge isAlnum ((start ++ value).reverse ++ before)
                  ((start ++ mask).reverse ++ before') rest := by
                refine .inr fun c hc => Bool.eq_false_iff.mpr fun hname => ?_
                have hchar := words.isValueChar_of_isNameChar hname
                exact absurd hchar (by rw [h.rest_head c hc]; decide)
              rw [maskFrom_match words h, maskFrom_match words h', ih rest.length hshort hedge' rfl]

end SecondPass

theorem replaceFrom_of_not_infix {old new s : Str} (h : ¬ old <:+: s) :
    replaceFrom old new 0 s = s := by
  induction s with
  | nil => rfl
  | cons ch s ih =>
      rw [List.infix_cons_iff, not_or] at h
      rw [replaceFrom, if_neg (by rw [List.isPrefixOf_iff_prefix]; exact h.1), ih h.2]

/-- Secrets that do not occur leave the message as it is. -/
theorem foldl_redactSecretOccurrences {secrets : List Str} {message : Str}
    (h : ∀ secret ∈ secrets, Maskable secret ∧ ¬ secret <:+: message) :
    secrets.foldl redactSecretOccurrences message = message := by
  induction secrets with
  | nil => rfl
  | cons secret secrets ih =>
      obtain ⟨hmaskable, habsent⟩ := h secret List.mem_cons_self
      rw [List.foldl_cons, redactSecretOccurrences, if_pos hmaskable.1, replaceAll,
        replaceFrom_of_not_infix habsent]
      exact ih fun s hs => h s (List.mem_cons_of_mem secret hs)

/-- **Redaction is idempotent,** in whatever order the sets of both passes give the candidates. -/
theorem redactDsnErrorMessage_idempotent (lib : UrlLib) (isAlnum : Char → Bool)
    (words : UnicodeWords isAlnum) (order order' : SetOrder) (message dsn : Str)
    (hsecrets : ∀ secret ∈ passwordCandidatesFromDsn lib dsn, Maskable secret) :
    redactDsnErrorMessage lib isAlnum order' (redactDsnErrorMessage lib isAlnum order message dsn)
      dsn = redactDsnErrorMessage lib isAlnum order message dsn := by
  have hgone : ∀ secret ∈ (order'.enumerate (passwordCandidatesFromDsn lib dsn)).mergeSort
      (fun a b => b.length ≤ a.length), Maskable secret ∧
        ¬ secret <:+: redactDsnErrorMessage lib isAlnum order message dsn := by
    intro secret hsecret
    have hmem := (order'.perm _).mem_iff.mp (List.mem_mergeSort.mp hsecret)
    have hmaskable := hsecrets secret hmem
    exact ⟨hmaskable, not_infix_redactDsnErrorMessage lib isAlnum order message hmaskable hmem⟩
  rw [redactDsnErrorMessage, foldl_redactSecretOccurrences hgone]
  exact maskFrom_maskFrom words (.inl rfl)

/-- The alphanumeric characters of ASCII and the letters that ignoring case takes for them. -/
def smallAlnum (ch : Char) : Bool := ch.isAlphanum || ch ∈ ['ſ', '\u212a', 'İ', 'ı']

theorem unicodeWords_smallAlnum : UnicodeWords smallAlnum where
  ascii ch h := by
    have hmem : ch ∉ ['ſ', '\u212a', 'İ', 'ı'] := by
      have hlarge : ∀ c ∈ ['ſ', '\u212a', 'İ', 'ı'], 128 ≤ c.toNat := by simp
      exact fun hm => absurd (hlarge ch hm) (Nat.not_le.mpr h)
    rw [smallAlnum, decide_eq_false hmem, Bool.or_false]
  space ch h := by
    have hmem : ch ∉ ['ſ', '\u212a', 'İ', 'ı'] := by
      have hletter : ∀ c ∈ ['ſ', '\u212a', 'İ', 'ı'], isSpace c = false := by simp [isSpace]
      exact fun hm => absurd h (by rw [hletter ch hm]; decide)
    have halnum : ch.isAlphanum = false :=
      Bool.eq_false_iff.mpr fun ha => absurd h (by rw [isSpace_of_isAlphanum ha]; decide)
    rw [smallAlnum, halnum, decide_eq_false hmem, Bool.or_false]
  folded ch h := by rw [smallAlnum, decide_eq_true h, Bool.or_true]

theorem redactDsnErrorMessage_idempotent_secret :
    redactDsnErrorMessage ⟨fun _ => true, id⟩ smallAlnum ⟨List.reverse, List.reverse_perm⟩
      (redactDsnErrorMessage ⟨fun _ => true, id⟩ smallAlnum ⟨id, fun _ => .refl _⟩
        "no login: password=secret99 for secret99".toList "postgres://u:secret99@h/db".toList)
      "postgres://u:secret99@h/db".toList =
    redactDsnErrorMessage ⟨fun _ => true, id⟩ smallAlnum ⟨id, fun _ => .refl _⟩
      "no login: password=secret99 for secret99".toList "postgres://u:secret99@h/db".toList :=
  redactDsnErrorMessage_idempotent _ _ unicodeWords_smallAlnum _ _ _ _ (by decide +kernel)

end PgErdCloud.Redaction
