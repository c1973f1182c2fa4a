/-
  Backtracking regular expressions. A pattern is matched at a place in a text, which is what
  stands before it and what stands behind it, and the ways to match come in the order in
  which a backtracking matcher finds them. Nothing here belongs to one program.
-/
import PgErdCloud.Lib.PyStr

namespace PgErdCloud.Lib

open PyStr

/-- `one` reads a character; `here` reads nothing and looks at the characters on both sides. -/
inductive Regex
  | empty
  | one (ok : Char → Bool)
  | here (ok : Option Char → Option Char → Bool)
  | seq (p q : Regex)
  | alt (p q : Regex)
  | star (p : Regex)
  | group (name : String) (p : Regex)

namespace Regex

/-- The text before the place has its last character first. -/
structure Place where
  before : Str
  after : Str

/-- The text that was read, and what each group read in it. -/
structure Match where
  text : Str
  groups : List (String × Str)

namespace Place

/-- The place behind a text that was read here. -/
def skip (place : Place) (text : Str) : Place :=
  ⟨text.reverse ++ place.before, place.after.drop text.length⟩

end Place

namespace Match

/-- Having read nothing. -/
def nothing : Match := ⟨[], []⟩

/-- One match and then another. -/
def andThen (m n : Match) : Match := ⟨m.text ++ n.text, m.groups ++ n.groups⟩

/-- `m.group(name)`; `none` where the group took no part. -/
def group (m : Match) (name : String) : Option Str :=
  (m.groups.find? fun g => g.1 = name).map Prod.snd

end Match

/-! ## Matching -/

/-- As many rounds as possible come first. A round that reads nothing ends the repetition. -/
def repeated (round : Place → List Match) : Nat → Place → List Match
  | 0, _ => [.nothing]
  | fuel + 1, place =>
      ((round place).filter fun m => m.text ≠ []).flatMap (fun m =>
        (repeated round fuel (place.skip m.text)).map m.andThen) ++ [.nothing]

/-- The ways to match a pattern at a place, the preferred one first. -/
def ways : Regex → Place → List Match
  | empty, _ => [.nothing]
  | one ok, place =>
      match place.after with
      | ch :: _ => if ok ch then [⟨[ch], []⟩] else []
      | [] => []
  | here ok, place => if ok place.before.head? place.after.head? then [.nothing] else []
  | seq p q, place => (p.ways place).flatMap fun m =>
      (q.ways (place.skip m.text)).map m.andThen
  | alt p q, place => p.ways place ++ q.ways place
  | star p, place => repeated p.ways place.after.length place
  | group name p, place => (p.ways place).map fun m => ⟨m.text, (name, m.text) :: m.groups⟩

/-- `p.match(s)` -/
def matchStart (p : Regex) (s : Str) : Option Match := (p.ways ⟨[], s⟩).head?

/-- `p.search(s)`, from a place on. -/
def searchFrom (p : Regex) : Str → Str → Option Match
  | before, [] => (p.ways ⟨before, []⟩).head?
  | before, ch :: after =>
      ((p.ways ⟨before, ch :: after⟩).head?).or (searchFrom p (ch :: before) after)

/-- `re.search`: the first match from the left. -/
def search (p : Regex) (s : Str) : Option Match := searchFrom p [] s

/-- `p.sub(new, s)` for a pattern that always reads something, with the number of characters
    that the last match has still to read. -/
def subFrom (p : Regex) (new : Match → Str) : Nat → Str → Str → Str
  | _, _, [] => []
  | pending + 1, before, ch :: after => subFrom p new pending (ch :: before) after
  | 0, before, ch :: after =>
      match (p.ways ⟨before, ch :: after⟩).head? with
      | some m => new m ++ subFrom p new (m.text.length - 1) (ch :: before) after
      | none => ch :: subFrom p new 0 (ch :: before) after

/-- `re.sub`: the matches from the left, without overlap, each replaced. -/
def sub (p : Regex) (new : Match → Str) (s : Str) : Str := subFrom p new 0 [] s

/-- `p.finditer(s)` for a pattern that always reads something. -/
def findAllFrom (p : Regex) : Nat → Str → Str → List Match
  | _, _, [] => []
  | pending + 1, before, ch :: after => findAllFrom p pending (ch :: before) after
  | 0, before, ch :: after =>
      match (p.ways ⟨before, ch :: after⟩).head? with
      | some m => m :: findAllFrom p (m.text.length - 1) (ch :: before) after
      | none => findAllFrom p 0 (ch :: before) after

/-- `p.findall(s)` for a pattern without groups. -/
def findAll (p : Regex) (s : Str) : List Str := (findAllFrom p 0 [] s).map Match.text

/-! ## Abbreviations -/

/-- `p+` -/
def plus (p : Regex) : Regex := seq p (star p)

/-- `p?` -/
def opt (p : Regex) : Regex := alt p empty

/-- One pattern after another. -/
def all : List Regex → Regex
  | [] => empty
  | p :: ps => seq p (all ps)

/-- One of several patterns, the first that matches. -/
def any : List Regex → Regex
  | [] => here fun _ _ => false
  | [p] => p
  | p :: ps => alt p (any ps)

/-- The characters of a text, read as themselves. -/
def lit (s : Str) : Regex := all (s.map fun ch => one (· = ch))

/-- A lower-case letter of ASCII and the characters that ignoring case takes for it. -/
def isLetter (letter ch : Char) : Bool :=
  ch.toLower = letter || (letter = 's' && ch = 'ſ') || (letter = 'k' && ch = '\u212a') ||
    (letter = 'i' && (ch = 'İ' || ch = 'ı'))

/-- A lower-case text of ASCII without regard to case. -/
def litIgnoreCase (s : String) : Regex := all (s.toList.map fun ch => one (isLetter ch))

/-- `^` -/
def lineStart : Regex := here fun before _ => before.isNone

/-- `$` in a text that is one line. -/
def lineEnd : Regex := here fun _ after => after.isNone

/-- `\b` for a class of word characters. -/
def boundary (isWord : Char → Bool) : Regex :=
  here fun before after => before.any isWord != after.any isWord

/-! ## What is read stands there -/

variable {place : Place} {m : Match}

theorem mem_ways_seq {p q : Regex} : m ∈ (seq p q).ways place ↔
    ∃ n ∈ p.ways place, ∃ rest ∈ q.ways (place.skip n.text), n.andThen rest = m := by
  rw [ways, List.mem_flatMap]
  simp only [List.mem_map]

theorem repeated_reads {round : Place → List Match}
    (hround : ∀ place n, n ∈ round place → n.text <+: place.after) (fuel : Nat)
    (h : m ∈ repeated round fuel place) : m.text <+: place.after := by
  induction fuel generalizing place m with
  | zero =>
      obtain rfl := List.mem_singleton.mp h
      exact List.nil_prefix
  | succ fuel ih =>
      rw [repeated, List.mem_append, List.mem_flatMap] at h
      rcases h with ⟨n, hn, h⟩ | h
      · obtain ⟨rest, hrest, rfl⟩ := List.mem_map.mp h
        obtain ⟨tail, htail⟩ := hround _ _ (List.mem_of_mem_filter hn)
        have hrest' := ih hrest
        rw [Place.skip, ← htail, List.drop_left] at hrest'
        rw [Match.andThen, ← htail]
        exact (List.prefix_append_right_inj _).mpr hrest'
      · obtain rfl := List.mem_singleton.mp h
        exact List.nil_prefix

/-- **A match is what stands behind the place.** -/
theorem ways_reads (p : Regex) (h : m ∈ p.ways place) : m.text <+: place.after := by
  induction p generalizing place m with
  | empty =>
      obtain rfl := List.mem_singleton.mp h
      exact List.nil_prefix
  | one ok =>
      obtain ⟨before, _ | ⟨ch, after⟩⟩ := place
      · exact absurd h List.not_mem_nil
      · simp only [ways] at h
        split_ifs at h
        · obtain rfl := List.mem_singleton.mp h
          exact ⟨after, rfl⟩
        · exact absurd h List.not_mem_nil
  | here ok =>
      rw [ways] at h
      split_ifs at h
      · obtain rfl := List.mem_singleton.mp h
        exact List.nil_prefix
      · exact absurd h List.not_mem_nil
  | seq p q ihp ihq =>
      obtain ⟨n, hn, rest, hrest, rfl⟩ := mem_ways_seq.mp h
      obtain ⟨tail, htail⟩ := ihp hn
      have hrest' := ihq hrest
      rw [Place.skip, ← htail, List.drop_left] at hrest'
      rw [Match.andThen, ← htail]
      exact (List.prefix_append_right_inj _).mpr hrest'
  | alt p q ihp ihq =>
      rw [ways, List.mem_append] at h
      exact h.elim ihp ihq
  | star p ih => exact repeated_reads (fun _ _ hn => ih hn) _ h
  | group name p ih =>
      rw [ways] at h
      obtain ⟨n, hn, rfl⟩ := List.mem_map.mp h
      have hread : n.text <+: place.after := ih hn
      exact hread

/-- Every match of the pattern has a character. -/
def ReadsSome (p : Regex) : Prop := ∀ place, ∀ m ∈ p.ways place, m.text ≠ []

theorem readsSome_one (ok : Char → Bool) : (one ok).ReadsSome := by
  rintro ⟨before, _ | ⟨ch, after⟩⟩ m hm
  · exact absurd hm List.not_mem_nil
  · simp only [ways] at hm
    split_ifs at hm
    · obtain rfl := List.mem_singleton.mp hm
      exact List.cons_ne_nil _ _
    · exact absurd hm List.not_mem_nil

theorem ReadsSome.seq_left {p : Regex} (q : Regex) (h : p.ReadsSome) : (seq p q).ReadsSome := by
  intro place m hm
  obtain ⟨n, hn, rest, -, rfl⟩ := mem_ways_seq.mp hm
  exact List.append_ne_nil_of_left_ne_nil (h place n hn) _

theorem ReadsSome.seq_right (p : Regex) {q : Regex} (h : q.ReadsSome) : (seq p q).ReadsSome := by
  intro place m hm
  obtain ⟨n, -, rest, hrest, rfl⟩ := mem_ways_seq.mp hm
  exact List.append_ne_nil_of_right_ne_nil _ (h _ rest hrest)

theorem ReadsSome.group {p : Regex} (name : String) (h : p.ReadsSome) :
    (group name p).ReadsSome := by
  intro place m hm
  obtain ⟨n, hn, rfl⟩ := List.mem_map.mp hm
  exact h place n hn

/-- A match of two groups in a row is what the first read and then what the second read. -/
theorem ways_two_groups {name name' : String} {p q : Regex}
    (h : m ∈ (seq (group name p) (group name' q)).ways place) :
    ∃ value, m.text = (m.group name).getD [] ++ value := by
  obtain ⟨n, hn, rest, -, rfl⟩ := mem_ways_seq.mp h
  obtain ⟨first, -, rfl⟩ := List.mem_map.mp hn
  exact ⟨rest.text, by simp [Match.andThen, Match.group]⟩

/-- What is put in place of the matches: a text of its own, behind the part of the match that
    is kept. -/
theorem subFrom_cases {p : Regex} {new : Match → Str} {R : Str → Str → Prop}
    (hnil : R [] [])
    (hkeep : ∀ ch s t, R s t → R (ch :: s) (ch :: t))
    (hnew : ∀ place m, m ∈ p.ways place → ∀ s t, R s t → R (m.text ++ s) (new m ++ t))
    (hsome : p.ReadsSome)
    (pending : Nat) (before after : Str) :
    R (after.drop pending) (subFrom p new pending before after) := by
  induction after generalizing pending before with
  | nil => simpa [subFrom] using hnil
  | cons ch after ih =>
      cases pending with
      | succ pending => exact ih pending (ch :: before)
      | zero =>
          rw [List.drop_zero, subFrom]
          cases hm : (p.ways ⟨before, ch :: after⟩).head? with
          | none => exact hkeep ch _ _ (ih 0 (ch :: before))
          | some m =>
              have hmem := List.mem_of_mem_head? hm
              have hreads := ways_reads p hmem
              obtain ⟨first, text, htext⟩ := List.exists_cons_of_ne_nil (hsome _ _ hmem)
              obtain ⟨tail, htail⟩ := hreads
              rw [htext, List.cons_append] at htail
              obtain ⟨rfl, rfl⟩ : first = ch ∧ text ++ tail = after := by simpa using htail
              have key := hnew _ _ hmem _ _ (ih text.length (first :: before))
              rw [htext, List.drop_left, List.cons_append] at key
              simpa only [htext, List.length_cons, Nat.add_sub_cancel] using key

end Regex

end PgErdCloud.Lib
