/-
  Tables of Markdown: a row is a line whose cells stand between pipes. A pipe behind an odd
  number of backslashes is escaped and ends no cell. What is written with escapes is read back.
-/
import PgErdCloud.Lib.Words

namespace PgErdCloud.Lib.Markdown

open PyStr

/-! ## Escaped pipes -/

/-- Whether an odd number of backslashes ends a text; `odd` says so of what stands before it. -/
def oddAfter : Bool → Str → Bool
  | odd, [] => odd
  | odd, ch :: s => oddAfter (!odd && ch = '\\') s

/-- How many pipes are escaped, or are not. -/
def pipes (escaped : Bool) : Bool → Str → Nat
  | _, [] => 0
  | odd, ch :: s =>
      (if ch = '|' ∧ odd = escaped then 1 else 0) + pipes escaped (!odd && ch = '\\') s

/-- The pipes behind an odd number of backslashes. -/
def escapedPipes (s : Str) : Nat := pipes true false s

/-- The other pipes, which end a cell. -/
def unescapedPipes (s : Str) : Nat := pipes false false s

example : unescapedPipes "a\\|b\\\\|c|".toList = 2 := by decide

theorem oddAfter_append (odd : Bool) (s t : Str) :
    oddAfter odd (s ++ t) = oddAfter (oddAfter odd s) t := by
  induction s generalizing odd with
  | nil => rfl
  | cons ch s ih => exact ih _

theorem oddAfter_append_singleton (odd : Bool) (s : Str) {ch : Char} (h : ch ≠ '\\') :
    oddAfter odd (s ++ [ch]) = false := by
  rw [oddAfter_append, oddAfter, oddAfter, decide_eq_false h, Bool.and_false]

/-- The state of the scan is what it is said to be. -/
theorem oddAfter_eq (s : Str) :
    oddAfter false s = decide ((s.reverse.takeWhile (· = '\\')).length % 2 = 1) := by
  induction s using List.reverseRecOn with
  | nil => rfl
  | append_singleton s ch ih =>
      rw [List.reverse_append, List.reverse_singleton, List.singleton_append]
      by_cases hch : ch = '\\'
      · rw [oddAfter_append, ih, List.takeWhile_cons_of_pos (by simpa using hch),
          List.length_cons, oddAfter, oddAfter, decide_eq_true hch, Bool.and_true,
          ← decide_not, decide_eq_decide]
        omega
      · rw [oddAfter_append_singleton _ _ hch, List.takeWhile_cons_of_neg (by simpa using hch)]
        rfl

theorem pipes_append (escaped odd : Bool) (s t : Str) :
    pipes escaped odd (s ++ t) = pipes escaped odd s + pipes escaped (oddAfter odd s) t := by
  induction s generalizing odd with
  | nil => rw [List.nil_append, pipes, Nat.zero_add, oddAfter]
  | cons ch s ih => rw [List.cons_append, pipes, pipes, oddAfter, ih, Nat.add_assoc]

theorem pipes_of_not_mem {s : Str} (h : '|' ∉ s) (escaped odd : Bool) :
    pipes escaped odd s = 0 := by
  induction s generalizing odd with
  | nil => rfl
  | cons ch s ih =>
      have hne : ¬ (ch = '|' ∧ odd = escaped) := fun he => h (he.1 ▸ List.mem_cons_self)
      rw [pipes, if_neg hne, ih fun hm => h (List.mem_cons_of_mem _ hm)]

/-! ## Rows -/

/-- A cell between the blanks that a row has around it. -/
def pad (cell : Str) : Str := ' ' :: (cell ++ [' '])

/-- A row of a table. -/
def row (cells : List Str) : Str := '|' :: cells.flatMap fun cell => pad cell ++ ['|']

theorem pipes_pad (cell : Str) : pipes false false (pad cell) = unescapedPipes cell := by
  have hblank (odd : Bool) : pipes false odd [' '] = 0 := by cases odd <;> rfl
  have hfirst : pipes false false (pad cell) = pipes false false (cell ++ [' ']) :=
    Nat.zero_add _
  rw [hfirst, pipes_append, hblank, Nat.add_zero, unescapedPipes]

theorem oddAfter_pad (odd : Bool) (cell : Str) : oddAfter odd (pad cell) = false :=
  oddAfter_append_singleton odd (' ' :: cell) (by decide)

theorem pipes_pad_append (cell rest : Str) :
    pipes false false (pad cell ++ '|' :: rest) =
      unescapedPipes cell + (1 + pipes false false rest) := by
  rw [pipes_append, pipes_pad, oddAfter_pad, pipes, if_pos ⟨rfl, rfl⟩]
  rfl

/-- The pipes of a row are those between the cells and those that the cells have. -/
theorem unescapedPipes_row (cells : List Str) :
    unescapedPipes (row cells) = cells.length + 1 + (cells.map unescapedPipes).sum := by
  have hcells : pipes false false (cells.flatMap fun cell => pad cell ++ ['|']) =
      cells.length + (cells.map unescapedPipes).sum := by
    induction cells with
    | nil => rfl
    | cons cell cells ih =>
        rw [List.flatMap_cons, List.append_assoc, List.singleton_append, pipes_pad_append, ih,
          List.length_cons, List.map_cons, List.sum_cons]
        omega
  rw [unescapedPipes, row, pipes, if_pos ⟨rfl, rfl⟩]
  change 1 + pipes false false _ = _
  rw [hcells]
  omega

theorem row_eq_join {cells : List Str} (hne : cells ≠ []) :
    "| ".toList ++ join " | ".toList cells ++ " |".toList = row cells := by
  have hcells : " ".toList ++ join " | ".toList cells ++ " |".toList =
      cells.flatMap fun cell => pad cell ++ ['|'] := by
    induction cells with
    | nil => exact absurd rfl hne
    | cons cell cells ih =>
        by_cases hcells : cells = []
        · subst hcells
          simp [pad]
        · rw [List.flatMap_cons, ← ih hcells, join_cons_of_ne_nil _ _ hcells]
          simp [pad]
  rw [row, ← hcells]
  rfl

/-- A blank is behind no backslash. -/
theorem unescapedPipes_append_blank (s t : Str) :
    unescapedPipes (s ++ ' ' :: t) = unescapedPipes s + unescapedPipes t := by
  have hblank (odd : Bool) : pipes false odd (' ' :: t) = pipes false false t := by
    rw [pipes, if_neg fun h => absurd h.1 (by decide), Nat.zero_add]
    cases odd <;> rfl
  rw [unescapedPipes, pipes_append, hblank]
  rfl

/-- What stands between the unescaped pipes of a line. -/
def splitCells : Bool → Str → List Str
  | _, [] => [[]]
  | odd, ch :: s =>
      if ch = '|' ∧ odd = false then [] :: splitCells false s
      else (splitCells (!odd && ch = '\\') s).modifyHead (ch :: ·)

theorem splitCells_append {odd : Bool} {s : Str} (t : Str) (hpipes : pipes false odd s = 0)
    (hodd : oddAfter odd s = false) :
    splitCells odd (s ++ '|' :: t) = s :: splitCells false t := by
  induction s generalizing odd with
  | nil =>
      rw [oddAfter] at hodd
      rw [List.nil_append, splitCells, if_pos ⟨rfl, hodd⟩]
  | cons ch s ih =>
      rw [pipes] at hpipes
      rw [oddAfter] at hodd
      split_ifs at hpipes with hpipe
      · exact absurd hpipes (by omega)
      · rw [List.cons_append, splitCells, if_neg hpipe, ih (by omega) hodd, List.modifyHead_cons]

/-- Removes a blank at each end. -/
def unpad (s : Str) : Str :=
  let s := if s.head? = some ' ' then s.tail else s
  if s.getLast? = some ' ' then s.dropLast else s

theorem unpad_pad (cell : Str) : unpad (pad cell) = cell := by
  have hhead : (pad cell).head? = some ' ' := rfl
  have hlast : (cell ++ [' ']).getLast? = some ' ' := List.getLast?_concat
  rw [unpad, if_pos hhead, pad, List.tail_cons, if_pos hlast, List.dropLast_concat]

/-- The cells of a row, as they are written: what stands before the first pipe and behind the
    last one is dropped. -/
def rawCells (line : Str) : List Str := ((splitCells false line).drop 1).dropLast.map unpad

theorem rawCells_row {cells : List Str} (h : ∀ cell ∈ cells, unescapedPipes cell = 0) :
    rawCells (row cells) = cells := by
  have hcells : splitCells false (cells.flatMap fun cell => pad cell ++ ['|']) =
      cells.map pad ++ [[]] := by
    induction cells with
    | nil => rfl
    | cons cell cells ih =>
        have hcell : pipes false false (pad cell) = 0 :=
          (pipes_pad cell).trans (h cell List.mem_cons_self)
        rw [List.flatMap_cons, List.append_assoc, List.singleton_append,
          splitCells_append _ hcell (oddAfter_pad false cell),
          ih fun c hc => h c (List.mem_cons_of_mem _ hc), List.map_cons, List.cons_append]
  have hrow : splitCells false (row cells) = [] :: (cells.map pad ++ [[]]) := by
    rw [row, splitCells, if_pos ⟨rfl, rfl⟩, hcells]
  rw [rawCells, hrow, List.drop_one, List.tail_cons, List.dropLast_concat, List.map_map]
  exact (List.map_congr_left fun cell _ => unpad_pad cell).trans (List.map_id cells)

/-! ## Escapes -/

/-- Characters of a set get a backslash. -/
def escape (chars : List Char) (s : Str) : Str :=
  s.flatMap fun ch => if ch ∈ chars then ['\\', ch] else [ch]

/-- ASCII punctuation, which is what a backslash escapes. -/
def isPunctuation (ch : Char) : Bool :=
  let n := ch.toNat
  (33 ≤ n && n ≤ 47) || (58 ≤ n && n ≤ 64) || (91 ≤ n && n ≤ 96) || (123 ≤ n && n ≤ 126)

/-- Removes the backslashes before punctuation. -/
def unescape : Str → Str
  | [] => []
  | [ch] => [ch]
  | ch :: next :: s =>
      if ch = '\\' && isPunctuation next then next :: unescape s else ch :: unescape (next :: s)

theorem unescape_cons {ch : Char} (s : Str) (h : ch ≠ '\\') :
    unescape (ch :: s) = ch :: unescape s := by
  cases s with
  | nil => rfl
  | cons next s => rw [unescape, decide_eq_false h, Bool.false_and, if_neg Bool.false_ne_true]

theorem unescape_escape {chars : List Char} (hslash : '\\' ∈ chars)
    (hpunctuation : ∀ ch ∈ chars, isPunctuation ch = true) (s : Str) :
    unescape (escape chars s) = s := by
  induction s with
  | nil => rfl
  | cons ch s ih =>
      rw [escape] at ih
      rw [escape, List.flatMap_cons]
      by_cases hch : ch ∈ chars
      · rw [if_pos hch, List.cons_append, List.singleton_append, unescape, hpunctuation ch hch,
          if_pos (by decide), ih]
      · have hne : ch ≠ '\\' := fun he => hch (he ▸ hslash)
        rw [if_neg hch, List.singleton_append, unescape_cons _ hne, ih]

/-- With pipes and backslashes escaped no pipe ends a cell. -/
theorem unescapedPipes_escape {chars : List Char} (hslash : '\\' ∈ chars) (hpipe : '|' ∈ chars)
    (s : Str) : unescapedPipes (escape chars s) = 0 := by
  unfold unescapedPipes
  induction s with
  | nil => rfl
  | cons ch s ih =>
      rw [escape] at ih
      rw [escape, List.flatMap_cons]
      by_cases hch : ch ∈ chars
      · rw [if_pos hch, List.cons_append, List.singleton_append, pipes, pipes]
        simpa using ih
      · have hne : ch ≠ '\\' := fun he => hch (he ▸ hslash)
        have hne' : ch ≠ '|' := fun he => hch (he ▸ hpipe)
        rw [if_neg hch, List.singleton_append, pipes, if_neg fun h => hne' h.1,
          decide_eq_false hne, Bool.and_false, Nat.zero_add, ih]

/-! ## Entities -/

/-- `&`, `<` and `>` are replaced by entities. -/
def escapeEntities (s : Str) : Str :=
  s.flatMap fun ch =>
    if ch = '&' then "&amp;".toList
    else if ch = '<' then "&lt;".toList
    else if ch = '>' then "&gt;".toList
    else [ch]

/-- A text with its entities read, once and from the left. -/
def unescapeEntities : Str → Str
  | '&' :: 'a' :: 'm' :: 'p' :: ';' :: s => '&' :: unescapeEntities s
  | '&' :: 'l' :: 't' :: ';' :: s => '<' :: unescapeEntities s
  | '&' :: 'g' :: 't' :: ';' :: s => '>' :: unescapeEntities s
  | ch :: s => ch :: unescapeEntities s
  | [] => []

theorem unescapeEntities_cons {ch : Char} (s : Str) (h : ch ≠ '&') :
    unescapeEntities (ch :: s) = ch :: unescapeEntities s := by
  rw [unescapeEntities]
  all_goals
    intro t he
    exact absurd he h

theorem unescapeEntities_escapeEntities (s : Str) : unescapeEntities (escapeEntities s) = s := by
  induction s with
  | nil => rfl
  | cons ch s ih =>
      rw [escapeEntities] at ih
      rw [escapeEntities, List.flatMap_cons]
      split_ifs with hamp hlt hgt
      · subst hamp
        exact congrArg ('&' :: ·) ih
      · subst hlt
        exact congrArg ('<' :: ·) ih
      · subst hgt
        exact congrArg ('>' :: ·) ih
      · rw [List.singleton_append, unescapeEntities_cons _ hamp, ih]

/-! ## Lines -/

/-- The lines of a text, which end at a line feed or a carriage return. -/
def lines (s : Str) : List Str := s.splitOnP fun ch => ch = '\n' || ch = '\r'

/-- A text without the characters that end a line. -/
def SingleLine (s : Str) : Prop := '\n' ∉ s ∧ '\r' ∉ s

instance (s : Str) : Decidable (SingleLine s) := inferInstanceAs (Decidable (_ ∧ _))

theorem singleLine_append {s t : Str} : SingleLine (s ++ t) ↔ SingleLine s ∧ SingleLine t := by
  simp only [SingleLine, List.mem_append]
  tauto

theorem singleLine_join {sep : Str} {parts : List Str} (hsep : SingleLine sep)
    (h : ∀ part ∈ parts, SingleLine part) : SingleLine (join sep parts) := by
  constructor
  · intro hmem
    rcases mem_join hmem with hmem | ⟨part, hpart, hmem⟩
    · exact hsep.1 hmem
    · exact (h part hpart).1 hmem
  · intro hmem
    rcases mem_join hmem with hmem | ⟨part, hpart, hmem⟩
    · exact hsep.2 hmem
    · exact (h part hpart).2 hmem

theorem singleLine_flatMap {s : Str} {f : Char → Str} (h : ∀ ch ∈ s, SingleLine (f ch)) :
    SingleLine (s.flatMap f) := by
  constructor
  · intro hmem
    obtain ⟨ch, hch, hmem⟩ := List.mem_flatMap.mp hmem
    exact (h ch hch).1 hmem
  · intro hmem
    obtain ⟨ch, hch, hmem⟩ := List.mem_flatMap.mp hmem
    exact (h ch hch).2 hmem

theorem SingleLine.char {s : Str} (h : SingleLine s) {ch : Char} (hch : ch ∈ s) :
    SingleLine [ch] := by
  refine ⟨fun hmem => h.1 ?_, fun hmem => h.2 ?_⟩
  · exact List.mem_singleton.mp hmem ▸ hch
  · exact List.mem_singleton.mp hmem ▸ hch

theorem SingleLine.escape {s : Str} (h : SingleLine s) (chars : List Char) :
    SingleLine (escape chars s) := by
  refine singleLine_flatMap fun ch hch => ?_
  split_ifs
  · exact (singleLine_append (s := ['\\'])).mpr ⟨by decide, h.char hch⟩
  · exact h.char hch

theorem SingleLine.escapeEntities {s : Str} (h : SingleLine s) : SingleLine (escapeEntities s) := by
  refine singleLine_flatMap fun ch hch => ?_
  split_ifs
  · decide
  · decide
  · decide
  · exact h.char hch

theorem SingleLine.not_break {s : Str} (h : SingleLine s) :
    ∀ ch ∈ s, (ch = '\n' || ch = '\r' : Bool) = false := by
  intro ch hch
  have hn : ch ≠ '\n' := fun he => h.1 (he ▸ hch)
  have hr : ch ≠ '\r' := fun he => h.2 (he ▸ hch)
  rw [decide_eq_false hn, decide_eq_false hr, Bool.or_false]

/-- Lines that are joined are found again. -/
theorem lines_join {ls : List Str} (h : ∀ l ∈ ls, SingleLine l) (hne : ls ≠ []) :
    lines (join "\n".toList ls) = ls := by
  induction ls with
  | nil => exact absurd rfl hne
  | cons l ls ih =>
      have hl := (h l List.mem_cons_self).not_break
      have hls : ∀ l ∈ ls, SingleLine l := fun l' hl' => h l' (List.mem_cons_of_mem _ hl')
      cases ls with
      | nil => rw [join_singleton, lines, List.splitOnP_eq_singleton hl]
      | cons next ls =>
          rw [join_cons_cons, lines]
          have hrest := ih hls (List.cons_ne_nil _ _)
          rw [lines] at hrest
          exact (List.splitOnP_append_cons_of_forall_mem hl '\n' rfl _).trans
            (congrArg (l :: ·) hrest)

theorem singleLine_row (cells : List Str) :
    SingleLine (row cells) ↔ ∀ cell ∈ cells, SingleLine cell := by
  constructor
  · intro h cell hcell
    have hmem (ch : Char) (hch : ch ∈ cell) : ch ∈ row cells := by
      refine List.mem_cons_of_mem _ (List.mem_flatMap.mpr ⟨cell, hcell, ?_⟩)
      exact List.mem_append_left _ (List.mem_cons_of_mem _ (List.mem_append_left _ hch))
    exact ⟨fun hch => h.1 (hmem _ hch), fun hch => h.2 (hmem _ hch)⟩
  · intro h
    induction cells with
    | nil => decide
    | cons cell cells ih =>
        have hcell := h cell List.mem_cons_self
        have hrest := ih fun c hc => h c (List.mem_cons_of_mem _ hc)
        have hsplit : row (cell :: cells) = "| ".toList ++ cell ++ " ".toList ++ row cells := by
          simp [row, pad]
        rw [hsplit, singleLine_append, singleLine_append, singleLine_append]
        exact ⟨⟨⟨by decide, hcell⟩, by decide⟩, hrest⟩

/-- A row is one line, with the pipes that are between its cells, when its cells are texts of
    one line without pipes of their own. -/
theorem row_intact_iff (cells : List Str) :
    SingleLine (row cells) ∧ unescapedPipes (row cells) = cells.length + 1 ↔
      ∀ cell ∈ cells, SingleLine cell ∧ unescapedPipes cell = 0 := by
  have hsum : (cells.map unescapedPipes).sum = 0 ↔ ∀ cell ∈ cells, unescapedPipes cell = 0 := by
    rw [List.sum_eq_zero_iff, List.forall_mem_map]
  rw [singleLine_row, unescapedPipes_row]
  constructor
  · rintro ⟨hlines, hpipes⟩ cell hcell
    exact ⟨hlines cell hcell, hsum.mp (by omega) cell hcell⟩
  · intro h
    refine ⟨fun cell hcell => (h cell hcell).1, ?_⟩
    rw [hsum.mpr fun cell hcell => (h cell hcell).2]

/-! ## Pipes without backslashes -/

/-- Pipes get a backslash and line feeds become blanks. A backslash that stands before a pipe
    stays as it is. -/
def escapePipes (s : Str) : Str :=
  replaceChar '\n' " ".toList (replaceChar '|' "\\|".toList s)

/-- What becomes of a character. -/
def escapePipe (ch : Char) : Str :=
  if ch = '|' then "\\|".toList else if ch = '\n' then " ".toList else [ch]

theorem escapePipes_eq (s : Str) : escapePipes s = s.flatMap escapePipe := by
  have hch (ch : Char) : replaceChar '\n' " ".toList (if ch = '|' then "\\|".toList else [ch]) =
      escapePipe ch := by
    unfold escapePipe
    split_ifs with hpipe hfeed
    · rfl
    · rw [hfeed]
      rfl
    · rw [replaceChar, List.flatMap_singleton, if_neg hfeed]
  rw [escapePipes, replaceChar, replaceChar, List.flatMap_assoc]
  exact List.flatMap_congr fun ch _ => hch ch

/-- The pipes that were escaped before no longer are. -/
theorem unescapedPipes_escapePipes (s : Str) : unescapedPipes (escapePipes s) = escapedPipes s := by
  have hscan : ∀ odd, pipes false odd (s.flatMap escapePipe) = pipes true odd s := by
    induction s with
    | nil => exact fun odd => rfl
    | cons ch s ih =>
        intro odd
        rw [List.flatMap_cons, escapePipe, pipes]
        by_cases hpipe : ch = '|'
        · subst hpipe
          cases odd with
          | false => simpa [pipes] using ih false
          | true => simpa [pipes] using ih false
        · have hnone : ¬ (ch = '|' ∧ odd = true) := fun h => hpipe h.1
          rw [if_neg hpipe, if_neg hnone, Nat.zero_add, ← ih]
          by_cases hfeed : ch = '\n'
          · subst hfeed
            exact Nat.zero_add _
          · have hnone' : ¬ (ch = '|' ∧ odd = false) := fun h => hpipe h.1
            rw [if_neg hfeed, List.singleton_append, pipes, if_neg hnone', Nat.zero_add]
  rw [unescapedPipes, escapedPipes, escapePipes_eq, hscan]

theorem singleLine_escapePipes_iff (s : Str) : SingleLine (escapePipes s) ↔ '\r' ∉ s := by
  have hmem (c : Char) : c ∈ escapePipes s ↔ ∃ ch ∈ s, c ∈ escapePipe ch := by
    rw [escapePipes_eq, List.mem_flatMap]
  constructor
  · intro h hmem'
    exact h.2 ((hmem _).mpr ⟨'\r', hmem', by decide⟩)
  · intro h
    refine ⟨fun hfeed => ?_, fun hreturn => ?_⟩
    · obtain ⟨ch, -, hc⟩ := (hmem _).mp hfeed
      unfold escapePipe at hc
      split_ifs at hc with hpipe hch
      · exact absurd hc (by decide)
      · exact absurd hc (by decide)
      · exact hch (List.mem_singleton.mp hc).symm
    · obtain ⟨ch, hs, hc⟩ := (hmem _).mp hreturn
      unfold escapePipe at hc
      split_ifs at hc with hpipe hch
      · exact absurd hc (by decide)
      · exact absurd hc (by decide)
      · exact h (List.mem_singleton.mp hc ▸ hs)

theorem strip_escapePipes (s : Str) : strip (escapePipes s) = escapePipes (strip s) := by
  have hvisible : ∀ ch, isSpace ch = false →
      escapePipe ch = "\\|".toList ∨ escapePipe ch = [ch] := by
    intro ch hch
    unfold escapePipe
    split_ifs with hpipe hfeed
    · exact .inl rfl
    · exact absurd hch (by rw [hfeed]; decide)
    · exact .inr rfl
  rw [escapePipes_eq, escapePipes_eq]
  refine strip_flatMap ?_ ?_ ?_ s
  · intro ch hch c hc
    unfold escapePipe at hc
    split_ifs at hc with hpipe hfeed
    · exact absurd hch (by rw [hpipe]; decide)
    · exact List.mem_singleton.mp hc ▸ rfl
    · exact List.mem_singleton.mp hc ▸ hch
  · intro ch hch
    rcases hvisible ch hch with h | h
    · exact ⟨'\\', ['|'], h, rfl⟩
    · exact ⟨ch, [], h, hch⟩
  · intro ch hch
    rcases hvisible ch hch with h | h
    · exact ⟨'|', ['\\'], by rw [h]; rfl, rfl⟩
    · exact ⟨ch, [], by rw [h]; rfl, hch⟩

end PgErdCloud.Lib.Markdown
