/-
  Names within the text of a script. A script is a list of lines, a line a list of pieces; the
  text is read by the lexical automaton. In a line of SQL that is well spaced every quoted
  name is one identifier token. In a line that is a comment a name stays within the comment
  exactly when it has no line break: quoting does not touch them.
-/
import PgErdCloud.Ddl.Export
import PgErdCloud.Lib.SqlLex

namespace PgErdCloud.Ddl

open Lib Lib.PyStr LexState

/-! ## Containment -/

/-- The name that a piece writes. -/
def Piece.ident? : Piece → Option Str
  | .name ident | .bare ident => some ident
  | _ => none

/-- A name stands within one identifier token, or within a comment. -/
def NameWithin (st : LexState) (piece : Piece) (after : Str) : Prop :=
  InIdentifier st piece.text after ∨ InComment st piece.text

/-- Every name of a text stands within one identifier token or within a comment. -/
def Contained (pieces : List Piece) : Prop :=
  ∀ before piece after, pieces = before ++ piece :: after → piece.ident? ≠ none →
    NameWithin (lex .base (piecesText before)) piece (piecesText after)

/-- The same for pieces behind `st` and before `after`. -/
def ContainedFrom : LexState → List Piece → Str → Prop
  | _, [], _ => True
  | st, piece :: pieces, after =>
      (piece.ident? ≠ none → NameWithin st piece (piecesText pieces ++ after)) ∧
        ContainedFrom (lex st piece.text) pieces after

@[simp] theorem piecesText_nil : piecesText [] = [] := rfl

@[simp] theorem piecesText_cons (piece : Piece) (pieces : List Piece) :
    piecesText (piece :: pieces) = piece.text ++ piecesText pieces := rfl

@[simp] theorem piecesText_append (xs ys : List Piece) :
    piecesText (xs ++ ys) = piecesText xs ++ piecesText ys :=
  List.flatMap_append

theorem containedFrom_append (st : LexState) (xs ys : List Piece) (after : Str) :
    ContainedFrom st (xs ++ ys) after ↔
      ContainedFrom st xs (piecesText ys ++ after) ∧
        ContainedFrom (lex st (piecesText xs)) ys after := by
  induction xs generalizing st with
  | nil => simp [ContainedFrom]
  | cons piece xs ih =>
      rw [List.cons_append, ContainedFrom, ContainedFrom, ih, piecesText_cons, piecesText_append,
        lex_append, List.append_assoc, and_assoc]

theorem contained_iff {pieces : List Piece} :
    Contained pieces ↔ ContainedFrom .base pieces [] := by
  have hsplit : ∀ st, ContainedFrom st pieces [] ↔ ∀ before piece after,
      pieces = before ++ piece :: after → piece.ident? ≠ none →
        NameWithin (lex st (piecesText before)) piece (piecesText after) := by
    intro st
    constructor
    · rintro h before piece after rfl hname
      rw [containedFrom_append] at h
      have hwithin := h.2.1 hname
      rwa [List.append_nil] at hwithin
    · intro h
      induction pieces generalizing st with
      | nil => trivial
      | cons piece pieces ih =>
          constructor
          · intro hname
            rw [List.append_nil]
            exact h [] piece pieces rfl hname
          · apply ih
            intro before piece' after hpieces hname
            have hwithin := h (piece :: before) piece' after (by rw [hpieces]; rfl) hname
            rwa [piecesText_cons, lex_append] at hwithin
  exact (hsplit .base).symm

theorem intercalate_cons_cons (separator : Piece) (line next : List Piece)
    (lines : List (List Piece)) :
    [separator].intercalate (line :: next :: lines) =
      line ++ separator :: [separator].intercalate (next :: lines) := by
  simp [List.intercalate]

theorem piecesText_intercalate (separator : Piece) (lines : List (List Piece)) :
    piecesText ([separator].intercalate lines) = join separator.text (lines.map piecesText) := by
  induction lines with
  | nil => rfl
  | cons line lines ih =>
      cases lines with
      | nil => simp [List.intercalate]
      | cons next lines =>
          rw [intercalate_cons_cons, piecesText_append, piecesText_cons, ih, List.map_cons,
            List.map_cons, List.map_cons, join_cons_cons]

/-! ## Lines of SQL -/

/-- A fragment of the snapshot is a sequence of tokens. -/
def SelfContained (text : Str) : Prop := Idle (lex .base text)

instance (text : Str) : Decidable (SelfContained text) :=
  inferInstanceAs (Decidable (Idle _))

/-- The fragments among the pieces. -/
def fragments (pieces : List Piece) : List Str :=
  pieces.filterMap fun
    | .fragment text => some text
    | _ => none

theorem mem_fragments {pieces : List Piece} {text : Str} :
    text ∈ fragments pieces ↔ .fragment text ∈ pieces := by
  unfold fragments
  rw [List.mem_filterMap]
  constructor
  · rintro ⟨piece, hm, hpiece⟩
    cases piece with
    | fragment t => rwa [← Option.some.inj hpiece]
    | _ => exact absurd hpiece (by simp)
  · intro hm
    exact ⟨.fragment text, hm, rfl⟩

/-- Fixed texts are plain; names and fragments have separators on both sides. `ready` behind a
    separator. -/
def spaced : Bool → List Piece → Bool
  | _, [] => true
  | ready, .sql text :: pieces =>
      text.all isPlain && text ≠ [] && (ready || text.head?.any isSeparator) &&
        spaced (text.getLast?.any isSeparator) pieces
  | ready, .name _ :: pieces => ready && spaced false pieces
  | ready, .fragment _ :: pieces => ready && spaced false pieces
  | ready, .literal _ :: pieces => ready && spaced false pieces
  | _, .bare _ :: _ => false

theorem spaced_mono {pieces : List Piece} (h : spaced false pieces = true) (ready : Bool) :
    spaced ready pieces = true := by
  cases pieces with
  | nil => rfl
  | cons piece pieces =>
      cases piece with
      | sql text =>
          simp only [spaced, Bool.and_eq_true, Bool.false_or] at h ⊢
          exact ⟨⟨h.1.1, by rw [h.1.2, Bool.or_true]⟩, h.2⟩
      | _ => simp [spaced] at h

/-- What begins with a separator may follow anything. -/
theorem spaced_append {ready : Bool} {xs ys : List Piece} (hx : spaced ready xs = true)
    (hy : spaced false ys = true) : spaced ready (xs ++ ys) = true := by
  induction xs generalizing ready with
  | nil => exact spaced_mono hy ready
  | cons piece xs ih =>
      cases piece with
      | sql text =>
          simp only [List.cons_append, spaced, Bool.and_eq_true] at hx ⊢
          exact ⟨hx.1, ih hx.2⟩
      | bare ident => simp [spaced] at hx
      | _ =>
          simp only [List.cons_append, spaced, Bool.and_eq_true] at hx ⊢
          exact ⟨hx.1, ih hx.2⟩

/-- Behind a separator anything may follow. -/
theorem spaced_append_open {ready : Bool} {xs ys : List Piece} {text : String}
    (hx : spaced ready (xs ++ [sql text]) = true)
    (htext : text.toList.getLast?.any isSeparator = true) (hy : spaced true ys = true) :
    spaced ready (xs ++ [sql text] ++ ys) = true := by
  induction xs generalizing ready with
  | nil =>
      simp only [sql, List.nil_append, List.cons_append, spaced, htext, Bool.and_eq_true]
        at hx ⊢
      exact ⟨hx.1, hy⟩
  | cons piece xs ih =>
      cases piece with
      | bare ident => simp [spaced] at hx
      | _ =>
          simp only [List.cons_append, spaced, Bool.and_eq_true] at hx ⊢
          exact ⟨hx.1, ih hx.2⟩

theorem head?_of_spaced {pieces : List Piece} (h : spaced false pieces = true) {after : Str}
    (hafter : after.head? ≠ some '"') : (piecesText pieces ++ after).head? ≠ some '"' := by
  cases pieces with
  | nil => exact hafter
  | cons piece pieces =>
      cases piece with
      | sql text =>
          simp only [spaced, Bool.and_eq_true, Bool.false_or, decide_eq_true_eq] at h
          cases text with
          | nil => exact absurd rfl h.1.1.2
          | cons c text =>
              intro hc
              have hsep : isSeparator c = true := h.1.2
              have hquote : c = '"' := Option.some.inj hc
              rw [hquote] at hsep
              exact absurd hsep (by decide)
      | _ => simp [spaced] at h

theorem lex_name (ident : Str) : lex .base (q ident) = .quotedEnd := by
  have hopen : lex .base (q ident) =
      lex .quoted (replaceChar '"' "\"\"".toList ident ++ ['"']) := rfl
  rw [hopen, lex_append, (lex_quoted_replaceChar ident).1]
  rfl

/-- A name between separators is one identifier. -/
theorem inIdentifier_name (ident : Str) {after : Str} (hafter : after.head? ≠ some '"') :
    InIdentifier .base (q ident) after :=
  ⟨by decide, by decide, _, rfl, rfl, (lex_quoted_replaceChar ident).2,
    (lex_quoted_replaceChar ident).1, hafter⟩

/-- **Names in well-spaced SQL are identifiers.** -/
theorem containedFrom_of_spaced {ready : Bool} {pieces : List Piece}
    (h : spaced ready pieces = true)
    (hfragments : ∀ text, .fragment text ∈ pieces → SelfContained text) {st : LexState}
    (hidle : Idle st) (hready : ready = true → st = .base) {after : Str}
    (hafter : after.head? ≠ some '"') :
    ContainedFrom st pieces after ∧ Idle (lex st (piecesText pieces)) := by
  induction pieces generalizing ready st with
  | nil => exact ⟨trivial, hidle⟩
  | cons piece pieces ih =>
      have hrest := fun text hm => hfragments text (List.mem_cons_of_mem piece hm)
      rw [piecesText_cons, lex_append]
      cases piece with
      | sql text =>
          simp only [spaced, Bool.and_eq_true, List.all_eq_true, decide_eq_true_eq] at h
          obtain ⟨⟨⟨hplain, hne⟩, -⟩, hspaced⟩ := h
          obtain ⟨hin, hend⟩ := ih hspaced hrest (idle_run hidle hplain) (by
            intro hlast
            obtain ⟨c, hc, hsep⟩ := (Option.any_eq_true _ _).mp hlast
            obtain ⟨front, rfl⟩ := List.getLast?_eq_some_iff.mp hc
            exact lex_eq_base hidle (fun d hd => hplain d (List.mem_append_left _ hd)) hsep)
          exact ⟨⟨fun hname => absurd rfl hname, hin⟩, hend⟩
      | name ident =>
          simp only [spaced, Bool.and_eq_true] at h
          obtain rfl := hready h.1
          have hend : lex .base (Piece.name ident).text = .quotedEnd := lex_name ident
          have hquoted : Idle .quotedEnd := trivial
          obtain ⟨hin, hidle'⟩ := ih h.2 hrest hquoted (by simp)
          refine ⟨⟨fun _ => .inl (inIdentifier_name ident (head?_of_spaced h.2 hafter)), ?_⟩, ?_⟩
          · rwa [hend]
          · rwa [hend]
      | fragment text =>
          simp only [spaced, Bool.and_eq_true] at h
          obtain rfl := hready h.1
          have hself : Idle (lex .base text) := hfragments text List.mem_cons_self
          obtain ⟨hin, hidle'⟩ := ih h.2 hrest hself (by simp)
          exact ⟨⟨fun hname => absurd rfl hname, hin⟩, hidle'⟩
      | literal text =>
          simp only [spaced, Bool.and_eq_true] at h
          obtain rfl := hready h.1
          have hend : lex .base (Piece.literal text).text = .stringEnd false := lex_literal text
          have hstring : Idle (.stringEnd false) := trivial
          obtain ⟨hin, hidle'⟩ := ih h.2 hrest hstring (by simp)
          refine ⟨⟨fun hname => absurd rfl hname, ?_⟩, ?_⟩
          · rwa [hend]
          · rwa [hend]
      | bare ident => simp [spaced] at h

/-! ## Comments -/

/-- A piece of a comment: fixed text without line breaks, or a name. -/
def Piece.inNote : Piece → Bool
  | .sql text => decide (Unbroken text)
  | .name _ | .bare _ => true
  | _ => false

/-- The names of the pieces have no line breaks. -/
def NamesUnbroken (pieces : List Piece) : Prop :=
  ∀ piece ∈ pieces, ∀ ident, piece.ident? = some ident → Unbroken ident

theorem namesUnbroken_nil : NamesUnbroken [] := fun _ hm => absurd hm List.not_mem_nil

theorem namesUnbroken_cons (piece : Piece) (pieces : List Piece) :
    NamesUnbroken (piece :: pieces) ↔
      (∀ ident, piece.ident? = some ident → Unbroken ident) ∧ NamesUnbroken pieces :=
  List.forall_mem_cons

theorem namesUnbroken_cons_some {piece : Piece} {ident : Str} (h : piece.ident? = some ident)
    (pieces : List Piece) :
    NamesUnbroken (piece :: pieces) ↔ Unbroken ident ∧ NamesUnbroken pieces := by
  rw [namesUnbroken_cons, h]
  simp

theorem namesUnbroken_cons_sql (text : String) (pieces : List Piece) :
    NamesUnbroken (sql text :: pieces) ↔ NamesUnbroken pieces := by
  rw [namesUnbroken_cons]
  exact and_iff_right fun ident h => absurd h (by simp [sql, Piece.ident?])

theorem namesUnbroken_append (xs ys : List Piece) :
    NamesUnbroken (xs ++ ys) ↔ NamesUnbroken xs ∧ NamesUnbroken ys :=
  List.forall_mem_append

theorem mem_replaceChar_quote {c : Char} (hc : c ≠ '"') {ident : Str} :
    c ∈ replaceChar '"' "\"\"".toList ident ↔ c ∈ ident := by
  unfold replaceChar
  rw [List.mem_flatMap]
  constructor
  · rintro ⟨d, hd, hm⟩
    split_ifs at hm with h
    · have hall : c = '"' := by simpa using hm
      exact absurd hall hc
    · rwa [List.mem_singleton.mp hm]
  · intro h
    refine ⟨c, h, ?_⟩
    rw [if_neg hc]
    exact List.mem_singleton_self c

/-- Quoting keeps line breaks. -/
theorem unbroken_q {ident : Str} : Unbroken (q ident) ↔ Unbroken ident := by
  have hmem : ∀ c, c ≠ '"' → (c ∈ q ident ↔ c ∈ ident) := by
    intro c hc
    unfold q
    rw [List.mem_cons, List.mem_append, List.mem_singleton, mem_replaceChar_quote hc]
    simp [hc]
  unfold Unbroken
  rw [hmem '\n' (by decide), hmem '\r' (by decide)]

theorem unbroken_text_of_ident {piece : Piece} {ident : Str} (h : piece.ident? = some ident) :
    Unbroken piece.text ↔ Unbroken ident := by
  cases piece with
  | name i =>
      obtain rfl := Option.some.inj h
      exact unbroken_q
  | bare i =>
      obtain rfl := Option.some.inj h
      exact Iff.rfl
  | _ => exact absurd h (by simp [Piece.ident?])

theorem nameWithin_lineComment_iff {piece : Piece} {after : Str} :
    NameWithin .lineComment piece after ↔ Unbroken piece.text := by
  unfold NameWithin
  rw [inComment_lineComment_iff]
  constructor
  · rintro (⟨-, -, body, -, hstep, -⟩ | h)
    · exact absurd hstep (by decide)
    · exact h
  · intro h
    exact .inr h

/-- **Names in a comment stay in it** exactly when they have no line break. -/
theorem containedFrom_note {pieces : List Piece}
    (h : ∀ piece ∈ pieces, piece.inNote = true) (after : Str) :
    (ContainedFrom .lineComment pieces after ↔ NamesUnbroken pieces) ∧
      (NamesUnbroken pieces → lex .lineComment (piecesText pieces) = .lineComment) := by
  induction pieces with
  | nil =>
      exact ⟨iff_of_true trivial namesUnbroken_nil, fun _ => rfl⟩
  | cons piece pieces ih =>
      obtain ⟨hcontained, hrun⟩ := ih fun p hp => h p (List.mem_cons_of_mem _ hp)
      have htext : (∀ ident, piece.ident? = some ident → Unbroken ident) ↔
          Unbroken piece.text := by
        cases hident : piece.ident? with
        | some ident =>
            rw [unbroken_text_of_ident hident]
            simp
        | none =>
            have hpiece := h piece List.mem_cons_self
            cases piece with
            | sql text => simpa [Piece.text] using of_decide_eq_true hpiece
            | name i => exact absurd hident (by simp [Piece.ident?])
            | bare i => exact absurd hident (by simp [Piece.ident?])
            | _ => exact absurd hpiece (by simp [Piece.inNote])
      rw [namesUnbroken_cons, htext, ContainedFrom, piecesText_cons, lex_append]
      constructor
      · constructor
        · rintro ⟨hname, hrest⟩
          have hunbroken : Unbroken piece.text := by
            rw [← htext]
            intro ident hident
            rw [← unbroken_text_of_ident hident, ← nameWithin_lineComment_iff]
            exact hname (by rw [hident]; exact Option.some_ne_none ident)
          rw [lex_lineComment hunbroken, hcontained] at hrest
          exact ⟨hunbroken, hrest⟩
        · rintro ⟨hunbroken, hrest⟩
          rw [lex_lineComment hunbroken, hcontained]
          exact ⟨fun _ => nameWithin_lineComment_iff.mpr hunbroken, hrest⟩
      · rintro ⟨hunbroken, hrest⟩
        rw [lex_lineComment hunbroken]
        exact hrun hrest

/-! ## Scripts -/

/-- What is known of a line: its names are contained exactly when it is `clean`, and then the
    next line starts afresh. -/
structure LineSpec (pieces : List Piece) (clean : Prop) : Prop where
  contained : ∀ after : Str, after.head? ≠ some '"' →
    (ContainedFrom .base pieces after ↔ clean)
  ends : clean → step (lex .base (piecesText pieces)) '\n' = .base

theorem lineSpec_code {pieces : List Piece} (h : spaced true pieces = true)
    (hfragments : ∀ text, .fragment text ∈ pieces → SelfContained text) :
    LineSpec pieces True where
  contained := by
    intro after hafter
    exact iff_true_intro
      (containedFrom_of_spaced h hfragments idle_base (fun _ => rfl) hafter).1
  ends := by
    intro _
    have hend : ([] : Str).head? ≠ some '"' := by simp
    have hidle := (containedFrom_of_spaced h hfragments idle_base (fun _ => rfl) hend).2
    exact step_separator hidle (by decide)

theorem lineSpec_note {first : Str} (hfirst : lex .base first = .lineComment)
    {pieces : List Piece} (h : ∀ piece ∈ pieces, piece.inNote = true) :
    LineSpec (.sql first :: pieces) (NamesUnbroken pieces) where
  contained := by
    intro after _
    rw [ContainedFrom]
    have hrun : lex .base (Piece.sql first).text = .lineComment := hfirst
    rw [hrun, (containedFrom_note h after).1]
    exact and_iff_right fun hname => absurd rfl hname
  ends := by
    intro hclean
    have hrun : lex .base (Piece.sql first).text = .lineComment := hfirst
    rw [piecesText_cons, lex_append, hrun, (containedFrom_note h []).2 hclean]
    rfl

theorem lineSpec_text {text : Str} (h : step (lex .base text) '\n' = .base) :
    LineSpec [.sql text] True where
  contained := by
    intro after _
    exact iff_true_intro ⟨fun hname => absurd rfl hname, trivial⟩
  ends := by
    intro _
    rwa [piecesText_cons, piecesText_nil, List.append_nil]

theorem lineSpec_blank : LineSpec [] True where
  contained := fun _ _ => Iff.rfl
  ends := fun _ => rfl

/-- `"\n".join(lines)` -/
def scriptPieces : List (List Piece) → List Piece
  | [] => []
  | [line] => line
  | line :: lines => line ++ sql "\n" :: scriptPieces lines

theorem piecesText_scriptPieces (lines : List (List Piece)) :
    piecesText (scriptPieces lines) = join "\n".toList (lines.map piecesText) := by
  induction lines with
  | nil => rfl
  | cons line lines ih =>
      cases lines with
      | nil => simp [scriptPieces, join, List.intercalate]
      | cons next lines =>
          rw [scriptPieces, piecesText_append, piecesText_cons, ih, List.map_cons, List.map_cons,
            List.map_cons, join_cons_cons]
          · rfl
          · simp

theorem mem_scriptPieces {lines : List (List Piece)} {line : List Piece} (hline : line ∈ lines)
    {piece : Piece} (hpiece : piece ∈ line) : piece ∈ scriptPieces lines := by
  induction lines with
  | nil => exact absurd hline List.not_mem_nil
  | cons first lines ih =>
      cases lines with
      | nil =>
          rw [List.mem_singleton.mp hline] at hpiece
          exact hpiece
      | cons next rest =>
          rw [scriptPieces, List.mem_append]
          · rcases List.mem_cons.mp hline with rfl | hline
            · exact .inl hpiece
            · exact .inr (List.mem_cons_of_mem _ (ih hline))
          · simp

/-- **The names of a script are contained** exactly when each of its lines is clean. -/
theorem containedFrom_script {α : Type} {piecesOf : α → List Piece} {clean : α → Prop}
    {xs : List α} (h : ∀ x ∈ xs, LineSpec (piecesOf x) (clean x)) {after : Str}
    (hafter : after.head? ≠ some '"') :
    ContainedFrom .base (scriptPieces (xs.map piecesOf)) after ↔ ∀ x ∈ xs, clean x := by
  induction xs with
  | nil => simp [scriptPieces, ContainedFrom]
  | cons x xs ih =>
      have hx := h x List.mem_cons_self
      have hrest := ih fun y hy => h y (List.mem_cons_of_mem _ hy)
      cases xs with
      | nil => simpa [scriptPieces] using hx.contained after hafter
      | cons y ys =>
          rw [List.map_cons, List.map_cons, scriptPieces, containedFrom_append, ContainedFrom,
            ← List.map_cons, List.forall_mem_cons]
          · have hbreak : (piecesText (sql "\n" :: scriptPieces ((y :: ys).map piecesOf)) ++
                after).head? ≠ some '"' := by
              rw [piecesText_cons]
              exact (by decide : (some '\n' : Option Char) ≠ some '"')
            rw [hx.contained _ hbreak]
            constructor
            · rintro ⟨hclean, -, hlines⟩
              have hbase : lex (lex .base (piecesText (piecesOf x))) (sql "\n").text = .base :=
                hx.ends hclean
              rw [hbase, hrest] at hlines
              exact ⟨hclean, hlines⟩
            · rintro ⟨hclean, hlines⟩
              have hbase : lex (lex .base (piecesText (piecesOf x))) (sql "\n").text = .base :=
                hx.ends hclean
              rw [hbase, hrest]
              exact ⟨hclean, fun hname => absurd rfl hname, hlines⟩
          · simp

/-! ## Notes -/

section
variable {α : Type} (commentNames : α → List Str)

/-- The names in the notes of a script have no line break. -/
def NotesUnbroken (xs : List α) : Prop := ∀ x ∈ xs, ∀ name ∈ commentNames x, Unbroken name

theorem notesUnbroken_append (xs ys : List α) :
    NotesUnbroken commentNames (xs ++ ys) ↔
      NotesUnbroken commentNames xs ∧ NotesUnbroken commentNames ys :=
  List.forall_mem_append

theorem notesUnbroken_flatMap {Row : Type} (rows : List Row) (f : Row → List α) :
    NotesUnbroken commentNames (rows.flatMap f) ↔
      ∀ row ∈ rows, NotesUnbroken commentNames (f row) := by
  induction rows with
  | nil => simp [NotesUnbroken]
  | cons row rows ih => rw [List.flatMap_cons, notesUnbroken_append, ih, List.forall_mem_cons]

variable {commentNames}

theorem notesUnbroken_of_none {xs : List α} (h : ∀ x ∈ xs, commentNames x = []) :
    NotesUnbroken commentNames xs := by
  intro x hm name hname
  rw [h x hm] at hname
  exact absurd hname List.not_mem_nil

end

end PgErdCloud.Ddl
