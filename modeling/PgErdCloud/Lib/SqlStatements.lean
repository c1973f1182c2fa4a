/-
  A SQL text as a list of statements. A semicolon ends a statement where it is a token of its
  own: within quotes, literals and comments it is a character like any other.

  `statements_append` reads a text piece by piece: a `Sealed` piece ends no statement and leaves
  no token open, and a semicolon behind it ends the statement.
-/
import PgErdCloud.Lib.SqlLex
import PgErdCloud.Lib.ParenList

namespace PgErdCloud.Lib.LexState

open PyStr ParenList

/-! ## Cutting a text -/

/-- The statements of a text, of which a part has been read. What stands behind the last
    semicolon is an element too. -/
def statements : LexState → Str → Str → List Str
  | _, read, [] => [read]
  | st, read, c :: s =>
      if c = ';' ∧ step st c = .base then read :: statements .base [] s
      else statements (step st c) (read ++ [c]) s

/-- No semicolon of the text ends a statement. -/
def Within : LexState → Str → Prop
  | _, [] => True
  | st, c :: s => (c = ';' → step st c ≠ .base) ∧ Within (step st c) s

instance decidableWithin : (st : LexState) → (text : Str) → Decidable (Within st text)
  | _, [] => isTrue trivial
  | st, c :: s => @instDecidableAnd _ _ inferInstance (decidableWithin (step st c) s)

theorem within_append {st : LexState} {a b : Str} :
    Within st (a ++ b) ↔ Within st a ∧ Within (lex st a) b := by
  induction a generalizing st with
  | nil => exact (and_iff_right trivial).symm
  | cons c a ih =>
      rw [List.cons_append, Within, ih, Within, lex_cons, and_assoc]

theorem within_of_not_mem {text : Str} (h : ';' ∉ text) (st : LexState) : Within st text := by
  induction text generalizing st with
  | nil => trivial
  | cons c text ih =>
      refine ⟨fun hc => absurd (hc ▸ List.mem_cons_self) h, ih (fun hm => ?_) _⟩
      exact h (List.mem_cons_of_mem c hm)

/-- What ends no statement is a part of the one that is read. -/
theorem statements_append {st : LexState} {a : Str} (h : Within st a) (read s : Str) :
    statements st read (a ++ s) = statements (lex st a) (read ++ a) s := by
  induction a generalizing st read with
  | nil => rw [List.append_nil, List.nil_append, lex_nil]
  | cons c a ih =>
      obtain ⟨hend, hrest⟩ := h
      rw [List.cons_append, statements, if_neg fun hc => hend hc.1 hc.2, ih hrest, lex_cons,
        List.append_assoc, List.singleton_append]

/-! ## Sealed texts -/

/-- The text ends no statement and leaves no token open that a separator would not end. -/
def Sealed (text : Str) : Prop := Within .base text ∧ Idle (lex .base text)

instance (text : Str) : Decidable (Sealed text) := inferInstanceAs (Decidable (_ ∧ _))

theorem sealed_nil : Sealed [] := ⟨trivial, trivial⟩

/-- A semicolon behind a sealed text ends the statement. -/
theorem Sealed.statements_eq {text : Str} (h : Sealed text) (read s : Str) :
    statements .base read (text ++ ';' :: s) = (read ++ text) :: statements .base [] s := by
  rw [statements_append h.1, statements, if_pos ⟨rfl, step_separator h.2 rfl⟩]

/-- Separators and names leave no token open. -/
theorem sealed_of_plain {text : Str} (h : text.all (fun c => isPlain c && c ≠ ';') = true) :
    Sealed text := by
  have hchars (c) (hc : c ∈ text) : isPlain c = true ∧ c ≠ ';' := by
    simpa using List.all_eq_true.mp h c hc
  exact ⟨within_of_not_mem (fun hm => (hchars _ hm).2 rfl) _,
    idle_run idle_base fun c hc => (hchars c hc).1⟩

/-- A separator that ends no statement. -/
def parts (c : Char) : Bool := isSeparator c && c ≠ ';'

/-- A piece that begins with a separator may follow any sealed one. -/
theorem Sealed.append {a b : Str} (ha : Sealed a) (hb : Sealed b)
    (hhead : b.head?.all parts = true) : Sealed (a ++ b) := by
  cases b with
  | nil => rwa [List.append_nil]
  | cons c b =>
      obtain ⟨hc, hne⟩ := (Bool.and_eq_true _ _).mp hhead
      have hstep : step (lex .base a) c = step .base c := by
        rw [step_separator ha.2 hc, step_separator idle_base hc]
      obtain ⟨hwithin, hidle⟩ := hb
      refine ⟨within_append.mpr ⟨ha.1, fun he => absurd he (of_decide_eq_true hne), ?_⟩, ?_⟩
      · rw [hstep]
        exact hwithin.2
      · rw [lex_append, lex_cons, hstep]
        exact hidle

/-- Any piece may follow one that ends between tokens. -/
theorem Sealed.after {a b : Str} (hb : Sealed b) (ha : Within .base a)
    (hbase : lex .base a = .base) :
    Sealed (a ++ b) :=
  ⟨within_append.mpr ⟨ha, by rw [hbase]; exact hb.1⟩, by rw [lex_append, hbase]; exact hb.2⟩

/-- Two pieces with SQL between them that begins with a separator and ends between tokens. -/
theorem Sealed.between {a b : Str} (sep : Str) (ha : Sealed a) (hb : Sealed b)
    (hsep : Within .base sep) (hbase : lex .base sep = .base)
    (hhead : sep.head?.any parts = true) :
    Sealed (a ++ (sep ++ b)) := by
  refine ha.append (hb.after hsep hbase) ?_
  cases sep with
  | nil => exact absurd hhead (by simp)
  | cons c sep => exact hhead

/-- Sealed pieces with a separator between them. -/
theorem sealed_join {sep : Str} {pieces : List Str} (h : ∀ piece ∈ pieces, Sealed piece)
    (hsep : Within .base sep) (hbase : lex .base sep = .base)
    (hhead : sep.head?.any parts = true) : Sealed (join sep pieces) := by
  induction pieces with
  | nil => exact sealed_nil
  | cons piece pieces ih =>
      have hpiece := h piece List.mem_cons_self
      have hrest := ih fun p hp => h p (List.mem_cons_of_mem piece hp)
      by_cases hpieces : pieces = []
      · rw [hpieces, join_singleton]
        exact hpiece
      · rw [join_cons_of_ne_nil _ _ hpieces]
        exact hpiece.between sep hrest hsep hbase hhead

/-- Between quotes no semicolon is a token. -/
theorem within_quoted (name : Str) : Within .quoted (replaceChar '"' "\"\"".toList name) := by
  induction name with
  | nil => trivial
  | cons c name ih =>
      rw [replaceChar] at ih
      rw [replaceChar, List.flatMap_cons]
      by_cases hc : c = '"'
      · subst hc
        exact ⟨fun he => absurd he (by decide), fun he => absurd he (by decide), ih⟩
      · have hstep : step .quoted c = .quoted := if_neg hc
        rw [if_neg hc, List.singleton_append, Within, hstep]
        exact ⟨fun _ => by decide, ih⟩

/-- **A name in quotes is sealed**, whatever its characters. -/
theorem sealed_quoteName (name : Str) : Sealed (quoteName name) := by
  have hopen : lex .base "\"".toList = .quoted := rfl
  have hname : lex .base ("\"".toList ++ replaceChar '"' "\"\"".toList name) = .quoted := by
    rw [lex_append, hopen, (lex_quoted_replaceChar name).1]
  refine ⟨within_append.mpr ⟨within_append.mpr ⟨by decide, ?_⟩, by rw [hname]; decide⟩, ?_⟩
  · rw [hopen]
    exact within_quoted name
  · rw [quoteName, lex_append, hname]
    trivial

/-! ## Statements that begin with blanks and comments -/

/-- The text behind blanks and comments to the end of the line. -/
def skipBlank : Bool → Str → Str
  | _, [] => []
  | true, c :: s => skipBlank (c ≠ '\n') s
  | false, c :: s =>
      if c = ' ' ∨ c = '\n' then skipBlank false s
      else if c = '-' ∧ s.head? = some '-' then skipBlank true s
      else c :: s

/-! ## Lists of names -/

/-- Names in quotes with commas between them, and what follows. The first argument bounds the
    number of names. -/
def readNames : Nat → Str → Option (List Str × Str)
  | 0, _ => none
  | fuel + 1, s => do
      let (name, s) ← (dropStart "\"".toList s).bind (readName false)
      match dropStart ", ".toList s with
      | some s => (readNames fuel s).map fun result => (name :: result.1, result.2)
      | none => some ([name], s)

/-- A name in quotes is read back as it is. -/
theorem readName_quoteName (name : Str) {rest : Str} (h : rest.head? ≠ some '"') :
    (dropStart "\"".toList (quoteName name ++ rest)).bind (readName false) = some (name, rest) := by
  have htext : quoteName name ++ rest =
      "\"".toList ++ (replaceChar '"' "\"\"".toList name ++ '"' :: rest) := by
    simp [quoteName]
  rw [htext, dropStart_append, Option.bind_some, readName_append name h]

/-- **A list of names is read back** as it is, up to the parenthesis behind it. -/
theorem readNames_join {names : List Str} (hne : names ≠ []) {fuel : Nat}
    (hfuel : names.length ≤ fuel) (rest : Str) :
    readNames fuel (join ", ".toList (names.map quoteName) ++ ')' :: rest) =
      some (names, ')' :: rest) := by
  induction names generalizing fuel with
  | nil => exact absurd rfl hne
  | cons name names ih =>
      obtain ⟨fuel, rfl⟩ := Nat.exists_eq_succ_of_ne_zero (Nat.ne_zero_of_lt hfuel)
      by_cases hnames : names = []
      · subst hnames
        rw [readNames, List.map_singleton, join_singleton, readName_quoteName name (by simp)]
        rfl
      · have hmap : names.map quoteName ≠ [] := by simpa using hnames
        have hrest := ih hnames (Nat.le_of_succ_le_succ hfuel)
        rw [readNames, List.map_cons, join_cons_of_ne_nil _ _ hmap, List.append_assoc,
          List.append_assoc, readName_quoteName name (by simp)]
        simp only [Option.bind_eq_bind, Option.bind_some, dropStart_append, hrest]
        rfl

end PgErdCloud.Lib.LexState
