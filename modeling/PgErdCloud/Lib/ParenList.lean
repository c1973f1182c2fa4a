/-
  Lists in parentheses, as SQL has them: elements are separated by commas and the list ends at
  a closing parenthesis, but for those in double quotes and in parentheses of an element. The
  elements that are read are the only way to cut the text into closed ones.
-/
import PgErdCloud.Lib.Words
import PgErdCloud.Lib.Nesting

namespace PgErdCloud.Lib.ParenList

open PyStr

/-! ## Scanning -/

/-- Where a scan stands: within quotes, and in how many parentheses. -/
structure State where
  quoted : Bool
  depth : Nat
  deriving DecidableEq

/-- Outside of quotes and of parentheses. -/
def State.start : State := ⟨false, 0⟩

/-- A comma or a closing parenthesis. -/
def isEnd (ch : Char) : Prop := ch = ',' ∨ ch = ')'

instance (ch : Char) : Decidable (isEnd ch) := inferInstanceAs (Decidable (_ ∨ _))

/-- The state behind a character, which is no end of the element. -/
def State.next (st : State) (ch : Char) : State :=
  if ch = '"' then ⟨!st.quoted, st.depth⟩
  else if st.quoted then st
  else if ch = '(' then ⟨false, st.depth + 1⟩
  else if ch = ')' then ⟨false, st.depth - 1⟩
  else st

/-- Whether a character ends the element. -/
def State.ends (st : State) (ch : Char) : Prop := st = .start ∧ isEnd ch

instance (st : State) (ch : Char) : Decidable (st.ends ch) := inferInstanceAs (Decidable (_ ∧ _))

/-- The state behind a text, if it does not end the element. -/
def scan (st : State) : Str → Option State
  | [] => some st
  | ch :: s => if st.ends ch then none else scan (st.next ch) s

/-- A text that is an element, or a part of one, whatever surrounds it. -/
def Closed (s : Str) : Prop := scan .start s = some .start

instance (s : Str) : Decidable (Closed s) := inferInstanceAs (Decidable (_ = _))

example : Closed "\"a,(\" numeric(10, 2)".toList := by decide

theorem scan_append (st : State) (s t : Str) : scan st (s ++ t) = (scan st s).bind (scan · t) := by
  induction s generalizing st with
  | nil => rfl
  | cons ch s ih =>
      rw [List.cons_append, scan, scan]
      split_ifs with hend
      · rfl
      · exact ih _

/-- What is no quote, parenthesis or comma. -/
def isPlain (ch : Char) : Bool := ch ∉ "\"(),".toList

/-- Plain characters leave the state as it is. -/
theorem scan_of_plain {s : Str} (h : ∀ ch ∈ s, isPlain ch = true) (st : State) :
    scan st s = some st := by
  induction s with
  | nil => rfl
  | cons ch s ih =>
      have hch : ch ≠ '"' ∧ ch ≠ '(' ∧ ch ≠ ')' ∧ ch ≠ ',' := by
        simpa [isPlain] using h ch List.mem_cons_self
      have hend : ¬ st.ends ch := fun he => he.2.elim hch.2.2.2 hch.2.2.1
      have hnext : st.next ch = st := by
        rw [State.next, if_neg hch.1, if_neg hch.2.1, if_neg hch.2.2.1, ite_self]
      rw [scan, if_neg hend, hnext, ih fun c hc => h c (List.mem_cons_of_mem ch hc)]

theorem closed_plain_append {s : Str} (hs : ∀ ch ∈ s, isPlain ch = true) (t : Str) :
    Closed (s ++ t) ↔ Closed t := by
  rw [Closed, scan_append, scan_of_plain hs, Option.bind_some, Closed]

theorem closed_append_plain {s : Str} (hs : ∀ ch ∈ s, isPlain ch = true) (t : Str) :
    Closed (t ++ s) ↔ Closed t := by
  rw [Closed, scan_append, Closed]
  cases scan .start t with
  | none => rfl
  | some st => rw [Option.bind_some, scan_of_plain hs]

/-- A text without quotes within quotes. -/
theorem scan_quoted {s : Str} (h : '"' ∉ s) (depth : Nat) :
    scan ⟨true, depth⟩ s = some ⟨true, depth⟩ := by
  induction s with
  | nil => rfl
  | cons ch s ih =>
      have hch : ch ≠ '"' := fun he => h (he ▸ List.mem_cons_self)
      have hend : ¬ State.ends ⟨true, depth⟩ ch := fun he => absurd he.1 (by simp [State.start])
      have hnext : State.next ⟨true, depth⟩ ch = ⟨true, depth⟩ := by
        rw [State.next, if_neg hch, if_pos rfl]
      rw [scan, if_neg hend, hnext, ih fun hm => h (List.mem_cons_of_mem ch hm)]

/-! ## Texts without quotes -/

theorem forall_prefix_cons {P : Str → Prop} {ch : Char} {s : Str} :
    (∀ p, p <+: ch :: s → P p) ↔ P [] ∧ ∀ p, p <+: s → P (ch :: p) := by
  constructor
  · intro h
    exact ⟨h [] List.nil_prefix, fun p hp => h _ ((List.prefix_cons_inj ch).mpr hp)⟩
  · rintro ⟨hnil, hcons⟩ p hp
    cases p with
    | nil => exact hnil
    | cons c p =>
        obtain ⟨rfl, hrest⟩ := List.cons_prefix_cons.mp hp
        exact hcons p hrest

theorem forall_cut_cons {P : Str → Prop} {c ch : Char} {s : Str} :
    (∀ before after, ch :: s = before ++ c :: after → P before) ↔
      (ch = c → P []) ∧ ∀ before after, s = before ++ c :: after → P (ch :: before) := by
  constructor
  · intro h
    refine ⟨fun hch => h [] s (by rw [hch]; rfl), fun before after hs => ?_⟩
    exact h (ch :: before) after (by rw [hs]; rfl)
  · rintro ⟨hnil, hcons⟩ before after hs
    cases before with
    | nil => exact hnil (List.cons.inj hs).1
    | cons b before =>
        obtain ⟨rfl, hrest⟩ := List.cons.inj hs
        exact hcons before after hrest

/-- The scan goes wrong where a parenthesis or a comma is outside of every parenthesis. -/
theorem scan_eq_start_iff {s : Str} (h : '"' ∉ s) (depth : Nat) :
    scan ⟨false, depth⟩ s = some .start ↔
      depth + Nesting.depth '(' ')' s = 0 ∧
      (∀ p, p <+: s → 0 ≤ depth + Nesting.depth '(' ')' p) ∧
      ∀ before after, s = before ++ ',' :: after → 0 < depth + Nesting.depth '(' ')' before := by
  induction s generalizing depth with
  | nil =>
      have hnil : scan ⟨false, depth⟩ [] = some .start ↔ depth = 0 := by
        rw [scan, Option.some.injEq, State.start, State.mk.injEq]
        exact and_iff_right rfl
      rw [hnil]
      simp
  | cons ch s ih =>
      have hs : '"' ∉ s := fun hm => h (List.mem_cons_of_mem ch hm)
      have hquote : ch ≠ '"' := fun he => h (he ▸ List.mem_cons_self)
      rw [forall_prefix_cons, forall_cut_cons, scan]
      simp only [Nesting.depth_cons, Nesting.depth_nil, add_zero]
      -- the rest is scanned at a depth from which the weight of the character is the difference
      have hrest (next : Nat) (hnext : State.next ⟨false, depth⟩ ch = ⟨false, next⟩)
          (hend : ¬ State.ends ⟨false, depth⟩ ch)
          (hweight : (next : Int) = depth + Nesting.weight '(' ')' ch)
          (hcomma : ch = ',' → 0 < depth) :
          (if State.ends ⟨false, depth⟩ ch then none else scan (State.next ⟨false, depth⟩ ch) s) =
              some .start ↔
            depth + (Nesting.weight '(' ')' ch + Nesting.depth '(' ')' s) = 0 ∧
            (0 ≤ (depth : Int) ∧ ∀ p, p <+: s →
              0 ≤ depth + (Nesting.weight '(' ')' ch + Nesting.depth '(' ')' p)) ∧
            (ch = ',' → 0 < (depth : Int)) ∧ ∀ before after, s = before ++ ',' :: after →
              0 < depth + (Nesting.weight '(' ')' ch + Nesting.depth '(' ')' before) := by
        rw [if_neg hend, hnext, ih hs]
        simp only [hweight, add_assoc]
        have hnonneg : 0 ≤ (depth : Int) := Int.natCast_nonneg depth
        have hcomma' : ch = ',' → 0 < (depth : Int) := fun he => by exact_mod_cast hcomma he
        rw [and_iff_right hnonneg, and_iff_right hcomma']
      by_cases hopen : ch = '('
      · subst hopen
        exact hrest (depth + 1) rfl (fun he => absurd he.2 (by decide))
          (by rw [Nesting.weight_open]; push_cast; rfl) (fun he => absurd he (by decide))
      · by_cases hclose : ch = ')'
        · subst hclose
          have hweight : Nesting.weight '(' ')' ')' = -1 := Nesting.weight_close (by decide)
          cases depth with
          | zero =>
              rw [if_pos ⟨rfl, Or.inr rfl⟩]
              refine iff_of_false (by simp) fun h => absurd (h.2.1.2 [] List.nil_prefix) ?_
              rw [hweight, Nesting.depth_nil]
              decide
          | succ depth =>
              exact hrest depth rfl (fun he => absurd he.1 (by simp [State.start]))
                (by rw [hweight]; push_cast; ring) (fun he => absurd he (by decide))
        · have hweight : Nesting.weight '(' ')' ch = 0 := Nesting.weight_atom hopen hclose
          have hnext : State.next ⟨false, depth⟩ ch = ⟨false, depth⟩ := by
            rw [State.next, if_neg hquote, if_neg Bool.false_ne_true, if_neg hopen, if_neg hclose]
          by_cases hend : State.ends ⟨false, depth⟩ ch
          · have hdepth : depth = 0 := congrArg State.depth hend.1
            have hcomma : ch = ',' := hend.2.resolve_right hclose
            rw [if_pos hend]
            refine iff_of_false (by simp) fun h => absurd (h.2.2.1 hcomma) ?_
            rw [hdepth]
            decide
          · refine hrest depth hnext hend (by rw [hweight, add_zero]) fun hcomma => ?_
            by_contra hpos
            have hdepth : depth = 0 := by omega
            exact hend ⟨by rw [hdepth]; rfl, Or.inl hcomma⟩

theorem closed_iff_of_no_quote {s : Str} (h : '"' ∉ s) :
    Closed s ↔ Nesting.WellNested '(' ')' s ∧
      ∀ before after, s = before ++ ',' :: after → 0 < Nesting.depth '(' ')' before := by
  have hscan := scan_eq_start_iff h 0
  simp only [Nat.cast_zero, zero_add] at hscan
  rw [Nesting.wellNested_iff (by decide), and_assoc]
  exact hscan

/-! ## Elements -/

/-- The text up to the end of the element, the character that ends it and what is behind. -/
def cutElement (st : State) : Str → Option (Str × Char × Str)
  | [] => none
  | ch :: s =>
      if st.ends ch then some ([], ch, s)
      else (cutElement (st.next ch) s).map fun cut => (ch :: cut.1, cut.2)

theorem cutElement_eq_some_iff {st : State} {s e r : Str} {ch : Char} :
    cutElement st s = some (e, ch, r) ↔ s = e ++ ch :: r ∧ scan st e = some .start ∧ isEnd ch := by
  induction s generalizing st e with
  | nil => exact iff_of_false nofun fun h => absurd h.1 (by simp)
  | cons first s ih =>
      rw [cutElement]
      split_ifs with hend
      · constructor
        · intro h
          obtain ⟨rfl, rfl, rfl⟩ : [] = e ∧ first = ch ∧ s = r := by simpa using h
          exact ⟨rfl, congrArg some hend.1, hend.2⟩
        · rintro ⟨hs, hscan, hch⟩
          cases e with
          | nil =>
              obtain ⟨rfl, rfl⟩ := List.cons.inj hs
              rfl
          | cons c e =>
              obtain ⟨rfl, -⟩ := List.cons.inj hs
              rw [scan, if_pos hend] at hscan
              exact absurd hscan nofun
      · constructor
        · intro h
          obtain ⟨⟨e', ch', r'⟩, hcut, hpair⟩ := Option.map_eq_some_iff.mp h
          obtain ⟨rfl, rfl, rfl⟩ : first :: e' = e ∧ ch' = ch ∧ r' = r := by simpa using hpair
          obtain ⟨rfl, hscan, hch⟩ := ih.mp hcut
          exact ⟨rfl, by rw [scan, if_neg hend, hscan], hch⟩
        · rintro ⟨hs, hscan, hch⟩
          cases e with
          | nil =>
              obtain ⟨rfl, rfl⟩ := List.cons.inj hs
              exact absurd ⟨Option.some.inj hscan, hch⟩ hend
          | cons c e =>
              obtain ⟨rfl, rfl⟩ := List.cons.inj hs
              rw [scan, if_neg hend] at hscan
              rw [ih.mpr ⟨rfl, hscan, hch⟩]
              rfl

/-- The elements of a list from behind its opening parenthesis, and what is behind the closing
    one. The first argument bounds the number of elements. -/
def readElements : Nat → Str → Option (List Str × Str)
  | 0, _ => none
  | fuel + 1, s =>
      match cutElement .start s with
      | none => none
      | some (e, ch, r) =>
          if ch = ',' then (readElements fuel r).map fun result => (e :: result.1, result.2)
          else some ([e], r)

/-- **The elements that are read** are closed, and closed elements are read as they are. -/
theorem readElements_eq_some_iff {fuel : Nat} {s r : Str} {es : List Str} :
    readElements fuel s = some (es, r) ↔
      s = join ",".toList es ++ ')' :: r ∧ es ≠ [] ∧ es.length ≤ fuel ∧ ∀ e ∈ es, Closed e := by
  induction fuel generalizing s es with
  | zero =>
      refine iff_of_false nofun fun h => h.2.1 (List.length_eq_zero_iff.mp ?_)
      exact Nat.le_zero.mp h.2.2.1
  | succ fuel ih =>
      constructor
      · intro h
        rw [readElements] at h
        cases hcut : cutElement .start s with
        | none =>
            rw [hcut] at h
            exact absurd h nofun
        | some cut =>
            obtain ⟨e, ch, rest⟩ := cut
            rw [hcut] at h
            obtain ⟨rfl, hclosed, hend⟩ := cutElement_eq_some_iff.mp hcut
            dsimp only at h
            split_ifs at h with hcomma
            · obtain ⟨⟨es', r'⟩, hread, hpair⟩ := Option.map_eq_some_iff.mp h
              obtain ⟨rfl, rfl⟩ := Prod.mk.inj hpair
              obtain ⟨rfl, hne, hlength, hall⟩ := ih.mp hread
              refine ⟨?_, List.cons_ne_nil _ _, Nat.succ_le_succ hlength, ?_⟩
              · rw [join_cons_of_ne_nil _ _ hne, hcomma, List.append_assoc, List.append_assoc]
                rfl
              · exact List.forall_mem_cons.mpr ⟨hclosed, hall⟩
            · obtain ⟨rfl, rfl⟩ : [e] = es ∧ rest = r := by simpa using h
              refine ⟨?_, List.cons_ne_nil _ _, Nat.succ_le_succ (Nat.zero_le _), ?_⟩
              · rw [join_singleton, hend.resolve_left hcomma]
              · exact List.forall_mem_singleton.mpr hclosed
      · rintro ⟨rfl, hne, hlength, hall⟩
        obtain ⟨e, es, rfl⟩ := List.exists_cons_of_ne_nil hne
        have hclosed := hall e List.mem_cons_self
        by_cases hes : es = []
        · subst hes
          rw [readElements, join_singleton,
            cutElement_eq_some_iff.mpr ⟨rfl, hclosed, Or.inr rfl⟩]
          rfl
        · have hread := ih.mpr ⟨rfl, hes, Nat.le_of_succ_le_succ hlength,
            fun c hc => hall c (List.mem_cons_of_mem e hc)⟩
          have hsplit : join ",".toList (e :: es) ++ ')' :: r =
              e ++ ',' :: (join ",".toList es ++ ')' :: r) := by
            rw [join_cons_of_ne_nil _ _ hes, List.append_assoc, List.append_assoc]
            rfl
          rw [readElements, hsplit, cutElement_eq_some_iff.mpr ⟨rfl, hclosed, Or.inl rfl⟩]
          dsimp only
          rw [if_pos rfl, hread]
          rfl

/-! ## Names in quotes -/

/-- A name in quotes, from behind the first one, and what follows it. A quote within is
    doubled; the first argument says whether one has just been read. -/
def readName : Bool → Str → Option (Str × Str)
  | true, [] => some ([], [])
  | false, [] => none
  | true, ch :: s =>
      if ch = '"' then (readName false s).map fun result => ('"' :: result.1, result.2)
      else some ([], ch :: s)
  | false, ch :: s =>
      if ch = '"' then readName true s
      else (readName false s).map fun result => (ch :: result.1, result.2)

/-- A name in double quotes, with those within doubled. -/
def quoteName (name : Str) : Str :=
  "\"".toList ++ replaceChar '"' "\"\"".toList name ++ "\"".toList

theorem readName_append (name : Str) {rest : Str} (h : rest.head? ≠ some '"') :
    readName false (replaceChar '"' "\"\"".toList name ++ '"' :: rest) = some (name, rest) := by
  induction name with
  | nil =>
      change readName true rest = some ([], rest)
      cases rest with
      | nil => rfl
      | cons c rest =>
          have hc : c ≠ '"' := fun he => h (congrArg some he)
          rw [readName, if_neg hc]
  | cons ch name ih =>
      rw [replaceChar] at ih
      rw [replaceChar, List.flatMap_cons, List.append_assoc]
      by_cases hch : ch = '"'
      · subst hch
        exact congrArg (Option.map fun result : Str × Str => ('"' :: result.1, result.2)) ih
      · rw [if_neg hch, List.singleton_append, readName, if_neg hch, ih, Option.map_some]

/-- A name in quotes is no end of an element, whatever its characters. -/
theorem scan_quoteName (name : Str) (depth : Nat) :
    scan ⟨false, depth⟩ (quoteName name) = some ⟨false, depth⟩ := by
  have hopen (s : Str) : scan ⟨false, depth⟩ ('"' :: s) = scan ⟨true, depth⟩ s := by
    have hend : ¬ State.ends ⟨false, depth⟩ '"' := fun he => absurd he.2 (by decide)
    rw [scan, if_neg hend]
    rfl
  have hclose (s : Str) : scan ⟨true, depth⟩ ('"' :: s) = scan ⟨false, depth⟩ s := by
    have hend : ¬ State.ends ⟨true, depth⟩ '"' := fun he => absurd he.2 (by decide)
    rw [scan, if_neg hend]
    rfl
  have hname : scan ⟨true, depth⟩ (replaceChar '"' "\"\"".toList name) = some ⟨true, depth⟩ := by
    induction name with
    | nil => rfl
    | cons ch name ih =>
        rw [replaceChar] at ih
        rw [replaceChar, List.flatMap_cons]
        by_cases hch : ch = '"'
        · subst hch
          exact (hclose _).trans ((hopen _).trans ih)
        · rw [if_neg hch, scan_append, scan_quoted (by simpa using Ne.symm hch), Option.bind_some,
            ih]
  have hrest : scan ⟨true, depth⟩ (replaceChar '"' "\"\"".toList name ++ ['"']) =
      some ⟨false, depth⟩ := by
    rw [scan_append, hname, Option.bind_some]
    exact hclose []
  rw [quoteName, List.append_assoc]
  exact (hopen _).trans hrest

/-- Names are kept apart by commas, which end nothing within parentheses. -/
theorem scan_names (names : List Str) (depth : Nat) :
    scan ⟨false, depth + 1⟩ (join ", ".toList (names.map quoteName)) = some ⟨false, depth + 1⟩ := by
  have hcomma (s : Str) : scan ⟨false, depth + 1⟩ (", ".toList ++ s) =
      scan ⟨false, depth + 1⟩ s := by
    rw [scan_append]
    have hend : ¬ State.ends ⟨false, depth + 1⟩ ',' := fun he => absurd he.1 (by simp [State.start])
    have hblank : ¬ State.ends ⟨false, depth + 1⟩ ' ' := fun he => absurd he.2 (by decide)
    have hsep : scan ⟨false, depth + 1⟩ ", ".toList = some ⟨false, depth + 1⟩ := by
      change scan ⟨false, depth + 1⟩ [',', ' '] = _
      rw [scan, if_neg hend]
      change scan ⟨false, depth + 1⟩ [' '] = _
      rw [scan, if_neg hblank]
      rfl
    rw [hsep, Option.bind_some]
  induction names with
  | nil => rfl
  | cons name names ih =>
      by_cases hnames : names = []
      · subst hnames
        rw [List.map_singleton, join_singleton, scan_quoteName]
      · have hmap : names.map quoteName ≠ [] := by simpa using hnames
        rw [List.map_cons, join_cons_of_ne_nil _ _ hmap, scan_append, scan_quoteName,
          Option.bind_some, hcomma, ih]

end PgErdCloud.Lib.ParenList
