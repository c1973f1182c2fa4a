/-
  What the matches of a pattern consist of, that a pattern which does not look around reads the
  same text wherever it stands, and a replacement taken match by match. Nothing here belongs to
  one program.
-/
import PgErdCloud.Lib.RegexRun

namespace PgErdCloud.Lib.Regex

open PyStr

variable {p q : Regex} {ps : List Regex} {place : Place} {m : Match} {ok : Char → Bool}

/-! ## Parts -/

theorem mem_ways_here {look : Option Char → Option Char → Bool} : m ∈ (here look).ways place ↔
    look place.before.head? place.after.head? = true ∧ m = .nothing := by
  rw [ways]
  split_ifs with hlook
  · rw [List.mem_singleton, and_iff_right hlook]
  · exact iff_of_false List.not_mem_nil fun h => hlook h.1

theorem mem_ways_one : m ∈ (one ok).ways place ↔
    ∃ ch after, place.after = ch :: after ∧ ok ch = true ∧ m = ⟨[ch], []⟩ := by
  obtain ⟨before, _ | ⟨ch, after⟩⟩ := place
  · simp [ways]
  · by_cases hok : ok ch = true <;> simp [ways, hok]

theorem mem_ways_lit {text : Str} (h : m ∈ (lit text).ways place) : m.text = text := by
  induction text generalizing place m with
  | nil =>
      obtain rfl := List.mem_singleton.mp h
      rfl
  | cons ch text ih =>
      obtain ⟨n, hn, rest, hrest, rfl⟩ := mem_ways_seq.mp h
      obtain ⟨c, after, -, hc, rfl⟩ := mem_ways_one.mp hn
      obtain rfl := of_decide_eq_true hc
      rw [Match.andThen, ih hrest]
      rfl

/-- A text that does not stand there. -/
theorem fails_lit_of_not_isPrefix {text : Str} (h : ¬ text <+: place.after) :
    (lit text).Fails place := by
  rw [Fails, List.eq_nil_iff_forall_not_mem]
  intro m hm
  exact h (mem_ways_lit hm ▸ ways_reads _ hm)

theorem mem_ways_any (h : m ∈ (any ps).ways place) : ∃ p ∈ ps, m ∈ p.ways place := by
  induction ps with
  | nil =>
      exact absurd (mem_ways_here.mp h).1 Bool.false_ne_true
  | cons p ps ih =>
      cases ps with
      | nil => exact ⟨p, List.mem_cons_self, h⟩
      | cons q ps =>
          rw [any, ways, List.mem_append] at h
          · rcases h with h | h
            · exact ⟨p, List.mem_cons_self, h⟩
            · obtain ⟨r, hr, h⟩ := ih h
              exact ⟨r, List.mem_cons_of_mem p hr, h⟩
          · exact List.cons_ne_nil q ps

theorem readsSome_any (h : ∀ p ∈ ps, p.ReadsSome) : (any ps).ReadsSome := by
  intro place m hm
  obtain ⟨p, hp, hm⟩ := mem_ways_any hm
  exact h p hp place m hm

theorem readsSome_litIgnoreCase {s : String} (h : s.toList ≠ []) :
    (litIgnoreCase s).ReadsSome := by
  obtain ⟨letter, letters, hs⟩ := List.exists_cons_of_ne_nil h
  rw [litIgnoreCase, hs, List.map_cons, all]
  exact .seq_left _ (readsSome_one _)

/-! ## Characters -/

/-- Every match of the pattern consists of such characters. -/
def ReadsOnly (p : Regex) (ok : Char → Bool) : Prop :=
  ∀ place, ∀ m ∈ p.ways place, ∀ ch ∈ m.text, ok ch = true

theorem readsOnly_nothing (hm : m ∈ [Match.nothing]) : ∀ ch ∈ m.text, ok ch = true := by
  obtain rfl := List.mem_singleton.mp hm
  exact fun ch hch => absurd hch List.not_mem_nil

theorem readsOnly_one {ok' : Char → Bool} (h : ∀ ch, ok' ch = true → ok ch = true) :
    (one ok').ReadsOnly ok := by
  intro place m hm ch hch
  obtain ⟨first, after, -, hfirst, rfl⟩ := mem_ways_one.mp hm
  obtain rfl := List.mem_singleton.mp hch
  exact h ch hfirst

theorem ReadsOnly.seq (hp : p.ReadsOnly ok) (hq : q.ReadsOnly ok) : (seq p q).ReadsOnly ok := by
  intro place m hm ch hch
  obtain ⟨n, hn, rest, hrest, rfl⟩ := mem_ways_seq.mp hm
  rw [Match.andThen, List.mem_append] at hch
  exact hch.elim (hp _ n hn ch) (hq _ rest hrest ch)

theorem ReadsOnly.opt (hp : p.ReadsOnly ok) : (opt p).ReadsOnly ok := by
  intro place m hm
  rw [Regex.opt, ways, List.mem_append] at hm
  exact hm.elim (hp place m) readsOnly_nothing

theorem ReadsOnly.star (hp : p.ReadsOnly ok) : (star p).ReadsOnly ok := by
  have hround (fuel : Nat) (place : Place) (m : Match) (hm : m ∈ repeated p.ways fuel place) :
      ∀ ch ∈ m.text, ok ch = true := by
    induction fuel generalizing place m with
    | zero => exact readsOnly_nothing hm
    | succ fuel ih =>
        rw [repeated, List.mem_append, List.mem_flatMap] at hm
        rcases hm with ⟨n, hn, hm⟩ | hm
        · obtain ⟨rest, hrest, rfl⟩ := List.mem_map.mp hm
          intro ch hch
          rw [Match.andThen, List.mem_append] at hch
          exact hch.elim (hp _ n (List.mem_of_mem_filter hn) ch) (ih _ rest hrest ch)
        · exact readsOnly_nothing hm
  exact fun place m hm => hround _ place m hm

theorem readsOnly_all (h : ∀ p ∈ ps, p.ReadsOnly ok) : (all ps).ReadsOnly ok := by
  induction ps with
  | nil => exact fun place m hm => readsOnly_nothing hm
  | cons p ps ih =>
      exact (h p List.mem_cons_self).seq (ih fun q hq => h q (List.mem_cons_of_mem p hq))

theorem readsOnly_any (h : ∀ p ∈ ps, p.ReadsOnly ok) : (any ps).ReadsOnly ok := by
  intro place m hm
  obtain ⟨p, hp, hm⟩ := mem_ways_any hm
  exact h p hp place m hm

theorem readsOnly_litIgnoreCase {s : String}
    (h : ∀ letter ∈ s.toList, ∀ ch, isLetter letter ch = true → ok ch = true) :
    (litIgnoreCase s).ReadsOnly ok := by
  refine readsOnly_all fun p hp => ?_
  obtain ⟨letter, hletter, rfl⟩ := List.mem_map.mp hp
  exact readsOnly_one (h letter hletter)

/-! ## Patterns that do not look around -/

/-- No part of the pattern looks at the characters on both sides. -/
def isBlind : Regex → Bool
  | empty => true
  | one _ => true
  | here _ => false
  | seq p q => p.isBlind && q.isBlind
  | alt p q => p.isBlind && q.isBlind
  | star p => p.isBlind
  | group _ p => p.isBlind

theorem nothing_mem_repeated (round : Place → List Match) (fuel : Nat) (place : Place) :
    .nothing ∈ repeated round fuel place := by
  cases fuel with
  | zero => exact List.mem_singleton_self _
  | succ fuel => exact List.mem_append_right _ (List.mem_singleton_self _)

theorem repeated_elsewhere {round : Place → List Match}
    (hround : ∀ place, ∀ n ∈ round place, ∀ before rest, n ∈ round ⟨before, n.text ++ rest⟩)
    {fuel fuel' : Nat} (h : m ∈ repeated round fuel place) (hfuel : m.text.length ≤ fuel')
    (before rest : Str) : m ∈ repeated round fuel' ⟨before, m.text ++ rest⟩ := by
  induction fuel generalizing place m fuel' before with
  | zero =>
      obtain rfl := List.mem_singleton.mp h
      exact nothing_mem_repeated _ _ _
  | succ fuel ih =>
      rw [repeated, List.mem_append, List.mem_flatMap] at h
      rcases h with ⟨n, hn, h⟩ | h
      · obtain ⟨k, hk, rfl⟩ := List.mem_map.mp h
        obtain ⟨hn, hne⟩ := List.mem_filter.mp hn
        have hpos := List.length_pos_iff.mpr (of_decide_eq_true hne)
        rw [Match.andThen, List.length_append] at hfuel
        cases fuel' with
        | zero => omega
        | succ fuel' =>
            have hn' := hround _ n hn before (k.text ++ rest)
            have hshort : k.text.length ≤ fuel' := by omega
            have hk' := ih hk hshort (n.text.reverse ++ before)
            rw [repeated, List.mem_append, List.mem_flatMap, Match.andThen, List.append_assoc]
            refine .inl ⟨n, List.mem_filter.mpr ⟨hn', hne⟩, List.mem_map.mpr ⟨k, ?_, rfl⟩⟩
            rw [skip_append]
            exact hk'
      · obtain rfl := List.mem_singleton.mp h
        exact nothing_mem_repeated _ _ _

/-- **What a blind pattern reads, it reads anywhere.** -/
theorem mem_ways_elsewhere (hp : p.isBlind = true) (h : m ∈ p.ways place) (before rest : Str) :
    m ∈ p.ways ⟨before, m.text ++ rest⟩ := by
  induction p generalizing place m before rest with
  | empty => exact h
  | one ok =>
      obtain ⟨ch, after, -, hok, rfl⟩ := mem_ways_one.mp h
      exact mem_ways_one.mpr ⟨ch, rest, rfl, hok, rfl⟩
  | here ok => exact absurd hp Bool.false_ne_true
  | seq p q ihp ihq =>
      rw [isBlind, Bool.and_eq_true] at hp
      obtain ⟨n, hn, k, hk, rfl⟩ := mem_ways_seq.mp h
      rw [Match.andThen, List.append_assoc]
      refine mem_ways_seq.mpr ⟨n, ihp hp.1 hn before (k.text ++ rest), k, ?_, rfl⟩
      rw [skip_append]
      exact ihq hp.2 hk _ rest
  | alt p q ihp ihq =>
      rw [isBlind, Bool.and_eq_true] at hp
      rw [ways, List.mem_append] at h ⊢
      exact h.imp (fun h => ihp hp.1 h before rest) (fun h => ihq hp.2 h before rest)
  | star p ih =>
      exact repeated_elsewhere (fun _ _ hn => ih hp hn) h (by simp) before rest
  | group name p ih =>
      obtain ⟨n, hn, rfl⟩ := List.mem_map.mp h
      exact List.mem_map.mpr ⟨n, ih hp hn before rest, rfl⟩

/-! ## Runs -/

/-- Two ways to cut one text behind its longest beginning of such characters. -/
theorem run_unique {run run' rest rest' : Str} (hrun : ∀ ch ∈ run, ok ch = true)
    (hrun' : ∀ ch ∈ run', ok ch = true) (hrest : ∀ ch ∈ rest.head?, ok ch = false)
    (hrest' : ∀ ch ∈ rest'.head?, ok ch = false) (h : run ++ rest = run' ++ rest') :
    run = run' ∧ rest = rest' := by
  have htake := congrArg (List.takeWhile ok) h
  rw [takeWhile_append_stop hrun hrest, takeWhile_append_stop hrun' hrest'] at htake
  subst htake
  exact ⟨rfl, List.append_cancel_left h⟩

/-- The run with which a text begins, and what is left of the text. -/
theorem exists_run (ok : Char → Bool) (s : Str) : ∃ run rest, s = run ++ rest ∧
    (∀ ch ∈ run, ok ch = true) ∧ (∀ ch ∈ rest.head?, ok ch = false) ∧
    ((∃ ch ∈ s.head?, ok ch = true) → run ≠ []) := by
  refine ⟨s.takeWhile ok, s.dropWhile ok, List.takeWhile_append_dropWhile.symm,
    fun ch hch => List.mem_takeWhile_imp hch, ?_, ?_⟩
  · intro ch hch
    have hhead := List.head?_dropWhile_not ok s
    rw [Option.mem_def.mp hch] at hhead
    simpa using hhead
  · rintro ⟨ch, hch, hok⟩
    cases s with
    | nil => exact absurd hch (by simp)
    | cons first s =>
        obtain rfl : first = ch := by simpa using hch
        rw [List.takeWhile_cons_of_pos hok]
        exact List.cons_ne_nil _ _

/-! ## Replacement, match by match -/

theorem subFrom_append (p : Regex) (new : Match → Str) (before text rest : Str) :
    subFrom p new text.length before (text ++ rest) =
      subFrom p new 0 (text.reverse ++ before) rest := by
  induction text generalizing before with
  | nil => rfl
  | cons ch text ih =>
      rw [List.cons_append, List.length_cons, subFrom, ih, List.reverse_cons, List.append_assoc]
      rfl

/-- The text behind a match is replaced from there on. -/
theorem subFrom_match {new : Match → Str} {before rest : Str} (hne : m.text ≠ [])
    (h : (p.ways ⟨before, m.text ++ rest⟩).head? = some m) :
    subFrom p new 0 before (m.text ++ rest) =
      new m ++ subFrom p new 0 (m.text.reverse ++ before) rest := by
  obtain ⟨ch, text, htext⟩ := List.exists_cons_of_ne_nil hne
  rw [htext, List.cons_append] at h ⊢
  rw [subFrom, h]
  simp only [htext, List.length_cons, Nat.add_sub_cancel]
  rw [subFrom_append, List.reverse_cons, List.append_assoc]
  rfl

/-- Where nothing matches, the character stays. -/
theorem subFrom_none {new : Match → Str} {before after : Str} {ch : Char}
    (h : (p.ways ⟨before, ch :: after⟩).head? = none) :
    subFrom p new 0 before (ch :: after) = ch :: subFrom p new 0 (ch :: before) after := by
  rw [subFrom, h]

end PgErdCloud.Lib.Regex
