/-
  Patterns for one of several words at the beginning of a text, in any case of its letters.
  Nothing here belongs to one program.
-/
import PgErdCloud.Lib.RegexReads

namespace PgErdCloud.Lib.Regex

open PyStr

variable {p q : Regex} {ps : List Regex} {m : Match} {place : Place} {s : Str}

theorem isSome_matchStart_iff :
    (p.matchStart s).isSome = true ↔ ∃ m, m ∈ p.ways ⟨[], s⟩ := by
  rw [matchStart, List.isSome_head?, ne_eq, List.eq_nil_iff_forall_not_mem]
  push Not
  rfl

theorem skip_nothing (place : Place) : place.skip Match.nothing.text = place := rfl

theorem mem_ways_lit_append {text before rest : Str} :
    ⟨text, []⟩ ∈ (lit text).ways ⟨before, text ++ rest⟩ := by
  induction text generalizing before with
  | nil => exact List.mem_singleton_self _
  | cons ch text ih =>
      refine mem_ways_seq.mpr ⟨⟨[ch], []⟩, mem_ways_one.mpr ⟨ch, _, rfl, by simp, rfl⟩,
        ⟨text, []⟩, ?_, rfl⟩
      exact @ih (ch :: before)

/-! ## Searching -/

theorem isSome_searchFrom_iff {before after : Str} :
    (p.searchFrom before after).isSome = true ↔
      ∃ u v, u ++ v = after ∧ ∃ m, m ∈ p.ways ⟨u.reverse ++ before, v⟩ := by
  have hhead {place : Place} : (p.ways place).head?.isSome = true ↔ ∃ m, m ∈ p.ways place := by
    rw [List.isSome_head?, ne_eq, List.eq_nil_iff_forall_not_mem]
    push Not
    rfl
  induction after generalizing before with
  | nil =>
      rw [searchFrom, hhead]
      constructor
      · rintro ⟨m, hm⟩
        exact ⟨[], [], rfl, m, hm⟩
      · rintro ⟨u, v, huv, m, hm⟩
        obtain ⟨rfl, rfl⟩ := List.append_eq_nil_iff.mp huv
        exact ⟨m, hm⟩
  | cons ch after ih =>
      rw [searchFrom, Option.isSome_or, Bool.or_eq_true, hhead]
      refine (or_congr Iff.rfl ih).trans ?_
      constructor
      · rintro (⟨m, hm⟩ | ⟨u, v, rfl, m, hm⟩)
        · exact ⟨[], _, rfl, m, hm⟩
        · refine ⟨ch :: u, v, rfl, m, ?_⟩
          rwa [List.reverse_cons, List.append_assoc]
      · rintro ⟨u, v, huv, m, hm⟩
        cases u with
        | nil =>
            obtain rfl : v = ch :: after := huv
            exact .inl ⟨m, hm⟩
        | cons c u =>
            obtain ⟨rfl, rfl⟩ := List.cons.inj huv
            rw [List.reverse_cons, List.append_assoc] at hm
            exact .inr ⟨u, v, rfl, m, hm⟩

/-- **A search** finds something where the pattern matches somewhere in the text. -/
theorem isSome_search_iff :
    (p.search s).isSome = true ↔ ∃ u v, u ++ v = s ∧ ∃ m, m ∈ p.ways ⟨u.reverse, v⟩ := by
  rw [search, isSome_searchFrom_iff]
  simp only [List.append_nil]

/-- A text, and a border of words on both of its sides. -/
theorem isSome_search_bordered_iff {isWord : Char → Bool} {text : Str} :
    ((all [boundary isWord, lit text, boundary isWord]).search s).isSome = true ↔
      ∃ before after, s = before ++ (text ++ after) ∧
        before.getLast?.any isWord ≠ (text ++ after).head?.any isWord ∧
        (before ++ text).getLast?.any isWord ≠ after.head?.any isWord := by
  rw [isSome_search_iff]
  constructor
  · rintro ⟨u, v, rfl, m, hm⟩
    obtain ⟨start, hstart, n, hn, rfl⟩ := mem_ways_seq.mp hm
    obtain ⟨hlook, rfl⟩ := mem_ways_here.mp hstart
    obtain ⟨word, hword, n', hn', rfl⟩ := mem_ways_seq.mp hn
    obtain ⟨stop, hstop, -⟩ := mem_ways_seq.mp hn'
    obtain ⟨⟨after, hafter⟩, htext⟩ := And.intro (ways_reads _ hword) (mem_ways_lit hword)
    rw [htext] at hafter hstop
    have hafter : text ++ after = v := hafter
    subst hafter
    have hlook' := (mem_ways_here.mp hstop).1
    rw [skip_nothing, skip_append] at hlook'
    simp only [bne_iff_ne, List.head?_reverse, ← List.reverse_append] at hlook hlook'
    exact ⟨u, after, rfl, hlook, hlook'⟩
  · rintro ⟨before, after, rfl, hlook, hlook'⟩
    refine ⟨before, text ++ after, rfl, _,
      mem_ways_seq.mpr ⟨.nothing, mem_ways_here.mpr ⟨?_, rfl⟩, _,
      mem_ways_seq.mpr ⟨⟨text, []⟩, ?_, _, mem_ways_seq.mpr ⟨.nothing, mem_ways_here.mpr ⟨?_, rfl⟩,
        .nothing, List.mem_singleton_self _, rfl⟩, rfl⟩, rfl⟩⟩
    · simpa only [bne_iff_ne, List.head?_reverse] using hlook
    · exact mem_ways_lit_append
    · rw [skip_nothing, skip_append]
      simpa only [bne_iff_ne, List.head?_reverse, ← List.reverse_append] using hlook'

/-! ## Alternatives -/

theorem mem_ways_any_iff : m ∈ (any ps).ways place ↔ ∃ p ∈ ps, m ∈ p.ways place := by
  refine ⟨mem_ways_any, ?_⟩
  rintro ⟨p, hp, hm⟩
  induction ps with
  | nil => exact absurd hp List.not_mem_nil
  | cons q ps ih =>
      cases ps with
      | nil =>
          obtain rfl := List.mem_singleton.mp hp
          exact hm
      | cons r ps =>
          rw [any, ways, List.mem_append]
          · rcases List.mem_cons.mp hp with rfl | hp
            · exact .inl hm
            · exact .inr (ih hp)
          · exact List.cons_ne_nil r ps

/-! ## A character that every match has -/

/-- Every way through the pattern reads this character. -/
def ReadsChar (p : Regex) (ch : Char) : Prop := ∀ place, ∀ m ∈ p.ways place, ch ∈ m.text

variable {ch : Char}

theorem readsChar_one : (one fun c => decide (c = ch)).ReadsChar ch := by
  intro place m hm
  obtain ⟨c, after, -, hc, rfl⟩ := mem_ways_one.mp hm
  obtain rfl := of_decide_eq_true hc
  exact List.mem_cons_self

theorem ReadsChar.seq_left (q : Regex) (h : p.ReadsChar ch) : (seq p q).ReadsChar ch := by
  intro place m hm
  obtain ⟨n, hn, rest, -, rfl⟩ := mem_ways_seq.mp hm
  exact List.mem_append_left _ (h place n hn)

theorem ReadsChar.seq_right (p : Regex) (h : q.ReadsChar ch) : (seq p q).ReadsChar ch := by
  intro place m hm
  obtain ⟨n, -, rest, hrest, rfl⟩ := mem_ways_seq.mp hm
  exact List.mem_append_right _ (h _ rest hrest)

/-- A text without the character. -/
theorem ReadsChar.matchStart_eq_none (h : p.ReadsChar ch) (hs : ch ∉ s) :
    p.matchStart s = none := by
  rw [← Option.not_isSome_iff_eq_none, isSome_matchStart_iff]
  rintro ⟨m, hm⟩
  exact hs ((ways_reads p hm).subset (h _ m hm))

/-! ## Letters in any case -/

/-- A letter that no character outside of ASCII is taken for. -/
theorem isLetter_iff {letter : Char} (h : letter ∉ "ski".toList) :
    isLetter letter ch = true ↔ ch.toLower = letter := by
  have hs : letter ≠ 's' := fun he => h (he ▸ by decide)
  have hk : letter ≠ 'k' := fun he => h (he ▸ by decide)
  have hi : letter ≠ 'i' := fun he => h (he ▸ by decide)
  simp [isLetter, hs, hk, hi]

theorem forall₂_isLetter_iff {letters text : Str} (h : ∀ l ∈ letters, l ∉ "ski".toList) :
    List.Forall₂ (fun l c => isLetter l c = true) letters text ↔
      text.map Char.toLower = letters := by
  induction letters generalizing text with
  | nil => simp
  | cons l letters ih =>
      have hl := h l List.mem_cons_self
      have ih := fun {text : Str} => @ih text fun l hl => h l (List.mem_cons_of_mem _ hl)
      cases text with
      | nil => simp
      | cons c text =>
          rw [List.forall₂_cons, isLetter_iff hl, ih, List.map_cons, List.cons.injEq]

theorem isAlphanum_of_toLower {letter : Char} (h : letter.isLower = true)
    (hch : ch.toLower = letter) : ch.isAlphanum = true := by
  subst hch
  rw [Char.isAlphanum, Char.isAlpha]
  by_cases hupper : ch.isUpper = true
  · simp [hupper]
  · have hself : ch.toLower = ch := by
      rw [Char.toLower, dif_neg]
      simpa [Char.isUpper] using hupper
    rw [hself] at h
    simp [h]

theorem exists_of_forall₂ {α γ : Type} {R : α → γ → Prop} {xs : List α} {ys : List γ} {y : γ}
    (h : List.Forall₂ R xs ys) (hy : y ∈ ys) : ∃ x ∈ xs, R x y := by
  induction h with
  | nil => exact absurd hy List.not_mem_nil
  | @cons x z xs ys hxz _ ih =>
      rcases List.mem_cons.mp hy with rfl | hy
      · exact ⟨x, List.mem_cons_self, hxz⟩
      · obtain ⟨w, hw, hr⟩ := ih hy
        exact ⟨w, List.mem_cons_of_mem x hw, hr⟩

theorem isSpace_of_isLetter {letter : Char} (h : letter.isLower = true)
    (hch : isLetter letter ch = true) : isSpace ch = false := by
  simp only [isLetter, Bool.or_eq_true, Bool.and_eq_true, decide_eq_true_eq] at hch
  rcases hch with ((hch | ⟨-, rfl⟩) | ⟨-, rfl⟩) | ⟨-, rfl | rfl⟩
  · exact isSpace_of_isAlphanum (isAlphanum_of_toLower h hch)
  · decide
  · decide
  · decide
  · decide

theorem mem_ways_letters {letters text : Str} (before rest : Str)
    (h : List.Forall₂ (fun l c => isLetter l c = true) letters text) :
    ⟨text, []⟩ ∈ (all (letters.map fun l => one (isLetter l))).ways ⟨before, text ++ rest⟩ := by
  induction h generalizing before with
  | nil => exact List.mem_singleton_self _
  | @cons l c letters text hc _ ih =>
      refine mem_ways_seq.mpr
        ⟨⟨[c], []⟩, mem_ways_one.mpr ⟨c, _, rfl, hc, rfl⟩, ⟨text, []⟩, ?_, rfl⟩
      exact ih (c :: before)

/-! ## Words -/

/-- One of the words, which begins the text and is as long as its first word. -/
def firstWord (isWord : Char → Bool) (words : List String) : Regex :=
  all [lineStart, any (words.map litIgnoreCase), boundary isWord]

/-- The words have letters only. -/
def AreWords (isWord : Char → Bool) (words : List String) : Prop :=
  ∀ w ∈ words, w.toList ≠ [] ∧ ∀ l ∈ w.toList, ∀ ch, isLetter l ch = true → isWord ch = true

/-- **The first word of a text** is one of the words. -/
theorem isSome_firstWord_iff {isWord : Char → Bool} {words : List String} {name rest : Str}
    (hwords : AreWords isWord words) (hname : ∀ ch ∈ name, isWord ch = true)
    (hrest : ∀ ch ∈ rest.head?, isWord ch = false) :
    ((firstWord isWord words).matchStart (name ++ rest)).isSome = true ↔
      ∃ w ∈ words, List.Forall₂ (fun l c => isLetter l c = true) w.toList name := by
  have hall {w : String} (hw : w ∈ words) {text : Str}
      (htext : List.Forall₂ (fun l c => isLetter l c = true) w.toList text) :
      text ≠ [] ∧ ∀ ch ∈ text, isWord ch = true := by
    obtain ⟨hne, hletters⟩ := hwords w hw
    refine ⟨fun he => hne ?_, fun ch hch => ?_⟩
    · exact List.length_eq_zero_iff.mp (by rw [htext.length_eq, he]; rfl)
    · obtain ⟨l, hl, hletter⟩ := exists_of_forall₂ htext hch
      exact hletters l hl ch hletter
  rw [isSome_matchStart_iff]
  constructor
  · rintro ⟨m, hm⟩
    obtain ⟨start, hstart, n, hn, rfl⟩ := mem_ways_seq.mp hm
    obtain ⟨-, rfl⟩ := mem_ways_here.mp hstart
    obtain ⟨word, hword, n', hn', rfl⟩ := mem_ways_seq.mp hn
    obtain ⟨stop, hstop, -⟩ := mem_ways_seq.mp hn'
    obtain ⟨p, hp, hword⟩ := mem_ways_any hword
    obtain ⟨w, hw, rfl⟩ := List.mem_map.mp hp
    obtain ⟨⟨tail, htail⟩, hletters⟩ := mem_ways_litIgnoreCase hword
    obtain ⟨hne, hchars⟩ := hall hw hletters
    have htail : word.text ++ tail = name ++ rest := htail
    have hlook := (mem_ways_here.mp hstop).1
    have hplace : Place.skip ⟨[], name ++ rest⟩ word.text = ⟨word.text.reverse ++ [], tail⟩ := by
      rw [← htail, skip_append]
    rw [skip_nothing, hplace, List.append_nil, List.head?_reverse,
      List.getLast?_eq_some_getLast hne, Option.any_some,
      hchars _ (List.getLast_mem hne), bne_iff_ne] at hlook
    have hstop : ∀ ch ∈ tail.head?, isWord ch = false := by
      intro ch hch
      rw [Option.mem_def.mp hch, Option.any_some] at hlook
      simpa using hlook.symm
    obtain ⟨hsame, -⟩ := run_unique hname hchars hrest hstop htail.symm
    exact ⟨w, hw, hsame ▸ hletters⟩
  · rintro ⟨w, hw, hletters⟩
    obtain ⟨hne, -⟩ := hall hw hletters
    have hword : ⟨name, []⟩ ∈ (any (words.map litIgnoreCase)).ways ⟨[], name ++ rest⟩ :=
      mem_ways_any_iff.mpr ⟨_, List.mem_map_of_mem hw, mem_ways_letters [] rest hletters⟩
    have hlook : (name.reverse ++ []).head?.any isWord != rest.head?.any isWord := by
      rw [List.append_nil, List.head?_reverse, List.getLast?_eq_some_getLast hne,
        Option.any_some, hname _ (List.getLast_mem hne)]
      cases hhead : rest.head? with
      | none => rfl
      | some ch => simp [hrest ch hhead]
    refine ⟨_, mem_ways_seq.mpr ⟨.nothing, mem_ways_here.mpr ⟨rfl, rfl⟩, _,
      mem_ways_seq.mpr ⟨⟨name, []⟩, hword, _,
        mem_ways_seq.mpr ⟨.nothing, mem_ways_here.mpr ⟨?_, rfl⟩, .nothing,
          List.mem_singleton_self _, rfl⟩, rfl⟩, rfl⟩⟩
    rw [skip_nothing, skip_append]
    exact hlook

end PgErdCloud.Lib.Regex
