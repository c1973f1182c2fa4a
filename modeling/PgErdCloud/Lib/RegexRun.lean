/-
  Following a backtracking matcher through a text that is known in parts: the preferred way to
  match, under a condition on what comes behind it. Nothing here belongs to one program.
-/
import PgErdCloud.Lib.Regex

namespace PgErdCloud.Lib.Regex

open PyStr

variable {β : Type}

/-- The first way to match with which a continuation succeeds. -/
def first (p : Regex) (place : Place) (k : Match → Option β) : Option β :=
  (p.ways place).findSome? k

variable {p q : Regex} {ps : List Regex} {place : Place} {m : Match} {before rest text : Str}
  {ok : Char → Bool} {k : Match → Option β} {r : β}

theorem head?_ways (p : Regex) (place : Place) : (p.ways place).head? = p.first place some := by
  rw [first]
  cases p.ways place <;> rfl

@[simp] theorem skip_append (before text rest : Str) :
    (Place.mk before (text ++ rest)).skip text = ⟨text.reverse ++ before, rest⟩ := by
  rw [Place.skip, List.drop_left]

@[simp] theorem skip_nil (place : Place) : place.skip [] = place := rfl

@[simp] theorem nothing_andThen (m : Match) : Match.nothing.andThen m = m := rfl

/-! ## Where nothing matches -/

/-- The pattern does not match at the place. -/
def Fails (p : Regex) (place : Place) : Prop := p.ways place = []

theorem Fails.first (h : p.Fails place) (k : Match → Option β) : p.first place k = none := by
  rw [Regex.first, h]
  rfl

theorem fails_one (h : ∀ ch ∈ place.after.head?, ok ch = false) : (one ok).Fails place := by
  obtain ⟨before, _ | ⟨ch, after⟩⟩ := place
  · rfl
  · simp [Fails, ways, h ch rfl]

theorem Fails.seq (h : p.Fails place) (q : Regex) : (seq p q).Fails place := by
  rw [Fails, ways, h]
  rfl

theorem Fails.alt (hp : p.Fails place) (hq : q.Fails place) : (alt p q).Fails place := by
  rw [Fails, ways, hp, hq]
  rfl

theorem Fails.group (h : p.Fails place) (name : String) : (group name p).Fails place := by
  rw [Fails, ways, h]
  rfl

/-- A pattern that fails behind every way to match the first one. -/
theorem fails_seq_of_forall (h : ∀ m ∈ p.ways place, q.Fails (place.skip m.text)) :
    (seq p q).Fails place := by
  rw [Fails, ways, List.flatMap_eq_nil_iff]
  intro m hm
  rw [h m hm]
  rfl

/-! ## One step of the matcher -/

theorem first_empty : first empty place k = k .nothing := by
  rw [first, ways]
  cases h : k .nothing <;> simp [List.findSome?, h]

theorem first_here {ok : Option Char → Option Char → Bool}
    (h : ok place.before.head? place.after.head? = true) :
    first (here ok) place k = k .nothing := by
  rw [first, ways, if_pos h]
  cases h : k .nothing <;> simp [List.findSome?, h]

theorem first_one {ch : Char} (h : ok ch = true) :
    first (one ok) ⟨before, ch :: rest⟩ k = k ⟨[ch], []⟩ := by
  simp only [first, ways, h, if_true]
  cases hk : k ⟨[ch], []⟩ <;> simp [List.findSome?, hk]

theorem findSome?_flatMap {α γ : Type} (xs : List α) (f : α → List γ) (k : γ → Option β) :
    (xs.flatMap f).findSome? k = xs.findSome? fun x => (f x).findSome? k := by
  induction xs with
  | nil => rfl
  | cons x xs ih =>
      rw [List.flatMap_cons, List.findSome?_append, ih, List.findSome?_cons]
      cases (f x).findSome? k <;> rfl

theorem first_seq : first (seq p q) place k =
    first p place fun m => first q (place.skip m.text) fun n => k (m.andThen n) := by
  simp only [first, ways, findSome?_flatMap, List.findSome?_map, Function.comp_def]

theorem first_alt : first (alt p q) place k = (first p place k).or (first q place k) := by
  simp only [first, ways, List.findSome?_append]

theorem first_group {name : String} : first (group name p) place k =
    first p place fun m => k ⟨m.text, (name, m.text) :: m.groups⟩ := by
  simp only [first, ways, List.findSome?_map, Function.comp_def]

theorem first_left (h : first p place k = some r) : first (alt p q) place k = some r := by
  rw [first_alt, h]
  rfl

theorem first_right (hp : p.Fails place) (h : first q place k = some r) :
    first (alt p q) place k = some r := by
  rw [first_alt, hp.first, Option.none_or, h]

/-- An optional part that is there. -/
theorem first_opt (h : first p place k = some r) : first (opt p) place k = some r := first_left h

/-- An optional part that is not there. -/
theorem first_opt_none (hp : p.Fails place) (h : k .nothing = some r) :
    first (opt p) place k = some r :=
  first_right hp (first_empty.trans h)

theorem first_all_cons {ps : List Regex} : first (all (p :: ps)) place k =
    first p place fun m => first (all ps) (place.skip m.text) fun n => k (m.andThen n) :=
  first_seq

/-! ## Texts -/

theorem first_lit : first (lit text) ⟨before, text ++ rest⟩ k = k ⟨text, []⟩ := by
  induction text generalizing before k with
  | nil => exact first_empty
  | cons ch text ih =>
      have hskip : (Place.mk before (ch :: (text ++ rest))).skip [ch] =
          ⟨ch :: before, text ++ rest⟩ := rfl
      have hok : decide (ch = ch) = true := decide_eq_true rfl
      rw [lit, List.map_cons, first_all_cons, List.cons_append, first_one hok, hskip]
      exact ih

theorem fails_lit {ch : Char} {s : Str} (h : ∀ c ∈ place.after.head?, c ≠ ch) :
    (lit (ch :: s)).Fails place :=
  (fails_one fun c hc => decide_eq_false (h c hc)).seq _

/-! ## Repetition -/

theorem repeated_run (fuel : Nat) (hrun : ∀ ch ∈ text, ok ch = true)
    (hrest : ∀ ch ∈ rest.head?, ok ch = false) (hfuel : text.length ≤ fuel) :
    repeated (one ok).ways fuel ⟨before, text ++ rest⟩ =
      text.inits.reverse.map fun t => ⟨t, []⟩ := by
  induction text generalizing fuel before with
  | nil =>
      cases fuel with
      | zero => rfl
      | succ fuel =>
          have hnone : (one ok).Fails ⟨before, rest⟩ := fails_one hrest
          rw [Fails] at hnone
          rw [repeated, List.nil_append, hnone]
          rfl
  | cons ch text ih =>
      cases fuel with
      | zero => exact absurd hfuel (by simp)
      | succ fuel =>
          have hrest := fun c hc => hrun c (List.mem_cons_of_mem ch hc)
          have ih := @ih (ch :: before) fuel hrest (by simpa using hfuel)
          have hway : (one ok).ways ⟨before, ch :: (text ++ rest)⟩ = [⟨[ch], []⟩] := by
            simp [ways, hrun ch List.mem_cons_self]
          have hskip : (Place.mk before (ch :: (text ++ rest))).skip [ch] =
              ⟨ch :: before, text ++ rest⟩ := rfl
          rw [repeated, List.cons_append, hway]
          simp only [ne_eq, List.cons_ne_self, not_false_eq_true, decide_true,
            List.filter_cons_of_pos, List.filter_nil, List.flatMap_cons, List.flatMap_nil,
            List.append_nil, hskip, ih]
          simp [List.inits, Match.andThen, Match.nothing, Function.comp_def]

/-- **A run of characters** is read from its longest beginning to its shortest. -/
theorem first_run (hrun : ∀ ch ∈ text, ok ch = true) (hrest : ∀ ch ∈ rest.head?, ok ch = false) :
    first (star (one ok)) ⟨before, text ++ rest⟩ k =
      text.inits.reverse.findSome? fun t => k ⟨t, []⟩ := by
  rw [first, ways, repeated_run _ hrun hrest (by simp), List.findSome?_map]
  rfl

theorem reverse_inits_concat (s : Str) (ch : Char) :
    (s ++ [ch]).inits.reverse = (s ++ [ch]) :: s.inits.reverse := by
  simp [List.inits_append]

/-- The whole run, where the rest of the pattern goes on behind it. -/
theorem first_star (hrun : ∀ ch ∈ text, ok ch = true) (hrest : ∀ ch ∈ rest.head?, ok ch = false)
    (h : k ⟨text, []⟩ = some r) : first (star (one ok)) ⟨before, text ++ rest⟩ k = some r := by
  rw [first_run hrun hrest]
  rcases List.eq_nil_or_concat text with rfl | ⟨s, ch, rfl⟩
  · simp [h]
  · rw [List.concat_eq_append] at h ⊢
    rw [reverse_inits_concat, List.findSome?_cons, h]

theorem first_plus (hne : text ≠ []) (hrun : ∀ ch ∈ text, ok ch = true)
    (hrest : ∀ ch ∈ rest.head?, ok ch = false) (h : k ⟨text, []⟩ = some r) :
    first (plus (one ok)) ⟨before, text ++ rest⟩ k = some r := by
  obtain ⟨ch, text, rfl⟩ := List.exists_cons_of_ne_nil hne
  rw [plus, first_seq, List.cons_append, first_one (hrun ch List.mem_cons_self)]
  exact first_star (fun c hc => hrun c (List.mem_cons_of_mem ch hc)) hrest h

/-- A run and then a pattern that fails behind each beginning of the run. -/
theorem fails_star_seq (hrun : ∀ ch ∈ text, ok ch = true) (hrest : ∀ ch ∈ rest.head?, ok ch = false)
    (h : ∀ t u, t ++ u = text → q.Fails ⟨t.reverse ++ before, u ++ rest⟩) :
    (seq (star (one ok)) q).Fails ⟨before, text ++ rest⟩ := by
  refine fails_seq_of_forall fun m hm => ?_
  rw [ways, repeated_run _ hrun hrest (by simp), List.mem_map] at hm
  obtain ⟨t, ht, rfl⟩ := hm
  obtain ⟨u, rfl⟩ := (List.mem_inits t text).mp (List.mem_reverse.mp ht)
  rw [List.append_assoc, skip_append]
  exact h t u rfl

/-! ## Patterns in a row -/

/-- The preferred way to match goes through every continuation that always succeeds. -/
theorem first_of_some (h : first p place some = some m) (g : Match → β) :
    first p place (fun n => some (g n)) = some (g m) := by
  rw [first] at h ⊢
  cases hways : p.ways place with
  | nil => rw [hways] at h; exact absurd h (by simp)
  | cons n ns =>
      rw [hways] at h
      obtain rfl : n = m := by simpa using h
      simp

theorem first_all_of (h : first p place (fun m => first (all ps) (place.skip m.text) fun n =>
    k (m.andThen n)) = some r) : first (all (p :: ps)) place k = some r :=
  first_all_cons.trans h

theorem first_all_nil (h : k .nothing = some r) : first (all []) place k = some r :=
  first_empty.trans h

theorem first_lit_of (h : k ⟨text, []⟩ = some r) :
    first (lit text) ⟨before, text ++ rest⟩ k = some r := first_lit.trans h

theorem first_group_of {name : String} (h : first p place (fun m =>
    k ⟨m.text, (name, m.text) :: m.groups⟩) = some r) : first (group name p) place k = some r :=
  first_group.trans h

/-! ## Words -/

theorem mem_ways_litIgnoreCase {letters : List Char} {m : Match}
    (h : m ∈ (all (letters.map fun l => one (isLetter l))).ways place) :
    m.text <+: place.after ∧ List.Forall₂ (fun l c => isLetter l c = true) letters m.text := by
  refine ⟨ways_reads _ h, ?_⟩
  induction letters generalizing place m with
  | nil =>
      obtain rfl := List.mem_singleton.mp h
      exact .nil
  | cons l letters ih =>
      obtain ⟨n, hn, rest, hrest, rfl⟩ := mem_ways_seq.mp h
      obtain ⟨before, _ | ⟨ch, after⟩⟩ := place
      · exact absurd hn List.not_mem_nil
      · simp only [ways] at hn
        split_ifs at hn with hok
        · obtain rfl := List.mem_singleton.mp hn
          exact .cons hok (ih hrest)
        · exact absurd hn List.not_mem_nil

end PgErdCloud.Lib.Regex
