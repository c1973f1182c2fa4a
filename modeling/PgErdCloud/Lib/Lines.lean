/-
  The lines of a text that is joined from parts, each of which may break into several lines. A
  selection of the parts, as the rows of a table among the paragraphs of a document, is found
  among the lines in its order; and so are the beginnings of the parts that have no break, each
  where a line begins. Nothing here belongs to one program.
-/
import PgErdCloud.Lib.Words

namespace PgErdCloud.Lib.PyStr

/-! ## Lines -/

/-- `s.split("\n")` -/
def linesOf (s : Str) : List Str := split '\n' s

/-- Lines of the text, in this order, begin with these texts. -/
def LinesBegin (starts : List Str) (text : Str) : Prop :=
  List.SublistForall₂ (· <+: ·) starts (linesOf text)

theorem linesOf_ne_nil (s : Str) : linesOf s ≠ [] := List.splitOn_ne_nil '\n' s

theorem linesOf_append_break (s t : Str) :
    linesOf (s ++ ("\n".toList ++ t)) = linesOf s ++ linesOf t :=
  List.splitOn_append_cons_self s t

/-- A text without a break is one line. -/
theorem linesOf_of_not_mem {s : Str} (h : '\n' ∉ s) : linesOf s = [s] := by
  have hjoin := split_join (fun part hpart => List.mem_singleton.mp hpart ▸ h)
    (List.cons_ne_nil s [])
  rwa [join_singleton] at hjoin

/-- Joined parts break where the parts do. -/
theorem linesOf_join {parts : List Str} (h : parts ≠ []) :
    linesOf (join "\n".toList parts) = parts.flatMap linesOf := by
  induction parts with
  | nil => exact absurd rfl h
  | cons part parts ih =>
      by_cases hparts : parts = []
      · subst hparts
        rw [join_singleton, List.flatMap_cons, List.flatMap_nil, List.append_nil]
      · rw [join_cons_of_ne_nil _ part hparts, linesOf_append_break, ih hparts,
          List.flatMap_cons]

/-! ## Some of the parts -/

/-- The lines of some of the parts are lines of the whole. -/
theorem flatMap_linesOf_sublist {some parts : List Str} (h : some.Sublist parts) :
    (some.flatMap linesOf).Sublist (linesOf (join "\n".toList parts)) := by
  by_cases hparts : parts = []
  · subst hparts
    rw [List.sublist_nil.mp h]
    exact List.nil_sublist _
  · rw [linesOf_join hparts]
    exact h.flatMap linesOf

/-- The first line of a text that begins with a text without a break begins with it too. -/
theorem prefix_head_linesOf {start s : Str} (h : start <+: s) (hbreak : '\n' ∉ start) :
    ∃ first rest, linesOf s = first :: rest ∧ start <+: first := by
  obtain ⟨s, rfl⟩ := h
  induction start with
  | nil =>
      obtain ⟨first, rest, hlines⟩ := List.exists_cons_of_ne_nil (linesOf_ne_nil s)
      exact ⟨first, rest, hlines, List.nil_prefix⟩
  | cons ch start ih =>
      have hch : ch ≠ '\n' := fun he => hbreak (he ▸ List.mem_cons_self)
      obtain ⟨first, rest, hlines, hfirst⟩ := ih fun hm => hbreak (List.mem_cons_of_mem ch hm)
      refine ⟨ch :: first, rest, ?_, List.cons_prefix_cons.mpr ⟨rfl, hfirst⟩⟩
      rw [linesOf] at hlines
      rw [linesOf, List.cons_append, split_cons_of_ne _ hch, hlines]
      rfl

theorem sublistForall₂_of_sublist {α β : Type} {R : α → β → Prop} {xs : List α} {ys zs : List β}
    (h : List.SublistForall₂ R xs ys) (hsub : ys.Sublist zs) : List.SublistForall₂ R xs zs := by
  obtain ⟨selected, hall, hselected⟩ := List.sublistForall₂_iff.mp h
  exact List.sublistForall₂_iff.mpr ⟨selected, hall, hselected.trans hsub⟩

/-- Beginnings of parts that have no break are beginnings of lines. -/
theorem linesBegin_of_parts {starts parts : List Str} (hbreak : ∀ start ∈ starts, '\n' ∉ start)
    (h : List.SublistForall₂ (· <+: ·) starts parts) :
    LinesBegin starts (join "\n".toList parts) := by
  by_cases hparts : parts = []
  · subst hparts
    cases h
    exact .nil
  · rw [LinesBegin, linesOf_join hparts]
    clear hparts
    induction h with
    | nil => exact .nil
    | cons hstart _ ih =>
        obtain ⟨first, rest, hlines, hfirst⟩ :=
          prefix_head_linesOf hstart (hbreak _ List.mem_cons_self)
        rw [List.flatMap_cons, hlines, List.cons_append]
        exact .cons hfirst (sublistForall₂_of_sublist
          (ih fun start hm => hbreak start (List.mem_cons_of_mem _ hm))
          (List.sublist_append_right rest _))
    | cons_right _ ih =>
        exact sublistForall₂_of_sublist (ih hbreak) (List.sublist_append_right _ _)

theorem LinesBegin.append {starts : List Str} {s : Str} (h : LinesBegin starts s) (t : Str) :
    LinesBegin starts (s ++ ("\n".toList ++ t)) := by
  rw [LinesBegin, linesOf_append_break]
  exact sublistForall₂_of_sublist h (List.sublist_append_left _ _)

/-! ## Records -/

theorem sublistForall₂_append {α β : Type} {R : α → β → Prop} {xs xs' : List α} {ys ys' : List β}
    (h : List.SublistForall₂ R xs ys) (h' : List.SublistForall₂ R xs' ys') :
    List.SublistForall₂ R (xs ++ xs') (ys ++ ys') := by
  induction h with
  | nil => exact sublistForall₂_of_sublist h' (List.sublist_append_right _ _)
  | cons hxy _ ih => exact .cons hxy ih
  | cons_right _ ih => exact .cons_right ih

/-- What is in the lines of each record is in the lines of all. -/
theorem sublistForall₂_flatMap {α β γ : Type} {R : β → γ → Prop} {f : α → List β}
    {g : α → List γ} {records : List α}
    (h : ∀ record ∈ records, List.SublistForall₂ R (f record) (g record)) :
    List.SublistForall₂ R (records.flatMap f) (records.flatMap g) := by
  induction records with
  | nil => exact .nil
  | cons record records ih =>
      exact sublistForall₂_append (h record List.mem_cons_self)
        (ih fun r hr => h r (List.mem_cons_of_mem _ hr))

/-! ## White space at the end -/

/-- `s.rstrip()` -/
def rstrip (s : Str) : Str := (lstrip s.reverse).reverse

theorem rstrip_append_of_isSpace (s : Str) {blank : Str} (h : ∀ ch ∈ blank, isSpace ch = true) :
    rstrip (s ++ blank) = rstrip s := by
  rw [rstrip, List.reverse_append,
    lstrip_append_of_isSpace _ fun ch hch => h ch (List.mem_reverse.mp hch), rstrip]

/-- Only the last part loses something, where it has a visible character. -/
theorem rstrip_append (s : Str) {part : Str} (h : ¬ ∀ ch ∈ part, isSpace ch = true) :
    rstrip (s ++ part) = s ++ rstrip part := by
  have hpart : part.reverse.dropWhile isSpace ≠ [] := by
    intro hnil
    exact h fun ch hch => List.dropWhile_eq_nil_iff.mp hnil ch (List.mem_reverse.mpr hch)
  rw [rstrip, rstrip, lstrip, lstrip, List.reverse_append, List.dropWhile_append, if_neg]
  · rw [List.reverse_append, List.reverse_reverse]
  · rwa [List.isEmpty_iff]

theorem rstrip_of_getLast? {part : Str} (h : ∀ ch ∈ part.getLast?, isSpace ch = false) :
    rstrip part = part := by
  rw [rstrip, lstrip_of_head (by rwa [List.head?_reverse]), List.reverse_reverse]

theorem join_concat (sep : Str) {parts : List Str} (part : Str) (h : parts ≠ []) :
    join sep (parts ++ [part]) = join sep parts ++ sep ++ part := by
  rw [join_append h (List.cons_ne_nil part []), join_singleton, List.append_assoc]

/-- Without the white space at its end the text is joined from parts among which those that end
    in a visible character still are. -/
theorem exists_parts_rstrip {some parts : List Str} (h : some.Sublist parts)
    (hends : ∀ part ∈ some, ∃ ch ∈ part.getLast?, isSpace ch = false) :
    ∃ rest, rstrip (join "\n".toList parts) = join "\n".toList rest ∧ some.Sublist rest := by
  induction parts using List.reverseRecOn generalizing some with
  | nil => exact ⟨[], rfl, h⟩
  | append_singleton parts part ih =>
      obtain ⟨before, last, rfl, hbefore, hlast⟩ := List.sublist_append_iff.mp h
      by_cases hblank : ∀ ch ∈ part, isSpace ch = true
      · -- the last part is blank, so it is none of those that are kept
        have hnil : last = [] := by
          by_contra hne
          obtain ⟨x, xs, rfl⟩ := List.exists_cons_of_ne_nil hne
          obtain rfl : x = part := List.mem_singleton.mp (hlast.subset List.mem_cons_self)
          obtain ⟨ch, hch, hvisible⟩ := hends x (by simp)
          rw [hblank ch (List.mem_of_getLast? hch)] at hvisible
          exact Bool.noConfusion hvisible
        subst hnil
        obtain ⟨rest, hrest, hsub⟩ := ih hbefore fun p hp => hends p (by simpa using hp)
        refine ⟨rest, ?_, by simpa using hsub⟩
        rw [← hrest]
        by_cases hparts : parts = []
        · subst hparts
          rw [List.nil_append, join_singleton]
          exact rstrip_append_of_isSpace [] hblank
        · rw [join_concat _ part hparts, rstrip_append_of_isSpace _ hblank]
          exact rstrip_append_of_isSpace _ fun ch hch => List.mem_singleton.mp hch ▸ rfl
      · refine ⟨parts ++ [rstrip part], ?_, hbefore.append ?_⟩
        · by_cases hparts : parts = []
          · subst hparts
            rw [List.nil_append, List.nil_append, join_singleton, join_singleton]
          · rw [join_concat _ part hparts, join_concat _ _ hparts, rstrip_append _ hblank]
        · cases last with
          | nil => exact List.nil_sublist _
          | cons x xs =>
              obtain rfl : x = part := List.mem_singleton.mp (hlast.subset List.mem_cons_self)
              obtain ⟨ch, hch, hvisible⟩ := hends x (by simp)
              rw [rstrip_of_getLast? fun c hc => Option.some.inj (hch.symm.trans hc) ▸ hvisible]
              exact hlast

end PgErdCloud.Lib.PyStr
