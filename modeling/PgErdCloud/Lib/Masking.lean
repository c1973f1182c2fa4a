/-
  Putting a mask in place of parts of a text: what the result can still contain. Nothing here
  belongs to one program.
-/
import Mathlib

namespace PgErdCloud.Lib

variable {α : Type} {mask w s t : List α}

/-! ## Masks -/

/-- The second text is the first with a mask in place of some of its parts. -/
inductive Masks (mask : List α) : List α → List α → Prop
  | nil : Masks mask [] []
  | keep (a : α) {s t : List α} : Masks mask s t → Masks mask (a :: s) (a :: t)
  | hide (part : List α) {s t : List α} : Masks mask s t → Masks mask (part ++ s) (mask ++ t)

theorem Masks.keep_append (kept : List α) (h : Masks mask s t) :
    Masks mask (kept ++ s) (kept ++ t) := by
  induction kept with
  | nil => exact h
  | cons a kept ih => exact .keep a ih

/-- What shares nothing with the mask and begins behind some of it begins behind all of it. -/
theorem infix_of_infix_mask_append (hne : w ≠ []) (hfree : ∀ a ∈ w, a ∉ mask)
    (h : w <:+: mask ++ t) : w <:+: t := by
  induction mask with
  | nil => exact h
  | cons a mask ih =>
      rw [List.cons_append, List.infix_cons_iff] at h
      rcases h with h | h
      · obtain ⟨b, w, rfl⟩ := List.exists_cons_of_ne_nil hne
        obtain ⟨rfl, -⟩ := List.cons_prefix_cons.mp h
        exact absurd List.mem_cons_self (hfree b List.mem_cons_self)
      · exact ih (fun b hb hm => hfree b hb (List.mem_cons_of_mem a hm)) h

theorem Masks.begins (hmask : mask ≠ []) (hfree : ∀ a ∈ w, a ∉ mask)
    (hm : Masks mask s t) (h : w <+: t) : w <+: s := by
  induction hm generalizing w with
  | nil => exact h
  | keep a _ ih =>
      cases w with
      | nil => exact List.nil_prefix
      | cons b w =>
          obtain ⟨rfl, htail⟩ := List.cons_prefix_cons.mp h
          exact List.cons_prefix_cons.mpr
            ⟨rfl, ih (fun c hc => hfree c (List.mem_cons_of_mem b hc)) htail⟩
  | hide part _ _ =>
      cases w with
      | nil => exact List.nil_prefix
      | cons b w =>
          obtain ⟨c, mask, rfl⟩ := List.exists_cons_of_ne_nil hmask
          obtain ⟨rfl, -⟩ := List.cons_prefix_cons.mp h
          exact absurd List.mem_cons_self (hfree b List.mem_cons_self)

/-- **Masking reveals nothing.** What stands in the masked text and shares no character with
    the mask stood in the text before. -/
theorem Masks.infix_of_infix (hmask : mask ≠ []) (hne : w ≠ []) (hfree : ∀ a ∈ w, a ∉ mask)
    (hm : Masks mask s t) (h : w <:+: t) : w <:+: s := by
  induction hm with
  | nil => exact h
  | keep a hm ih =>
      rw [List.infix_cons_iff] at h ⊢
      exact h.imp (fun h => (Masks.keep a hm).begins hmask hfree h) ih
  | hide part _ ih =>
      exact (ih (infix_of_infix_mask_append hne hfree h)).trans
        (List.suffix_append part _).isInfix

/-! ## Replacing every occurrence -/

variable [DecidableEq α]

/-- Replacement from left to right, with the number of elements of the last occurrence that
    are still to pass. -/
def replaceFrom (old new : List α) : Nat → List α → List α
  | _, [] => []
  | pending + 1, _ :: s => replaceFrom old new pending s
  | 0, a :: s =>
      if old.isPrefixOf (a :: s) then new ++ replaceFrom old new (old.length - 1) s
      else a :: replaceFrom old new 0 s

/-- `s.replace(old, new)` for a text that is not empty. -/
def replaceAll (old new s : List α) : List α := replaceFrom old new 0 s

variable {old : List α}

theorem masks_replaceFrom (hold : old ≠ []) (pending : Nat) (s : List α) :
    Masks mask (s.drop pending) (replaceFrom old mask pending s) := by
  induction s generalizing pending with
  | nil => simpa [replaceFrom] using Masks.nil
  | cons a s ih =>
      cases pending with
      | succ pending => exact ih pending
      | zero =>
          rw [List.drop_zero, replaceFrom]
          split_ifs with hp
          · obtain ⟨b, old, rfl⟩ := List.exists_cons_of_ne_nil hold
            obtain ⟨rest, hrest⟩ := List.isPrefixOf_iff_prefix.mp hp
            obtain ⟨rfl, rfl⟩ : b = a ∧ old ++ rest = s := by simpa using hrest
            have key := Masks.hide (b :: old) (ih old.length)
            rw [List.drop_left] at key
            exact key
          · exact .keep a (ih 0)

theorem masks_replaceAll (hold : old ≠ []) (s : List α) :
    Masks mask s (replaceAll old mask s) := masks_replaceFrom hold 0 s

theorem not_infix_replaceFrom (hmask : mask ≠ []) (hold : old ≠ [])
    (hfree : ∀ a ∈ old, a ∉ mask) (pending : Nat) (s : List α) :
    ¬ old <:+: replaceFrom old mask pending s := by
  induction s generalizing pending with
  | nil =>
      rw [replaceFrom, List.infix_nil]
      exact hold
  | cons a s ih =>
      cases pending with
      | succ pending => exact ih pending
      | zero =>
          rw [replaceFrom]
          split_ifs with hp
          · exact fun h => ih _ (infix_of_infix_mask_append hold hfree h)
          · rw [List.infix_cons_iff, not_or]
            refine ⟨fun h => hp ?_, ih 0⟩
            rw [List.isPrefixOf_iff_prefix]
            exact (Masks.keep a (masks_replaceFrom hold 0 s)).begins hmask hfree h

/-- **Nothing is left of a text that is replaced everywhere** by a mask that shares no
    character with it. -/
theorem not_infix_replaceAll (hmask : mask ≠ []) (hold : old ≠ [])
    (hfree : ∀ a ∈ old, a ∉ mask) (s : List α) : ¬ old <:+: replaceAll old mask s :=
  not_infix_replaceFrom hmask hold hfree 0 s

end PgErdCloud.Lib
