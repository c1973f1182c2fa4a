/-
  JSON values, and the masking of members by name: the values of the members with a hidden name
  are replaced, at any depth. Two values have the same masked form exactly when they agree up to
  the values of the hidden members.
-/
import PgErdCloud.Lib.PyStr

namespace PgErdCloud.Lib

open PyStr

/-- A JSON value. The members of an object keep their order; a number that is not an integer is
    given by its text. -/
inductive Json
  | null
  | bool (b : Bool)
  | int (n : Int)
  | float (text : Str)
  | str (s : Str)
  | arr (items : List Json)
  | obj (members : List (Str × Json))

namespace Json

variable (hidden : Str → Bool)

/-! ## Masking -/

mutual

/-- Replace the values of the hidden members by `mask`. -/
def masked (mask : Json) : Json → Json
  | .arr items => .arr (maskedItems mask items)
  | .obj members => .obj (maskedMembers mask members)
  | scalar => scalar

/-- The items of an array, each masked. -/
def maskedItems (mask : Json) : List Json → List Json
  | [] => []
  | item :: items => masked mask item :: maskedItems mask items

/-- The members of an object: a hidden one gets the mask, another is masked within. -/
def maskedMembers (mask : Json) : List (Str × Json) → List (Str × Json)
  | [] => []
  | (key, value) :: members =>
      (key, if hidden key then mask else masked mask value) :: maskedMembers mask members

end

mutual

/-- The same value, up to the values of the hidden members. -/
def AgreeOff : Json → Json → Prop
  | .arr items, .arr items' => ItemsAgreeOff items items'
  | .obj members, .obj members' => MembersAgreeOff members members'
  | a, b => a = b

/-- Arrays whose items agree off what is hidden, one by one. -/
def ItemsAgreeOff : List Json → List Json → Prop
  | [], [] => True
  | item :: items, item' :: items' => AgreeOff item item' ∧ ItemsAgreeOff items items'
  | _, _ => False

/-- Objects with the same keys, whose members agree where they are not hidden. -/
def MembersAgreeOff : List (Str × Json) → List (Str × Json) → Prop
  | [], [] => True
  | (key, value) :: members, (key', value') :: members' =>
      key = key' ∧ (hidden key = true ∨ AgreeOff value value') ∧ MembersAgreeOff members members'
  | _, _ => False

end

mutual

/-- **Masking hides the hidden members and nothing else.** -/
theorem masked_eq_masked_iff (mask : Json) :
    ∀ a b : Json, masked hidden mask a = masked hidden mask b ↔ AgreeOff hidden a b
  | .arr items, .arr items' => by
      simp only [masked, AgreeOff, arr.injEq]
      exact maskedItems_eq_iff mask items items'
  | .obj members, .obj members' => by
      simp only [masked, AgreeOff, obj.injEq]
      exact maskedMembers_eq_iff mask members members'
  | .null, b | .bool _, b | .int _, b | .float _, b | .str _, b => by
      cases b <;> simp [masked, AgreeOff]
  | .arr _, .null | .arr _, .bool _ | .arr _, .int _ | .arr _, .float _ | .arr _, .str _
  | .arr _, .obj _ => by simp [masked, AgreeOff]
  | .obj _, .null | .obj _, .bool _ | .obj _, .int _ | .obj _, .float _ | .obj _, .str _
  | .obj _, .arr _ => by simp [masked, AgreeOff]

theorem maskedItems_eq_iff (mask : Json) : ∀ items items' : List Json,
    maskedItems hidden mask items = maskedItems hidden mask items' ↔
      ItemsAgreeOff hidden items items'
  | [], [] => by simp [maskedItems, ItemsAgreeOff]
  | [], _ :: _ | _ :: _, [] => by simp [maskedItems, ItemsAgreeOff]
  | item :: items, item' :: items' => by
      simp only [maskedItems, ItemsAgreeOff, List.cons.injEq]
      rw [masked_eq_masked_iff mask item item', maskedItems_eq_iff mask items items']

theorem maskedMembers_eq_iff (mask : Json) : ∀ members members' : List (Str × Json),
    maskedMembers hidden mask members = maskedMembers hidden mask members' ↔
      MembersAgreeOff hidden members members'
  | [], [] => by simp [maskedMembers, MembersAgreeOff]
  | [], _ :: _ | _ :: _, [] => by simp [maskedMembers, MembersAgreeOff]
  | (key, value) :: members, (key', value') :: members' => by
      simp only [maskedMembers, MembersAgreeOff, List.cons.injEq, Prod.mk.injEq]
      rw [maskedMembers_eq_iff mask members members', and_assoc]
      apply and_congr_right
      rintro rfl
      cases hidden key with
      | true => simp
      | false => simp [masked_eq_masked_iff mask value value']

end

end Json

end PgErdCloud.Lib
