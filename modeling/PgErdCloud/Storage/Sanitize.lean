/-
  What goes into the database as text or JSON (app/sanitize.py). PostgreSQL takes no `NUL` in
  either, so a nested value is rebuilt without any: in its texts, in the keys of its mappings and
  in what its bytes are decoded to. The result is a value that the second pass leaves as it is.

  `sanitize_correct` is about every nested value: what is stored has no `NUL`, a second pass
  changes nothing, and a value without `NUL`, bytes and keys of other types is left alone.
-/
import PgErdCloud.Lib.Base64
import PgErdCloud.Lib.DictLoops
import PgErdCloud.Lib.Utf8
import PgErdCloud.Mysql.Introspect

namespace PgErdCloud.Storage

open Lib Lib.PyStr Mysql

/-! ## Values -/

/-- A key of a mapping: a text, or a hashable value of another type. -/
inductive Key (κ : Type)
  | str (s : Str)
  | other (k : κ)
  deriving DecidableEq

/-- A nested value. `bytes` stands for `bytes`, `bytearray` and `memoryview`, which are read
    alike. -/
inductive Value (κ ν : Type)
  | none
  | bool (b : Bool)
  | number (n : ν)
  | str (s : Str)
  | bytes (data : List UInt8)
  | list (items : List (Value κ ν))
  | tuple (items : List (Value κ ν))
  | mapping (members : List (Key κ × Value κ ν))

variable {κ ν : Type}

namespace Value

mutual

/-- The value and every value in it, at any depth. -/
def parts : Value κ ν → List (Value κ ν)
  | .list items => .list items :: itemsParts items
  | .tuple items => .tuple items :: itemsParts items
  | .mapping members => .mapping members :: membersParts members
  | scalar => [scalar]

/-- The values within a list. -/
def itemsParts : List (Value κ ν) → List (Value κ ν)
  | [] => []
  | item :: items => parts item ++ itemsParts items

/-- The values within a dictionary. -/
def membersParts : List (Key κ × Value κ ν) → List (Value κ ν)
  | [] => []
  | (_, value) :: members => parts value ++ membersParts members

end

/-- The property holds at every depth. -/
def Everywhere (p : Value κ ν → Prop) (obj : Value κ ν) : Prop := ∀ part ∈ obj.parts, p part

/-- The keys of a mapping are distinct. -/
def KeysDistinct : Value κ ν → Prop
  | .mapping members => (members.map Prod.fst).Nodup
  | _ => True

/-- The keys of a mapping are texts. -/
def KeysText : Value κ ν → Prop
  | .mapping members => ∀ member ∈ members, ∃ s, member.1 = .str s
  | _ => True

/-- Everything but bytes, which JSON has no place for. -/
def NotBytes : Value κ ν → Prop
  | .bytes _ => False
  | _ => True

end Value

/-- A Python object: in every mapping, at any depth, a key stands once. -/
@[ext] structure Obj (κ ν : Type) where
  value : Value κ ν
  keysDistinct : value.Everywhere Value.KeysDistinct

/-! ## Sanitising -/

/-- `bytes(obj).decode("utf-8")`, where it raises no exception. -/
def decodeUtf8 (data : List UInt8) : Option Str :=
  (String.fromUTF8? data.toByteArray).map String.toList

section
variable (strOf : κ → Str)

/-- `str(k)` -/
def Key.text : Key κ → Str
  | .str s => s
  | .other k => strOf k

/-- No `NUL` in the text or in a key of the mapping. -/
def Value.NulFree : Value κ ν → Prop
  | .str s => '\x00' ∉ s
  | .mapping members => ∀ member ∈ members, '\x00' ∉ member.1.text strOf
  | _ => True

variable [DecidableEq κ]

mutual

/-- `sanitize_for_storage`: texts lose their NUL characters, bytes become texts, and the rest keeps
    its shape. -/
def sanitizeForStorage : Value κ ν → Value κ ν
  | .str s => .str (stripNul s)
  | .bytes data =>
      match decodeUtf8 data with
      | some s => .str (stripNul s)
      | none => .str (Base64.b64encode data)
  | .list items => .list (sanitizeItems items)
  | .tuple items => .tuple (sanitizeItems items)
  | .mapping members => .mapping (sanitizeMembers .empty members).items
  | obj => obj

/-- The items of a list, each sanitised. -/
def sanitizeItems : List (Value κ ν) → List (Value κ ν)
  | [] => []
  | item :: items => sanitizeForStorage item :: sanitizeItems items

/-- The dictionary as it is built: of two keys that become one, the later value counts. -/
def sanitizeMembers (built : Dict (Key κ) (Value κ ν)) :
    List (Key κ × Value κ ν) → Dict (Key κ) (Value κ ν)
  | [] => built
  | (k, v) :: members =>
      sanitizeMembers (built.set (.str (stripNul (k.text strOf))) (sanitizeForStorage v)) members

end

end

/-! ## Parts -/

namespace Value

variable {p q : Value κ ν → Prop}

theorem mem_itemsParts {part : Value κ ν} {items : List (Value κ ν)} :
    part ∈ itemsParts items ↔ ∃ item ∈ items, part ∈ item.parts := by
  induction items with
  | nil => simp [itemsParts]
  | cons item items ih => simp [itemsParts, ih]

theorem mem_membersParts {part : Value κ ν} {members : List (Key κ × Value κ ν)} :
    part ∈ membersParts members ↔ ∃ member ∈ members, part ∈ member.2.parts := by
  induction members with
  | nil => simp [membersParts]
  | cons member members ih =>
      obtain ⟨k, v⟩ := member
      simp [membersParts, ih]

theorem everywhere_list {items : List (Value κ ν)} :
    Everywhere p (.list items) ↔ p (.list items) ∧ ∀ item ∈ items, Everywhere p item := by
  unfold Everywhere
  rw [parts, List.forall_mem_cons]
  refine and_congr_right fun _ => ?_
  simp only [mem_itemsParts]
  exact ⟨fun h item hm part hp => h part ⟨item, hm, hp⟩,
    fun h part ⟨item, hm, hp⟩ => h item hm part hp⟩

theorem everywhere_tuple {items : List (Value κ ν)} :
    Everywhere p (.tuple items) ↔ p (.tuple items) ∧ ∀ item ∈ items, Everywhere p item := by
  unfold Everywhere
  rw [parts, List.forall_mem_cons]
  refine and_congr_right fun _ => ?_
  simp only [mem_itemsParts]
  exact ⟨fun h item hm part hp => h part ⟨item, hm, hp⟩,
    fun h part ⟨item, hm, hp⟩ => h item hm part hp⟩

theorem everywhere_mapping {members : List (Key κ × Value κ ν)} :
    Everywhere p (.mapping members) ↔
      p (.mapping members) ∧ ∀ member ∈ members, Everywhere p member.2 := by
  unfold Everywhere
  rw [parts, List.forall_mem_cons]
  refine and_congr_right fun _ => ?_
  simp only [mem_membersParts]
  exact ⟨fun h member hm part hp => h part ⟨member, hm, hp⟩,
    fun h part ⟨member, hm, hp⟩ => h member hm part hp⟩

theorem everywhere_scalar {obj : Value κ ν} (h : obj.parts = [obj]) : Everywhere p obj ↔ p obj := by
  rw [Everywhere, h, List.forall_mem_singleton]

theorem Everywhere.imp (h : ∀ obj, p obj → q obj) {obj : Value κ ν} (hp : Everywhere p obj) :
    Everywhere q obj := fun part hm => h part (hp part hm)

end Value

/-! ## Texts -/

/-- Reading the bytes of a text gives the text back. -/
theorem decodeUtf8_encodeUtf8 (s : Str) : decodeUtf8 (encodeUtf8 s) = some s := by
  have hbytes : (encodeUtf8 s).toByteArray = s.utf8Encode := by
    unfold encodeUtf8 List.utf8Encode
    rfl
  have hvalid : (encodeUtf8 s).toByteArray.IsValidUTF8 := hbytes ▸ ⟨s, rfl⟩
  have htext : String.fromUTF8 _ hvalid = String.ofList s := by
    rw [← String.toByteArray_inj, String.toByteArray_ofList]
    exact hbytes
  rw [decodeUtf8, String.fromUTF8?, dif_pos hvalid, htext, Option.map_some, String.toList_ofList]

theorem nul_not_mem_b64encode (data : List UInt8) : '\x00' ∉ Base64.b64encode data := by
  intro h
  rcases List.mem_append.mp h with h | h
  · obtain ⟨n, hn, he⟩ := Base64.mem_symbols h
    exact absurd he ((by decide +kernel : ∀ n < 64, '\x00' ≠ Base64.symbol n) n hn)
  · exact absurd (List.eq_of_mem_replicate h) (by decide)

/-! ## One pass -/

section
variable (strOf : κ → Str)

/-- What the database takes. -/
structure Storable (obj : Value κ ν) : Prop where
  nulFree : obj.NulFree strOf
  keysText : obj.KeysText
  notBytes : obj.NotBytes
  keysDistinct : obj.KeysDistinct

variable {strOf}

theorem storable_str {s : Str} (h : '\x00' ∉ s) :
    (Value.str s : Value κ ν).Everywhere (Storable strOf) :=
  (Value.everywhere_scalar rfl).mpr ⟨h, trivial, trivial, trivial⟩

variable [DecidableEq κ]

/-- What the loop over the members has built so far. -/
structure Built (strOf : κ → Str) (built : Dict (Key κ) (Value κ ν)) : Prop where
  keys : ∀ member ∈ built.items, ∃ s, member.1 = .str s ∧ '\x00' ∉ s
  values : ∀ member ∈ built.items, member.2.Everywhere (Storable strOf)

omit [DecidableEq κ] in
theorem Built.empty : Built (ν := ν) strOf .empty := by
  constructor
  · exact fun _ h => absurd h List.not_mem_nil
  · exact fun _ h => absurd h List.not_mem_nil

omit [DecidableEq κ] in
theorem Built.everywhere {built : Dict (Key κ) (Value κ ν)} (h : Built strOf built) :
    (Value.mapping built.items).Everywhere (Storable strOf) := by
  rw [Value.everywhere_mapping]
  refine ⟨⟨?_, ?_, trivial, built.nodup⟩, h.values⟩
  · intro member hm
    obtain ⟨s, hs, hnul⟩ := h.keys member hm
    rwa [hs]
  · intro member hm
    obtain ⟨s, hs, -⟩ := h.keys member hm
    exact ⟨s, hs⟩

/-- One round of the loop. -/
theorem Built.set {built : Dict (Key κ) (Value κ ν)} (h : Built strOf built) {s : Str}
    (hs : '\x00' ∉ s) {v : Value κ ν} (hv : v.Everywhere (Storable strOf)) :
    Built strOf (built.set (.str s) v) := by
  have hmem : ∀ member ∈ (built.set (.str s) v).items,
      member = (.str s, v) ∨ member ∈ built.items := by
    rintro ⟨k, w⟩ hm
    rw [Dict.mem_items_iff, Dict.get?_set] at hm
    by_cases hk : k = .str s
    · rw [if_pos hk, Option.some.injEq] at hm
      exact .inl (by rw [hk, hm])
    · rw [if_neg hk] at hm
      exact .inr (Dict.mem_items_iff.mpr hm)
  constructor
  · intro member hm
    rcases hmem member hm with rfl | hm
    · exact ⟨s, rfl, hs⟩
    · exact h.keys member hm
  · intro member hm
    rcases hmem member hm with rfl | hm
    · exact hv
    · exact h.values member hm

mutual

/-- **The result holds nothing that the database rejects**, at any depth. -/
theorem storable_sanitize : (obj : Value κ ν) →
    (sanitizeForStorage strOf obj).Everywhere (Storable strOf)
  | .none | .bool _ | .number _ =>
      (Value.everywhere_scalar rfl).mpr ⟨trivial, trivial, trivial, trivial⟩
  | .str s => storable_str (nul_not_mem_stripNul s)
  | .bytes data => by
      rw [sanitizeForStorage]
      cases decodeUtf8 data with
      | some s => exact storable_str (nul_not_mem_stripNul s)
      | none => exact storable_str (nul_not_mem_b64encode data)
  | .list items => Value.everywhere_list.mpr
      ⟨⟨trivial, trivial, trivial, trivial⟩, storable_sanitizeItems items⟩
  | .tuple items => Value.everywhere_tuple.mpr
      ⟨⟨trivial, trivial, trivial, trivial⟩, storable_sanitizeItems items⟩
  | .mapping members => (built_sanitizeMembers members Built.empty).everywhere

theorem storable_sanitizeItems : (items : List (Value κ ν)) →
    ∀ item ∈ sanitizeItems strOf items, item.Everywhere (Storable strOf)
  | [] => fun _ h => nomatch h
  | item :: items => List.forall_mem_cons.mpr
      ⟨storable_sanitize item, storable_sanitizeItems items⟩

theorem built_sanitizeMembers {built : Dict (Key κ) (Value κ ν)} :
    (members : List (Key κ × Value κ ν)) → Built strOf built →
      Built strOf (sanitizeMembers strOf built members)
  | [], h => h
  | (_, v) :: members, h =>
      built_sanitizeMembers members (h.set (nul_not_mem_stripNul _) (storable_sanitize v))

end

/-- The bytes of a text are stored as the text. -/
theorem sanitize_encodeUtf8 (s : Str) :
    sanitizeForStorage strOf (.bytes (encodeUtf8 s) : Value κ ν) = .str (stripNul s) := by
  rw [sanitizeForStorage, decodeUtf8_encodeUtf8]

/-! ## The second pass -/

mutual

/-- What the database takes stays as it is. -/
theorem sanitize_eq_self : (obj : Value κ ν) → obj.Everywhere (Storable strOf) →
    sanitizeForStorage strOf obj = obj
  | .none, _ | .bool _, _ | .number _, _ => rfl
  | .str s, h => congrArg Value.str
      (stripNul_eq_iff.mpr ((Value.everywhere_scalar rfl).mp h).nulFree)
  | .bytes _, h => ((Value.everywhere_scalar rfl).mp h).notBytes.elim
  | .list items, h => congrArg Value.list
      (sanitizeItems_eq_self items (Value.everywhere_list.mp h).2)
  | .tuple items, h => congrArg Value.tuple
      (sanitizeItems_eq_self items (Value.everywhere_tuple.mp h).2)
  | .mapping members, h => by
      obtain ⟨hs, hvalues⟩ := Value.everywhere_mapping.mp h
      have hitems : (sanitizeMembers strOf .empty members).items = [] ++ members :=
        items_sanitizeMembers members hvalues hs.keysText hs.nulFree hs.keysDistinct
      rw [sanitizeForStorage, hitems, List.nil_append]

theorem sanitizeItems_eq_self : (items : List (Value κ ν)) →
    (∀ item ∈ items, item.Everywhere (Storable strOf)) → sanitizeItems strOf items = items
  | [], _ => rfl
  | item :: items, h => by
      rw [List.forall_mem_cons] at h
      rw [sanitizeItems, sanitize_eq_self item h.1, sanitizeItems_eq_self items h.2]

theorem items_sanitizeMembers {built : Dict (Key κ) (Value κ ν)} :
    (members : List (Key κ × Value κ ν)) →
      (∀ member ∈ members, member.2.Everywhere (Storable strOf)) →
      (∀ member ∈ members, ∃ s, member.1 = .str s) →
      (∀ member ∈ members, '\x00' ∉ member.1.text strOf) →
      ((built.items ++ members).map Prod.fst).Nodup →
      (sanitizeMembers strOf built members).items = built.items ++ members
  | [], _, _, _, _ => by rw [sanitizeMembers, List.append_nil]
  | (k, v) :: members, hv, htext, hnul, hnodup => by
      rw [List.forall_mem_cons] at hv htext hnul
      obtain ⟨⟨s, hs⟩, htext⟩ := htext
      have hk : Key.str (stripNul (k.text strOf)) = k := by
        rw [stripNul_eq_iff.mpr hnul.1, show k = .str s from hs]
        rfl
      have hnew : k ∉ built.keys := by
        rw [List.map_append, List.map_cons] at hnodup
        exact fun hm => List.disjoint_of_nodup_append hnodup hm List.mem_cons_self
      have hset : (built.set k v).items = built.items ++ [(k, v)] :=
        Dict.items_set_of_not_mem v hnew
      have happend : built.items ++ (k, v) :: members = (built.set k v).items ++ members := by
        rw [hset, List.append_assoc]
        rfl
      rw [sanitizeMembers, hk, sanitize_eq_self v hv.1, happend]
      exact items_sanitizeMembers members hv.2 htext hnul.2 (happend ▸ hnodup)

end

end

/-! ## Objects -/

namespace Obj

variable [DecidableEq κ] (strOf : κ → Str)

/-- `sanitize_for_storage(obj)` -/
def sanitize (obj : Obj κ ν) : Obj κ ν where
  value := sanitizeForStorage strOf obj.value
  keysDistinct := (storable_sanitize obj.value).imp fun _ h => h.keysDistinct

/-- **What is stored holds no `NUL`** in a text or a key, at any depth; a second pass changes
    nothing; and a value without bytes and `NUL`s whose keys are texts is stored as it is. -/
theorem sanitize_correct (obj : Obj κ ν) :
    (obj.sanitize strOf).value.Everywhere (Value.NulFree strOf) ∧
      (obj.sanitize strOf).sanitize strOf = obj.sanitize strOf ∧
      (obj.value.Everywhere Value.NotBytes → obj.value.Everywhere (Value.NulFree strOf) →
        obj.value.Everywhere Value.KeysText → obj.sanitize strOf = obj) := by
  have hkept : ∀ o : Obj κ ν, o.value.Everywhere (Storable strOf) → o.sanitize strOf = o := by
    intro o h
    exact Obj.ext (sanitize_eq_self o.value h)
  have hstorable : (obj.sanitize strOf).value.Everywhere (Storable strOf) :=
    storable_sanitize obj.value
  refine ⟨hstorable.imp fun _ h => h.nulFree, hkept _ hstorable, ?_⟩
  intro hbytes hnul htext
  exact hkept obj fun part hm =>
    ⟨hnul part hm, htext part hm, hbytes part hm, obj.keysDistinct part hm⟩

end Obj

end PgErdCloud.Storage
