/-
  What `json.loads` returns, and the operations of Python that a program applies to such values
  without knowing their types.
-/
import PgErdCloud.Lib.PyInt

namespace PgErdCloud.Lib

open PyStr

/-- A float is a rational number or one of the values that stand for none. -/
inductive PyFloat
  | finite (value : ℚ)
  | infinity (negative : Bool)
  | nan

/-- The values that JSON documents and request bodies hold. -/
inductive PyValue
  | none
  | bool (b : Bool)
  | int (n : Int)
  | float (x : PyFloat)
  | str (s : Str)
  | list (items : List PyValue)
  | dict (members : List (Str × PyValue))

/-- The exceptions that a conversion raises. -/
inductive PyError
  | valueError
  | typeError
  | overflowError
  deriving DecidableEq

namespace PyValue

/-- `bool(value)` -/
def truthy : PyValue → Bool
  | .none => false
  | .bool b => b
  | .int n => n ≠ 0
  | .float (.finite value) => value ≠ 0
  | .float _ => true
  | .str s => s ≠ []
  | .list items => !items.isEmpty
  | .dict members => !members.isEmpty

/-- The value where `isinstance(value, str)`. -/
def asStr? : PyValue → Option Str
  | .str s => some s
  | _ => Option.none

/-- The value where `isinstance(value, int)`, which a `bool` is. -/
def asInt? : PyValue → Option Int
  | .bool b => some (if b then 1 else 0)
  | .int n => some n
  | _ => Option.none

/-- The value where `isinstance(value, list)`. -/
def asList? : PyValue → Option (List PyValue)
  | .list items => some items
  | _ => Option.none

/-- The value where `isinstance(value, dict)`. -/
def asDict? : PyValue → Option (List (Str × PyValue))
  | .dict members => some members
  | _ => Option.none

/-- `value is True` -/
def isTrue : PyValue → Bool
  | .bool b => b
  | _ => false

/-- `members.get(key)`; of two members of one name the last counts. -/
def get (members : List (Str × PyValue)) (key : String) : PyValue :=
  ((members.reverse.find? fun member => member.1 = key.toList).map Prod.snd).getD .none

/-- `int(value)` -/
def toInt (decimal : Char → Option Nat) : PyValue → Except PyError Int
  | .none => .error .typeError
  | .bool b => .ok (if b then 1 else 0)
  | .int n => .ok n
  | .float (.finite value) => .ok (value.num.tdiv value.den)
  | .float (.infinity _) => .error .overflowError
  | .float .nan => .error .valueError
  | .str s =>
      match PyInt.parseInt decimal s with
      | some n => .ok n
      | Option.none => .error .valueError
  | .list _ => .error .typeError
  | .dict _ => .error .typeError

end PyValue

end PgErdCloud.Lib
