import Reckon.Binary64.Basic
import Reckon.Decimal.Shortest
import Reckon.Text.Quoted

/-!
# Settings values

The values that a settings file holds. Objects keep the order of their members,
whole numbers have any size, and other numbers are doubles. A program can also
hold a value that no settings text expresses (`unwritable`); reading never gives
one.
-/

namespace Reckon
namespace Json

/-- A value of a settings file. -/
inductive Value where
  | null
  | bool (b : Bool)
  | integer (n : Int)
  | float (x : Binary64)
  | string (s : String)
  | array (items : List Value)
  | object (members : List (String × Value))
  /-- A value without a text. -/
  | unwritable

namespace Value

instance : Inhabited Value := ⟨null⟩

/-- A setting is on if it is true, or the number one. -/
def isOn : Value → Bool
  | bool b => b
  | integer n => n == 1
  | float x => x == .one
  | _ => false

/-- A value counts as something unless it is false, zero, null or empty. -/
def isTruthy : Value → Bool
  | null => false
  | bool b => b
  | integer n => n != 0
  | float x => !x.isZero
  | string s => s != ""
  | array items => !items.isEmpty
  | object members => !members.isEmpty
  | unwritable => true

/-- The whole number of a setting; the truth values count as one and zero. -/
def toInt? : Value → Option Int
  | bool b => some (if b then 1 else 0)
  | integer n => some n
  | _ => none

/-! ## Listing -/

/-- The word for a truth value in listings. -/
def boolWord (b : Bool) : List Char := (if b then "True" else "False").toList

mutual

/-- The listing of a value. -/
def written : Value → List Char
  | null => "None".toList
  | bool b => boolWord b
  | integer n => Decimal.ofInt n
  | float x => x.written
  | string s => Text.quoted s.toList
  | array items => '[' :: (", ".toList.intercalate (writtenItems items) ++ [']'])
  | object members => '\x7b' :: (", ".toList.intercalate (writtenMembers members) ++ ['\x7d'])
  | unwritable => "...".toList

/-- The listings of items. -/
def writtenItems : List Value → List (List Char)
  | [] => []
  | v :: vs => written v :: writtenItems vs

/-- The listings of members. -/
def writtenMembers : List (String × Value) → List (List Char)
  | [] => []
  | (key, v) :: rest =>
    (Text.quoted key.toList ++ ": ".toList ++ written v) :: writtenMembers rest

end

end Value
end Json
end Reckon
