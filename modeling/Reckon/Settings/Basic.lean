import Reckon.Display
import Reckon.Json.Value

/-!
# Settings

Settings are names with values in an order. There are defaults for the names
that the program knows; what a file holds is merged into them. Besides an
object, a list of pairs is taken, where a pair is anything with two parts: a
list, a text of two characters, an object with two members.
-/

namespace Reckon

/-- The name of a setting. Lists of pairs can have names that are no texts. -/
inductive SettingName where
  | text (s : String)
  | integer (n : Int)
  | float (x : Binary64)
  | bool (b : Bool)
  | null
deriving DecidableEq

namespace SettingName

/-- The units of a name that is a finite number; the truth values are one and zero. -/
def units? : SettingName → Option Int
  | integer n => some (n * Binary64.unit)
  | bool b => some (if b then Binary64.unit else 0)
  | float (.finite s u _) => some (if s then -u else u)
  | _ => none

/-- Names of equal numbers are the same. A nan is the same name as a nan, though it equals none: what
is read from files is one object wherever it stands, and names are looked up as objects first. -/
def same (a b : SettingName) : Bool :=
  match a.units?, b.units? with
  | some m, some n => m == n
  | _, _ => a == b

/-- The name as a value. -/
def toValue : SettingName → Json.Value
  | text s => .string s
  | integer n => .integer n
  | float x => .float x
  | bool b => .bool b
  | null => .null

/-- The name as a member of an object. -/
def toMember : SettingName → String
  | text s => s
  | integer n => String.ofList (Decimal.ofInt n)
  | float .nan => "NaN"
  | float (.infinite s) => String.ofList (Decimal.sign s) ++ "Infinity"
  | float x => String.ofList x.written
  | bool b => if b then "true" else "false"
  | null => "null"

theorem same_text (s t : String) : same (text s) (text t) = decide (s = t) := by
  by_cases h : s = t <;> simp [same, units?, h]

end SettingName

/-- Names with their values, in an order. -/
abbrev Settings := List (SettingName × Json.Value)

/-- Why a value cannot be merged into settings. -/
inductive MergeFault where
  /-- It is no list of pairs. -/
  | notPairs
  /-- A pair has not two parts. -/
  | notTwo
  /-- The first part of a pair cannot be a name. -/
  | notName
deriving DecidableEq, Repr

namespace Settings

/-- The settings before anything has been read (`DEFAULT_SETTINGS`). -/
def default : Settings :=
  [ (.text "darkmode", .bool false),
    (.text "decimal_places", .integer 4),
    (.text "fractions", .bool false),
    (.text "copy_on_click", .bool true),
    (.text "debug", .bool false) ]

/-- The value of a setting. -/
def get? (s : Settings) (name : SettingName) : Option Json.Value :=
  (s.find? (·.1.same name)).map Prod.snd

/-- Gives a setting a value, in its place or at the end. -/
def set (s : Settings) (name : SettingName) (v : Json.Value) : Settings :=
  if s.any (·.1.same name) then s.map fun p => if p.1.same name then (p.1, v) else p
  else s ++ [(name, v)]

/-- Whether a setting is on. -/
def isOn (s : Settings) (name : String) : Bool := (s.get? (.text name)).any Json.Value.isOn

/-- The settings as an object. -/
def toValue (s : Settings) : Json.Value := .object (s.map fun (name, v) => (name.toMember, v))

/-- The listing of settings. -/
def written (s : Settings) : List Char :=
  let items := s.map fun (name, v) => name.toValue.written ++ ": ".toList ++ v.written
  '\x7b' :: (", ".toList.intercalate items ++ ['\x7d'])

/-! ## Merging -/

/-- The name that a value is. -/
def nameOf : Json.Value → Except MergeFault SettingName
  | .string s => .ok (.text s)
  | .integer n => .ok (.integer n)
  | .float x => .ok (.float x)
  | .bool b => .ok (.bool b)
  | .null => .ok .null
  | _ => .error .notName

/-- A text of one character. -/
def charText (c : Char) : String := String.singleton c

/-- The pair that a value is. -/
def pairOf : Json.Value → Except MergeFault (SettingName × Json.Value)
  | .array [k, v] => (nameOf k).map (·, v)
  | .array _ => .error .notTwo
  | .string s =>
    match s.toList with
    | [k, v] => .ok (.text (charText k), .string (charText v))
    | _ => .error .notTwo
  | .object [(k, _), (l, _)] => .ok (.text k, .string l)
  | .object _ => .error .notTwo
  | _ => .error .notPairs

/-- Sets one pair after the other. -/
def setPairs (s : Settings) (pairs : List (SettingName × Json.Value)) : Settings :=
  pairs.foldl (fun s p => s.set p.1 p.2) s

/-- The settings with what a value holds set in them. -/
def merge (s : Settings) : Json.Value → Except MergeFault Settings
  | .object members => .ok (s.setPairs (members.map fun (key, v) => (.text key, v)))
  | .array items => (items.mapM pairOf).map s.setPairs
  | .string text => if text = "" then .ok s else .error .notTwo
  | _ => .error .notPairs

/-! ## How values are shown -/

/-- The places that a value asks for. Below zero any number asks for none, also one that is not
whole. -/
def placesOf : Json.Value → Option Int
  | .float x => if x.isBelowZero then some (-1) else none
  | v => v.toInt?

/-- What the settings say about how values are shown. -/
def displayOptions (s : Settings) : DisplayOptions where
  places := (s.get? (.text "decimal_places")).bind placesOf
  fractions := (s.get? (.text "fractions")).any Json.Value.isTruthy

end Settings
end Reckon
