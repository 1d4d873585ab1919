import Reckon.Json.Reader
import Reckon.Json.Writer
import Reckon.Settings.Basic

/-!
# Where settings are kept

Settings are kept in one file, and the descriptions of settings in another. A
file that is missing, or whose text cannot be read, counts as holding nothing.
Saving replaces the text of the file; where there can be no file, nothing is
saved.
-/

namespace Reckon

/-- What stands at the path of a file. -/
inductive Place where
  /-- Nothing, but a file can be made. -/
  | missing
  | directory
  /-- Nothing, and the directory around it is missing too. -/
  | orphan
  | file (text : List Char)
deriving DecidableEq, Repr

/-- Why settings or descriptions cannot be had. -/
inductive StoreFault where
  /-- A directory stands in place of the file. -/
  | directory
  /-- A whole number in the file has too many digits. -/
  | integerTooLong
  /-- The file holds a value that is no settings. -/
  | merge (cause : MergeFault)
  /-- The file holds a value that has no members. -/
  | noMembers
deriving DecidableEq, Repr

namespace Place

/-- The text of a file, if there is one. -/
def text? : Place → Option (List Char)
  | file text => some text
  | _ => none

/-- The value that a file holds, if it can be read. -/
def read : Place → Except StoreFault (Option Json.Value)
  | missing | orphan => .ok none
  | directory => .error .directory
  | file text =>
    match Json.read text with
    | .ok v => .ok (some v)
    | .error .corrupt => .ok none
    | .error .integerTooLong => .error .integerTooLong

/-- The place after a value has been saved there, and whether that has been done in full. -/
def save (place : Place) (v : Json.Value) : Place × Bool :=
  match place with
  | missing | file _ =>
    let (text, complete) := Json.write v
    (file text, complete)
  | directory => (directory, false)
  | orphan => (orphan, false)

/-- All settings: the defaults, with what the file holds merged into them. -/
def loadAll (place : Place) : Except StoreFault Settings :=
  match place.read with
  | .error fault => .error fault
  | .ok none => .ok Settings.default
  | .ok (some v) => (Settings.default.merge v).mapError .merge

/-- One setting, or all of them under the name for that; a name that is not set has the value
zero (`load_setting_value`). -/
def load (place : Place) (key : String) : Except StoreFault (Settings ⊕ Json.Value) :=
  place.loadAll.map fun s =>
    if key = "all" then .inl s else .inr ((s.get? (.text key)).getD (.integer 0))

/-- All descriptions; an empty object if the file cannot be read. -/
def descriptions (place : Place) : Except StoreFault Json.Value :=
  place.read.map (·.getD (.object []))

/-- One description, or all of them under the name for that; a name without a description
describes itself (`load_setting_description`). -/
def describe (place : Place) (key : String) : Except StoreFault Json.Value :=
  match place.read with
  | .error fault => .error fault
  | .ok none => .ok (.object [])
  | .ok (some v) =>
    if key = "all" then .ok v
    else match v with
      | .object members => .ok ((members.lookup key).getD (.string key))
      | _ => .error .noMembers

/-- Saves settings; gives back what has been saved, and nothing if it has not been
(`save_setting`). -/
def saveSettings (place : Place) (s : Settings) : Place × Settings :=
  let (after, complete) := place.save s.toValue
  (after, if complete then s else [])

end Place
end Reckon
