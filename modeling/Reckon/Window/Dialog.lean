import Reckon.Entry
import Reckon.Settings.Store
import Reckon.Window.Layout

/-!
# The settings dialog

The dialog (`SettingsDialog`) shows a checkbox for each setting that is a truth
value, and an input for each that is a whole number; an input that is left blank
keeps the value. When the user accepts, the settings are taken over in their order
up to the first input that is refused. If none is, they are saved and the dialog
closes.
-/

namespace Reckon

/-- What the world outside a window gets to see of an event. -/
structure Effects where
  /-- What is printed. -/
  log : String
  /-- What is put on the clipboard. -/
  copied : List (List Char)
  /-- Titles and texts of error boxes. -/
  boxes : List (String × String)
deriving DecidableEq, Repr

namespace Effects

/-- Nothing happens. -/
def none : Effects := ⟨"", [], []⟩

/-- One after the other. -/
def append (a b : Effects) : Effects :=
  ⟨a.log ++ b.log, a.copied ++ b.copied, a.boxes ++ b.boxes⟩

instance : Append Effects := ⟨append⟩

/-- Something is printed. -/
def print (text : String) : Effects := ⟨text, [], []⟩

/-- Something is put on the clipboard. -/
def copy (text : List Char) : Effects := ⟨"", [text], []⟩

/-- An error box is shown. -/
def box (title text : String) : Effects := ⟨"", [], [(title, text)]⟩

end Effects

/-- Why the dialog cannot be opened. -/
inductive DialogFault where
  | store (cause : StoreFault)
  /-- The description of a whole number is no text. -/
  | descriptionNotText
deriving DecidableEq, Repr

/-- What the dialog shows for a setting. -/
inductive Control where
  | checkbox (caption : Json.Value) (checked : Bool)
  | input (label text placeholder : List Char)

/-- The settings dialog. -/
structure Dialog where
  /-- The settings as they were loaded, and then as far as they have been taken over. -/
  settings : Settings
  /-- The controls, in the order of the settings. -/
  controls : List (SettingName × Control)

namespace Dialog

/-- The title of the dialog. -/
def title : String := "Calculator Settings"

/-- The least width and height of the dialog. -/
def minimumSize : Nat × Nat := (300, 200)

/-! ## Opening -/

/-- The description of a setting; a name without one describes itself. -/
def description (descriptions : List (String × Json.Value)) (name : SettingName) : Json.Value :=
  match name with
  | .text s => (descriptions.lookup s).getD (.string s)
  | name => name.toValue

/-- The control of a setting, if it has one. -/
def controlFor (descriptions : List (String × Json.Value)) (name : SettingName) :
    Json.Value → Except DialogFault (Option Control)
  | .bool b => .ok (some (.checkbox (description descriptions name) b))
  | .integer n =>
    match description descriptions name with
    | .string s => .ok (some (.input (s ++ " (min. 2):").toList [] (Decimal.ofInt n)))
    | _ => .error .descriptionNotText
  | _ => .ok none

/-- The controls of settings. -/
def controlsFor (descriptions : List (String × Json.Value)) :
    Settings → Except DialogFault (List (SettingName × Control))
  | [] => .ok []
  | (name, v) :: rest => do
    let control ← controlFor descriptions name v
    let others ← controlsFor descriptions rest
    match control with
    | some c => return (name, c) :: others
    | none => return others

/-- The dialog as it opens. -/
def opened (settingsFile descriptionsFile : Place) : Except DialogFault Dialog := do
  let settings ← settingsFile.loadAll.mapError .store
  let descriptions ← descriptionsFile.descriptions.mapError .store
  match descriptions with
  | .object members => return ⟨settings, ← controlsFor members settings⟩
  | _ => .error (.store .noMembers)

/-! ## What the user does -/

/-- What the user can do in the dialog. -/
inductive Action where
  | check (name : String) (checked : Bool)
  | typeText (name : String) (text : List Char)
  | accept
  | cancel
deriving DecidableEq, Repr

/-- The dialog with one control changed. -/
def change (d : Dialog) (name : String) (f : Control → Control) : Dialog :=
  { d with controls := d.controls.map fun (n, c) => (n, if n = .text name then f c else c) }

/-- A checkbox set; other controls stay. -/
def setChecked (checked : Bool) : Control → Control
  | .checkbox caption _ => .checkbox caption checked
  | c => c

/-- An input filled; other controls stay. -/
def setText (text : List Char) : Control → Control
  | .input label _ placeholder => .input label text placeholder
  | c => c

/-- The least number of places that can be entered. -/
def leastPlaces : Int := 2

/-- What a control says about its setting: a new value, nothing, or a message why not. -/
def newValue (name : SettingName) : Control → Except String (Option Json.Value)
  | .checkbox _ checked => .ok (some (.bool checked))
  | .input _ text _ =>
    let entry := Text.trim text
    if entry = [] then .ok none
    else match Entry.integer entry with
      | .error fault => .error fault.message
      | .ok n =>
        if name = .text "decimal_places" ∧ n < leastPlaces then
          .error ("'" ++ String.ofList (Decimal.ofInt n) ++ "' is too small. Minimum is 2.")
        else .ok (some (.integer n))

/-- Takes over what the controls say, up to the first that is refused, whose name and message
are given: the loop of `save_settings`. -/
def takeOver (settings : Settings) :
    List (SettingName × Control) → Settings × Option (SettingName × String)
  | [] => (settings, none)
  | (name, c) :: rest =>
    match newValue name c with
    | .error message => (settings, some (name, message))
    | .ok none => takeOver settings rest
    | .ok (some v) => takeOver (settings.set name v) rest

/-- How a dialog has been closed. -/
inductive Closing where
  | accepted
  | rejected
deriving DecidableEq, Repr

/-- A dialog that is being used, and the settings file behind it. -/
structure Session where
  dialog : Dialog
  settingsFile : Place
  /-- How the dialog has been closed, if it has. -/
  closing : Option Closing
  /-- How often settings have been saved. -/
  saved : Nat
  effects : Effects

/-- The name of a setting in a message. -/
def nameText (name : SettingName) : String :=
  match name with
  | .text s => s
  | name => String.ofList name.toValue.written

/-- The user accepts: the settings are taken over and saved, or a box says why not
(`save_settings`). -/
def Session.accept (s : Session) : Session :=
  match takeOver s.dialog.settings s.dialog.controls with
  | (settings, some (name, message)) =>
    { s with
      dialog := { s.dialog with settings }
      effects := s.effects ++ Effects.print ("Invalid Input: " ++ message ++ "\n") ++
        Effects.box "Invalid Input:"
          ("Error in input for '" ++ nameText name ++ "':\n\n" ++ message ++
            "\n\nPlease correct your input.") }
  | (settings, none) =>
    let (settingsFile, result) := s.settingsFile.saveSettings settings
    let after := { s with dialog := { s.dialog with settings }, settingsFile }
    if result.isEmpty then
      { after with
        effects := s.effects ++ Effects.box "Error" ("Error 5001: " ++
          (Fault.description? "5001").getD "") }
    else { after with closing := some .accepted, saved := s.saved + 1 }

/-- The user does something; once the dialog is closed nothing happens any more. -/
def Session.act (s : Session) (action : Action) : Session :=
  if s.closing.isSome then s
  else match action with
    | .check name checked => { s with dialog := s.dialog.change name (setChecked checked) }
    | .typeText name text => { s with dialog := s.dialog.change name (setText text) }
    | .accept => s.accept
    | .cancel => { s with closing := some .rejected }

/-- The dialog while the user does one thing after another. -/
def use (d : Dialog) (settingsFile : Place) (actions : List Action) : Session :=
  actions.foldl Session.act ⟨d, settingsFile, none, 0, .none⟩

/-! ## What it looks like -/

/-- The part of the window that a control is. -/
def Control.item : Control → Item
  | .checkbox caption checked => .checkbox caption checked
  | .input label text placeholder =>
    .horizontal [.label label none false false, .input text placeholder]

/-- The parts of the dialog. -/
def layout (d : Dialog) : Item :=
  .vertical (d.controls.map (fun p => Control.item p.2) ++ [.buttons ["Ok", "Cancel"], .stretch])

/-- The style sheet of the dialog as it opens. -/
def style (d : Dialog) : String := Style.dialog (d.settings.isOn "darkmode")

end Dialog
end Reckon
