import Reckon.Window.Basic

/-!
# A session at the window

What the user does at the window, one event after another, and what there is to
see of it. The settings dialog is an event of its own: it opens, the user acts
in it, and when it has closed the window loads the settings again.
-/

namespace Reckon

/-- Keys that the window tells apart. -/
inductive KeyName where
  | shift
  | other
deriving DecidableEq, Repr

/-- Buttons of the mouse that the result label tells apart. -/
inductive MouseButton where
  | left
  | other
deriving DecidableEq, Repr

/-- What the user does. -/
inductive Event where
  | typeFormula (text : List Char)
  | typeField (name text : List Char)
  | press (key : KeyName)
  | release (key : KeyName)
  | click (button : MouseButton)
  | copy
  | reset
  | settings (actions : List Dialog.Action)
  /-- Looks at the window without doing anything. -/
  | look
deriving DecidableEq, Repr

/-- The window and the files that it works with. -/
structure Desk where
  window : Window
  settingsFile : Place
  descriptionsFile : Place

/-- What there is to see of a settings dialog: how it opened and how it was left. -/
structure DialogReport where
  opened : Dialog
  closing : Option Dialog.Closing
  saved : Nat

/-- What there is to see of an event. -/
structure Report where
  effects : Effects
  trouble : Option Trouble
  dialog : Option DialogReport

namespace Desk

/-- A new window over its files. -/
def start (settingsFile descriptionsFile : Place) : Except StoreFault Desk :=
  (Window.create settingsFile).map fun window => ⟨window, settingsFile, descriptionsFile⟩

/-- The desk after a reaction of the window. -/
def react (d : Desk) (r : Reaction) : Desk × Report :=
  ({ d with window := r.window }, ⟨r.effects, r.trouble, none⟩)

/-- The user opens the settings dialog and acts in it (`open_settings`). -/
def openSettings (d : Desk) (actions : List Dialog.Action) : Desk × Report :=
  match Dialog.opened d.settingsFile d.descriptionsFile with
  | .error cause => (d, ⟨.none, some (.dialog cause), none⟩)
  | .ok dialog =>
    let left := dialog.use d.settingsFile actions
    let d := { d with settingsFile := left.settingsFile }
    let report : DialogReport := ⟨dialog, left.closing, left.saved⟩
    match d.settingsFile.loadAll with
    | .error cause => (d, ⟨left.effects, some (.dialog (.store cause)), some report⟩)
    | .ok settings =>
      let r := d.window.reload settings
      ({ d with window := r.window }, ⟨left.effects ++ r.effects, r.trouble, some report⟩)

/-- The desk after an event, and what there is to see of it. -/
def step (d : Desk) : Event → Desk × Report
  | .typeFormula text => d.react (d.window.editFormula text)
  | .typeField name text => d.react (d.window.editField name text)
  | .press .shift => d.react (.quiet { d.window with shiftHeld := true })
  | .release .shift => d.react (.quiet { d.window with shiftHeld := false })
  | .press .other | .release .other | .click .other | .look => d.react (.quiet d.window)
  | .click .left => d.react d.window.clickResult
  | .copy => d.react d.window.copy
  | .reset => d.react (.quiet d.window.reset)
  | .settings actions => d.openSettings actions

/-- The desk after one event after another. -/
def run (d : Desk) (events : List Event) : Desk := events.foldl (fun d e => (d.step e).1) d

end Desk
end Reckon
