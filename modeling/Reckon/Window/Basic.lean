import Reckon.Sheet
import Reckon.Window.Dialog

/-!
# The main window

The window (`FormulaCalculator`) has an input for the formula, a label with the
rendered formula, a field for each variable and a label with the result. Every edit
gives a new sheet, from which the labels are refreshed; the fields are rebuilt only
when the names of the variables change. A handler that breaks down leaves what it
has done so far.

What the user does to an input and the handler that the input then calls are two
definitions: the input takes the text by itself (`editFormula`, `editField`), and the
handler changes the sheet for it (`formulaChanged`, `variableChanged`).
-/

namespace Reckon

/-- A field for a variable: a row of the form, with its label and its input, and the name that the
handler of the input is made for. All rows are made at once, and their inputs entered by name in
`variable_fields`, which nothing looks into: one list is both. -/
structure Field where
  name : List Char
  label : List Char
  text : List Char
deriving DecidableEq, Repr

/-- The label with the result. -/
structure ResultLabel where
  text : List Char
  tooltip : String
  style : ResultStyle
deriving DecidableEq, Repr

/-- The main window. -/
structure Window where
  settings : Settings
  sheet : Sheet
  /-- The text in the formula input. -/
  input : List Char
  /-- The rendered formula. -/
  display : List Char
  fields : List Field
  /-- The last text that a result was shown with. -/
  resultText : List Char
  result : ResultLabel
  shiftHeld : Bool
  /-- Whether the window is styled for dark mode. -/
  darkSheet : Bool

/-- What can make a handler break down. -/
inductive Trouble where
  | calculation (cause : Breakdown)
  | display (cause : Unshowable)
  | dialog (cause : DialogFault)
deriving DecidableEq, Repr

/-- The window after an event, what has happened outside, and whether the handler broke down. -/
structure Reaction where
  window : Window
  effects : Effects
  trouble : Option Trouble

namespace Reaction

/-- Nothing happens outside. -/
def quiet (w : Window) : Reaction := ⟨w, .none, none⟩

/-- One reaction after another, unless the first one breaks down. -/
def andThen (r : Reaction) (f : Window → Reaction) : Reaction :=
  match r.trouble with
  | some _ => r
  | none =>
    let next := f r.window
    ⟨next.window, r.effects ++ next.effects, next.trouble⟩

end Reaction

namespace Window

/-- The title of the window. -/
def title : String := "Formula Calculator"

/-- The width and height of the window. -/
def size : Nat × Nat := (420, 360)

/-! ## Styles -/

/-- The window with the style for a result that is a fault or not. -/
def styled (w : Window) (isFault : Bool) : Window :=
  { w with result := { w.result with style := .choose isFault (w.settings.isOn "darkmode") } }

/-- The window in the theme of its settings (`update_darkmode`). -/
def themed (w : Window) : Window :=
  let dark := w.settings.isOn "darkmode"
  { w with darkSheet := dark }.styled (w.resultText = "Error".toList)

/-! ## Making and refreshing -/

/-- A new window with the given settings. -/
def ofSettings (settings : Settings) : Window :=
  themed
    { settings
      sheet := .empty
      input := []
      display := []
      fields := []
      resultText := []
      result := ⟨[], "", .light⟩
      shiftHeld := false
      darkSheet := false }

/-- A new window, if its settings can be loaded. -/
def create (settingsFile : Place) : Except StoreFault Window :=
  settingsFile.loadAll.map ofSettings

/-- Whether the engine prints what it does. -/
def isDebugging (w : Window) : Bool := w.settings.isOn "debug"

/-- The outcome of the formula, with what the engine prints on the way. -/
def evaluate (w : Window) : Except Breakdown Outcome × Effects :=
  (w.sheet.outcome, .print (if w.isDebugging then w.sheet.diagnostics else ""))

/-- A field for each variable, filled with its value in six digits (`rebuild_variable_fields`). -/
def fieldsOf (s : Sheet) : List Field :=
  s.values.map fun (name, x) => ⟨name, Markup.html.name name ++ [':'], x.writtenShort⟩

/-- What the tooltip tells of a fault. -/
def details (cause : Fault) : String :=
  "Error " ++ cause.code ++ ": " ++ (Fault.description? cause.code).getD "Unknown error" ++
    "\nDetails: " ++ cause.message

/-- The equation of a fault in a message. -/
def equationText (equation : Option (List Char)) : String :=
  match equation with
  | some cs => String.ofList cs
  | none => "None"

/-- The window with an outcome shown, and what is printed about it. -/
def showing (w : Window) (text : List Char) : Outcome → Window × Effects
  | .fault cause equation =>
    let shown := { w with resultText := text, result := ⟨text, details cause, w.result.style⟩ }
    let report := details cause ++ "\nEquation: " ++ equationText equation ++ "\n"
    (shown.styled true, .print (if w.isDebugging then report else ""))
  | _ =>
    let shown := { w with resultText := text, result := ⟨text, "", w.result.style⟩ }
    (shown.styled false, .none)

/-- Brings the labels up to date with the sheet (`update_result`). -/
def refresh (w : Window) : Reaction :=
  let w := { w with display := w.sheet.rendered .html }
  let (outcome, printed) := w.evaluate
  match outcome with
  | .error cause => ⟨w, printed, some (.calculation cause)⟩
  | .ok outcome =>
    match Display.outcome w.settings.displayOptions outcome with
    | .error cause => ⟨w, printed, some (.display cause)⟩
    | .ok text =>
      let (shown, report) := w.showing text outcome
      ⟨shown, printed ++ report, none⟩

/-! ## Edits -/

/-- The formula input tells of a new text (`handle_formula_change`). -/
def formulaChanged (w : Window) (text : List Char) : Reaction :=
  let sheet := w.sheet.withFormula text
  let fields := if sheet.namesDiffer w.sheet then fieldsOf sheet else w.fields
  refresh { w with sheet, fields }

/-- The user types in the formula input. The input takes the text by itself, and tells of it only
if it is another one. -/
def editFormula (w : Window) (text : List Char) : Reaction :=
  if text = w.input then .quiet w else formulaChanged { w with input := text } text

/-- The input of a field tells of a new text (`handle_variable_change`). -/
def variableChanged (w : Window) (name text : List Char) : Reaction :=
  refresh { w with sheet := w.sheet.withVariable name text }

/-- The user types in a field. Its input takes the text by itself too. -/
def editField (w : Window) (name text : List Char) : Reaction :=
  match w.fields.find? (·.name == name) with
  | none => .quiet w
  | some field =>
    if text = field.text then .quiet w
    else
      let fields := w.fields.map fun f => if f.name = name then { f with text } else f
      variableChanged { w with fields } name text

/-- The user starts anew. The style of the result stays (`handle_reset`). -/
def reset (w : Window) : Window :=
  { w with
    sheet := .empty
    input := []
    fields := []
    display := []
    resultText := []
    result := ⟨[], "", w.result.style⟩ }

/-! ## The clipboard -/

/-- What comes after the first space; all of the text if there is none. -/
def afterSpace (text : List Char) : List Char :=
  match text.dropWhile (· != ' ') with
  | [] => text
  | _ :: rest => rest

/-- The user copies: the formula while shift is held, and otherwise the result if it is a value
(`handle_copy`). -/
def copy (w : Window) : Reaction :=
  if w.shiftHeld then ⟨w, .copy (w.sheet.rendered .unicode), none⟩
  else
    let (outcome, printed) := w.evaluate
    match outcome with
    | .error cause => ⟨w, printed, some (.calculation cause)⟩
    | .ok (.value _) => ⟨w, printed ++ .copy (afterSpace w.resultText), none⟩
    | .ok _ => ⟨w, printed, none⟩

/-- The user clicks the result (`handle_result_clicked`). -/
def clickResult (w : Window) : Reaction :=
  if w.settings.isOn "copy_on_click" then w.copy else .quiet w

/-! ## Settings -/

/-- The window after the settings dialog has been closed and the settings have been loaded again:
the end of `open_settings`. -/
def reload (w : Window) (settings : Settings) : Reaction :=
  let w := themed { w with settings }
  if w.sheet.formula = [] then .quiet w else w.refresh

/-! ## What it looks like -/

/-- The parts of the window. -/
def layout (w : Window) : Item :=
  .vertical [
    .label title.toList (some 18) true false,
    .input w.input "Enter formula".toList,
    .label w.display (some 16) false true,
    .widget (.form (w.fields.map fun f =>
      (.label f.label none false true, .input f.text []))),
    .label w.result.text (some 16) false false,
    .stretch,
    .horizontal [.button "⚙️", .button "📋", .button "Reset"]]

/-- The style sheet of the window. -/
def styleSheet (w : Window) : String := Style.window w.darkSheet

end Window
end Reckon
