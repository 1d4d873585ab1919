import Reckon.Json.Value

/-!
# What a window is made of

Windows are described as trees of rows and columns. Style sheets are texts that
the screen understands.
-/

namespace Reckon

/-- A part of a window. -/
inductive Item where
  | stretch
  | label (text : List Char) (pointSize : Option Nat) (bold rich : Bool)
  | input (text placeholder : List Char)
  /-- The caption is whatever the descriptions hold. -/
  | checkbox (caption : Json.Value) (checked : Bool)
  | button (text : String)
  | buttons (names : List String)
  | widget (inner : Item)
  | vertical (items : List Item)
  | horizontal (items : List Item)
  | form (rows : List (Item × Item))

namespace Style

/-- The lines of a style sheet, each after a line break and the indentation of the sheet. -/
def sheet (lines : List String) : String :=
  String.join (lines.map fun line => "\n                        " ++ line)

/-- The style sheet of the window. -/
def window (dark : Bool) : String :=
  if dark then
    sheet [
      "QWidget \x7bbackground-color: #121212; color: white;\x7d",
      "QLineEdit \x7bbackground-color: #444444; color: white; border: 1px solid #666666;\x7d",
      "QPushButton \x7bbackground-color: #2e2e2e; color: white; font-weight: bold;\x7d"]
  else ""

/-- The style sheet of the settings dialog. -/
def dialog (dark : Bool) : String :=
  if dark then
    sheet [
      "QDialog \x7bbackground-color: #121212;\x7d",
      "QLabel \x7bcolor: white;\x7d",
      "QCheckBox \x7bcolor: white;\x7d",
      "QLineEdit \x7bbackground-color: #444444;color: white;border: 1px solid #666666;\x7d",
      "QDialogButtonBox QPushButton \x7bbackground-color: #666666;color: white;\x7d"]
  else ""

end Style

/-- The style of the result. -/
inductive ResultStyle where
  | error
  | dark
  | light
deriving DecidableEq, Repr

namespace ResultStyle

/-- The style of a result that is a fault or not, in dark mode or not (`update_result_style`). -/
def choose (isFault isDark : Bool) : ResultStyle :=
  if isFault then error else if isDark then dark else light

/-- The style sheet of the result. -/
def text : ResultStyle → String
  | error => "color: #d32f2f; font-weight: bold;"
  | dark => "color: white; font-weight: bold;"
  | light => "font-weight: bold;"

end ResultStyle
end Reckon
