import Reckon.Launch
import Reckon.Window.Session

/-!
# The program at a terminal

The program is started in the folder that holds its parts, and the terminal
stands in for the screen: each line is typed into the formula input, and what
the result label shows is printed. The end of the input closes the window.
-/

namespace Reckon

/-- What stands at the path of a file; a file that cannot be read counts as missing. -/
def placeAt (path : String) : IO Place := do
  try
    return .file (← IO.FS.readFile path).toList
  catch _ =>
    return .missing

/-- The paths of the required parts that can be read. -/
def presentParts : IO (List String) :=
  (Part.required.map Part.path).filterM fun path => do
    return (← placeAt path).text?.isSome

/-- Types each line of the input into the formula input, until there are no more. -/
def typeLines (desk : Desk) : IO Unit := do
  let input ← IO.getStdin
  let mut desk := desk
  repeat
    let line ← input.getLine
    if line.isEmpty then break
    let (next, report) := desk.step (.typeFormula (line.toList.filter (· != '\n')))
    IO.print report.effects.log
    IO.println (String.ofList next.window.result.text)
    desk := next

/-- Starts the program and comes back with its exit code. -/
def start : IO UInt32 := do
  let settingsFile ← placeAt "config.json"
  let launch := Launch.script false (← presentParts) settingsFile 0
  IO.print launch.log
  match launch.ending with
  | .returned => return 0
  | .broken _ => return 1
  | .exited code =>
    unless launch.windows.isEmpty do
      if let .ok desk := Desk.start settingsFile (← placeAt "ui_strings.json") then
        typeLines desk
    return code.toNat.toUInt32

end Reckon

/-- The program. -/
def main : IO UInt32 := Reckon.start
