import Reckon.Window.Basic

/-!
# Starting the program

Started from its sources, the program first looks whether all its parts are in
place; as a bundle it has them with it. Then the settings are loaded, and listed
if diagnostics are on, and the window is shown. The exit code is what the event
loop comes back with.
-/

namespace Reckon

/-- A part of the program: a file, perhaps in a folder. -/
structure Part where
  folder : Option String
  name : String
deriving DecidableEq, Repr

namespace Part

/-- The path of a part from the root of the program. -/
def path (p : Part) : String :=
  match p.folder with
  | some folder => folder ++ "/" ++ p.name
  | none => p.name

/-- The parts that the program needs, in the order in which they are looked for. -/
def required : List Part :=
  (["UI.py", "MathEngine.py", "RenderEngine.py", "formula_state.py", "config_manager.py",
      "error.py"].map fun name => ⟨some "FormulaCalc", name⟩) ++
    ["config.json", "ui_strings.json"].map fun name => ⟨none, name⟩

end Part

/-- How the program or a part of it comes to an end. -/
inductive Ending where
  | returned
  | exited (code : Int)
  | broken (cause : StoreFault)
deriving DecidableEq, Repr

/-- What there is to see of a start. -/
structure Launch where
  log : String
  /-- The titles of the windows that are shown. -/
  windows : List String
  ending : Ending
deriving DecidableEq, Repr

namespace Launch

/-- One after the other, unless the first has not returned. -/
def andThen (first : Launch) (second : Launch) : Launch :=
  match first.ending with
  | .returned => ⟨first.log ++ second.log, first.windows ++ second.windows, second.ending⟩
  | _ => first

/-- Something is printed. -/
def print (text : String) : Launch := ⟨text, [], .returned⟩

/-- Looks for the parts of the program; without all of them it goes no further
(`check_files_exist`). -/
def checkParts (present : List String) : Launch :=
  let missing := Part.required.filter fun p => !present.contains p.path
  if missing.isEmpty then ⟨"", [], .returned⟩
  else
    ⟨"Error: The following files are missing or in the wrong location:\n" ++
        String.join (missing.map fun p => "- " ++ p.name ++ "\n"), [], .exited 1⟩

/-- Shows the window and waits for the event loop to come back. -/
def showWindow (settingsFile : Place) (loopCode : Int) : Launch :=
  match Window.create settingsFile with
  | .error cause => ⟨"", [], .broken cause⟩
  | .ok _ => ⟨"", [Window.title], .exited loopCode⟩

/-- Loads the settings, lists them if diagnostics are on, and shows the window (`main`). -/
def program (settingsFile : Place) (loopCode : Int) : Launch :=
  match settingsFile.loadAll with
  | .error cause => ⟨"", [], .broken cause⟩
  | .ok settings =>
    let listing :=
      if settings.isOn "debug" then "Config loaded: " ++ String.ofList settings.written ++ "\n"
      else ""
    (print listing).andThen (showWindow settingsFile loopCode)

/-- The whole start, from the sources or from a bundle. -/
def script (bundled : Bool) (present : List String) (settingsFile : Place) (loopCode : Int) :
    Launch :=
  if bundled then
    (print "Production mode (.exe) is starting...\n").andThen (program settingsFile loopCode)
  else
    ((print "Developer Mode: Checking file paths...\n").andThen (checkParts present)).andThen
      (program settingsFile loopCode)

end Launch
end Reckon
