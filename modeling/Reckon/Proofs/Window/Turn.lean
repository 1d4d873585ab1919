import Reckon.Window.Session

/-!
# What an event does to a window

As long as no handler breaks down, an event does one of a few things to the desk
(`Turn`): it leaves all as it is, tells that a key is held, clears the window, or
changes the formula, a value or the settings and brings the labels up to date
(`Refreshed`). What all of these preserve holds after every calm session.

Results:

* `refreshed_of_calm`: what a refresh does that does not break down.
* `turn_of_calm`: what an event does whose handler does not break down.
* `run_invariant`: what every turn preserves holds after every calm session.
-/

namespace Reckon

namespace Window

/-- What the tooltip tells of an outcome. -/
def tooltipFor : Outcome → String
  | .fault cause _ => details cause
  | .value _ | .blank => ""

theorem showing_fst (w : Window) (text : List Char) (o : Outcome) :
    (w.showing text o).1 =
      { w with
        resultText := text
        result := ⟨text, tooltipFor o, .choose o.isFault (w.settings.isOn "darkmode")⟩ } := by
  cases o <;> rfl

/-- What a refresh makes of a window: the labels show the formula and its outcome. -/
inductive Refreshed (w : Window) : Window → Prop
  | intro {o : Outcome} {text : List Char} (outcome : w.sheet.outcome = .ok o)
      (display : Display.outcome w.settings.displayOptions o = .ok text) :
      Refreshed w
        { w with
          display := w.sheet.rendered .html
          resultText := text
          result := ⟨text, tooltipFor o, .choose o.isFault (w.settings.isOn "darkmode")⟩ }

theorem Refreshed.settings_eq {w w' : Window} (h : Refreshed w w') : w'.settings = w.settings := by
  cases h
  rfl

/-- The window with another formula, before its labels are refreshed. -/
def withFormula (w : Window) (text : List Char) : Window :=
  let sheet := w.sheet.withFormula text
  { w with
    input := text
    sheet
    fields := if sheet.namesDiffer w.sheet then fieldsOf sheet else w.fields }

/-- The window with another text in a field, before its labels are refreshed. -/
def withFieldText (w : Window) (name text : List Char) : Window :=
  { w with
    fields := w.fields.map fun f => if f.name = name then { f with text } else f
    sheet := w.sheet.withVariable name text }

/-- A refresh that does not break down. -/
theorem refreshed_of_calm {w : Window} (h : w.refresh.trouble = none) :
    Refreshed w w.refresh.window := by
  unfold refresh at h ⊢
  dsimp only [evaluate] at h ⊢
  split at h
  · cases h
  · rename_i o houtcome
    split at h
    · cases h
    · rename_i text htext
      dsimp only
      rw [showing_fst]
      exact .intro houtcome htext

theorem editFormula_of_eq {w : Window} {text : List Char} (h : text = w.input) :
    w.editFormula text = .quiet w :=
  if_pos h

theorem editFormula_of_ne {w : Window} {text : List Char} (h : text ≠ w.input) :
    w.editFormula text = (w.withFormula text).refresh :=
  if_neg h

/-- Typing a formula does nothing, or the window is refreshed with it. -/
theorem editFormula_cases (w : Window) (text : List Char) :
    w.editFormula text = .quiet w ∨ w.editFormula text = (w.withFormula text).refresh := by
  by_cases h : text = w.input
  · exact .inl (editFormula_of_eq h)
  · exact .inr (editFormula_of_ne h)

/-- Typing in a field does nothing, or it is a field for a variable and the text is another one. -/
theorem editField_cases (w : Window) (name text : List Char) :
    w.editField name text = .quiet w ∨
      name ∈ w.fields.map Field.name ∧
        w.editField name text = (w.withFieldText name text).refresh := by
  unfold editField
  split
  · exact .inl rfl
  · rename_i field hfind
    split
    · exact .inl rfl
    · have hname : field.name = name := by simpa using List.find?_some hfind
      have hmem := List.mem_map_of_mem (f := Field.name) (List.mem_of_find?_eq_some hfind)
      rw [hname] at hmem
      exact .inr ⟨hmem, rfl⟩

/-- Copying leaves the window. -/
@[simp] theorem window_copy (w : Window) : w.copy.window = w := by
  unfold copy
  split
  · rfl
  · dsimp only [evaluate]
    split <;> rfl

@[simp] theorem window_clickResult (w : Window) : w.clickResult.window = w := by
  unfold clickResult
  split
  · exact window_copy w
  · rfl

end Window

namespace Desk

open Window (Refreshed)

/-- What an event makes of a desk if its handler does not break down. -/
inductive Turn (d : Desk) : Desk → Prop
  | same : Turn d d
  | shift (held : Bool) : Turn d { d with window := { d.window with shiftHeld := held } }
  | reset : Turn d { d with window := d.window.reset }
  | formula {text : List Char} {w : Window} (refreshed : Refreshed (d.window.withFormula text) w) :
      Turn d { d with window := w }
  | field {name text : List Char} {w : Window} (mem : name ∈ d.window.fields.map Field.name)
      (refreshed : Refreshed (d.window.withFieldText name text) w) : Turn d { d with window := w }
  /-- The settings are loaded again while there is a formula. -/
  | settings {file : Place} {s : Settings} {w : Window} (loaded : file.loadAll = .ok s)
      (refreshed : Refreshed { d.window with settings := s }.themed w) :
      Turn d { d with window := w, settingsFile := file }
  /-- The settings are loaded again while there is none. -/
  | theme {file : Place} {s : Settings} (loaded : file.loadAll = .ok s)
      (blank : d.window.sheet.formula = []) :
      Turn d { d with window := { d.window with settings := s }.themed, settingsFile := file }

/-! ## One event -/

theorem turn_of_editFormula {d : Desk} {text : List Char}
    (h : (d.window.editFormula text).trouble = none) :
    Turn d { d with window := (d.window.editFormula text).window } := by
  rcases d.window.editFormula_cases text with hquiet | hedit
  · rw [hquiet]
    exact .same
  · rw [hedit] at h ⊢
    exact .formula (Window.refreshed_of_calm h)

theorem turn_of_editField {d : Desk} {name text : List Char}
    (h : (d.window.editField name text).trouble = none) :
    Turn d { d with window := (d.window.editField name text).window } := by
  rcases d.window.editField_cases name text with hquiet | ⟨hmem, hedit⟩
  · rw [hquiet]
    exact .same
  · rw [hedit] at h ⊢
    exact .field hmem (Window.refreshed_of_calm h)

/-- When the dialog has closed the settings are loaded from the file as it was left. -/
theorem turn_of_reload {d : Desk} {file : Place} {s : Settings} (loaded : file.loadAll = .ok s)
    (h : (d.window.reload s).trouble = none) :
    Turn d { d with window := (d.window.reload s).window, settingsFile := file } := by
  by_cases hblank : d.window.sheet.formula = []
  · have hreload : d.window.reload s = .quiet { d.window with settings := s }.themed :=
      if_pos hblank
    rw [hreload]
    exact .theme loaded hblank
  · have hreload : d.window.reload s = { d.window with settings := s }.themed.refresh :=
      if_neg hblank
    rw [hreload] at h ⊢
    exact .settings loaded (Window.refreshed_of_calm h)

/-- A dialog that opens and closes without trouble leaves a file whose settings the window then
goes by. -/
theorem openSettings_of_calm {d : Desk} {actions : List Dialog.Action}
    (h : (d.openSettings actions).2.trouble = none) :
    ∃ file s, file.loadAll = .ok s ∧ (d.window.reload s).trouble = none ∧
      (d.openSettings actions).1 =
        { d with window := (d.window.reload s).window, settingsFile := file } := by
  unfold openSettings at h ⊢
  split at h
  · cases h
  · dsimp only at h ⊢
    split at h
    · cases h
    · rename_i s hloaded
      exact ⟨_, s, hloaded, h, rfl⟩

theorem turn_of_openSettings {d : Desk} {actions : List Dialog.Action}
    (h : (d.openSettings actions).2.trouble = none) : Turn d (d.openSettings actions).1 := by
  obtain ⟨file, s, hloaded, hreload, heq⟩ := openSettings_of_calm h
  rw [heq]
  exact turn_of_reload hloaded hreload

/-- What an event does whose handler does not break down. -/
theorem turn_of_calm {d : Desk} {e : Event} (h : (d.step e).2.trouble = none) :
    Turn d (d.step e).1 := by
  cases e with
  | typeFormula text => exact turn_of_editFormula h
  | typeField name text => exact turn_of_editField h
  | press key =>
    cases key with
    | shift => exact .shift true
    | other => exact .same
  | release key =>
    cases key with
    | shift => exact .shift false
    | other => exact .same
  | click button =>
    cases button with
    | left =>
      simp only [step, react, Window.window_clickResult]
      exact .same
    | other => exact .same
  | copy =>
    simp only [step, react, Window.window_copy]
    exact .same
  | reset => exact .reset
  | settings actions => exact turn_of_openSettings h
  | look => exact .same

/-! ## Sessions -/

/-- No handler breaks down in the session. -/
def Calm (d : Desk) : List Event → Prop
  | [] => True
  | e :: events => (d.step e).2.trouble = none ∧ (d.step e).1.Calm events

theorem Calm.of_isPrefix {d : Desk} {before events : List Event} (h : d.Calm events)
    (hbefore : before <+: events) : d.Calm before := by
  induction before generalizing d events with
  | nil => trivial
  | cons e before ih =>
    obtain ⟨rest, rfl⟩ := hbefore
    exact ⟨h.1, ih h.2 (List.prefix_append before rest)⟩

/-- A calm session goes on calmly with an event whose handler does not break down. -/
theorem calm_concat {d : Desk} {events : List Event} {e : Event} :
    d.Calm (events ++ [e]) ↔ d.Calm events ∧ ((d.run events).step e).2.trouble = none := by
  induction events generalizing d with
  | nil => exact and_comm
  | cons a events ih =>
    have hrun : d.run (a :: events) = (d.step a).1.run events := rfl
    rw [List.cons_append, Calm, Calm, ih, hrun, and_assoc]

/-- What every turn preserves holds after every calm session. -/
theorem run_invariant {P : Desk → Prop} (preserved : ∀ d d', P d → Turn d d' → P d') {d : Desk}
    {events : List Event} (calm : d.Calm events) (h : P d) : P (d.run events) := by
  induction events generalizing d with
  | nil => exact h
  | cons e events ih => exact ih calm.2 (preserved d _ h (turn_of_calm calm.1))

end Desk
end Reckon
