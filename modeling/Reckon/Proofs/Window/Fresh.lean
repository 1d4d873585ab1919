import Reckon.Proofs.Sheet
import Reckon.Proofs.Window.Turn

/-!
# The window shows what is there

Everything in the window is made from the sheet and the settings, but each
handler makes only some of it anew: the fields when the names change, the result
after new settings only if there is a formula, nothing of the result when the
window is cleared. All the same nothing in the window is ever out of date
(`Fresh`).

Results:

* `fresh_of_turn`: no event leaves anything out of date.
* `fresh_run`: nothing is out of date at any time of a calm session.
-/

namespace Reckon

namespace Window

/-- The names and the labels of the fields are those of the variables, in their order. -/
def FieldsFit (fields : List Field) (names : List (List Char)) : Prop :=
  fields.map Field.name = names ∧
    fields.map Field.label = names.map fun name => Markup.html.name name ++ [':']

/-- Nothing in the window is out of date. -/
structure Fresh (w : Window) : Prop where
  input : w.input = w.sheet.formula
  display : w.display = w.sheet.rendered .html
  fields : FieldsFit w.fields w.sheet.names
  result : w.result.text = w.resultText
  /-- The result is the outcome as the settings want it shown, or nothing without a formula. -/
  shown : (∃ o, w.sheet.outcome = .ok o ∧
      Display.outcome w.settings.displayOptions o = .ok w.resultText) ∨
    (w.sheet.formula = [] ∧ w.resultText = [])
  tooltip : w.result.tooltip ≠ "" ↔
    ∃ cause equation, w.sheet.outcome = .ok (.fault cause equation)

/-! ## Fields -/

theorem fieldsFit_fieldsOf (s : Sheet) : FieldsFit (fieldsOf s) s.names := by
  unfold FieldsFit fieldsOf Sheet.names
  rw [List.map_map, List.map_map, List.map_map]
  exact ⟨rfl, rfl⟩

/-- Fields that are kept fit because the names are the same. -/
theorem fieldsFit_withFormula {w : Window} (h : FieldsFit w.fields w.sheet.names)
    (text : List Char) :
    FieldsFit (w.withFormula text).fields (w.withFormula text).sheet.names := by
  unfold withFormula
  dsimp only
  split_ifs with hdiffer
  · exact fieldsFit_fieldsOf _
  · have hnames : (w.sheet.withFormula text).names = w.sheet.names := by
      simpa [Sheet.namesDiffer] using hdiffer
    rwa [hnames]

theorem fieldsFit_withFieldText {w : Window} (h : FieldsFit w.fields w.sheet.names)
    (name text : List Char) :
    FieldsFit (w.withFieldText name text).fields (w.withFieldText name text).sheet.names := by
  unfold withFieldText FieldsFit
  dsimp only
  rw [Sheet.names_withVariable, List.map_map, List.map_map]
  have hname : (Field.name ∘ fun f => if f.name = name then { f with text } else f) =
      Field.name := by
    funext f
    by_cases hf : f.name = name <;> simp [hf]
  have hlabel :
      (Field.label ∘ fun f => if f.name = name then { f with text } else f) = Field.label := by
    funext f
    by_cases hf : f.name = name <;> simp [hf]
  rw [hname, hlabel]
  exact h

/-! ## What the handlers do -/

/-- Only a fault has details. -/
theorem tooltipFor_ne_empty_iff {o : Outcome} :
    tooltipFor o ≠ "" ↔ ∃ cause equation, o = .fault cause equation := by
  cases o with
  | fault cause equation => simp [tooltipFor, details]
  | value x | blank => simp [tooltipFor]

/-- After a refresh the labels are fresh, whatever they have been before. -/
theorem fresh_of_refreshed {w w' : Window} (h : Refreshed w w') (hinput : w.input = w.sheet.formula)
    (hfields : FieldsFit w.fields w.sheet.names) : w'.Fresh := by
  cases h with
  | @intro o text outcome display =>
    exact
      { input := hinput
        display := rfl
        fields := hfields
        result := rfl
        shown := .inl ⟨o, outcome, display⟩
        tooltip := by
          dsimp only
          rw [tooltipFor_ne_empty_iff, outcome]
          simp }

theorem fresh_reset (w : Window) : w.reset.Fresh where
  input := rfl
  display := (Sheet.rendered_empty .html).symm
  fields := by
    show FieldsFit [] Sheet.empty.names
    rw [Sheet.names_empty]
    exact ⟨rfl, rfl⟩
  result := rfl
  shown := .inr ⟨rfl, rfl⟩
  tooltip := by
    have houtcome := Sheet.outcome_of_formula_nil Sheet.formula_empty
    show ("" : String) ≠ "" ↔ ∃ cause equation, Sheet.empty.outcome = .ok (.fault cause equation)
    rw [houtcome]
    simp

/-- Without a formula there is nothing that other settings would show in another way. -/
theorem Fresh.themed {w : Window} (h : w.Fresh) (hblank : w.sheet.formula = []) (s : Settings) :
    Fresh (themed { w with settings := s }) where
  input := h.input
  display := h.display
  fields := h.fields
  result := h.result
  shown := by
    rcases h.shown with ⟨o, houtcome, hdisplay⟩ | hempty
    · rw [Sheet.outcome_of_formula_nil hblank] at houtcome
      cases houtcome
      exact .inl ⟨.blank, Sheet.outcome_of_formula_nil hblank, hdisplay⟩
    · exact .inr hempty
  tooltip := h.tooltip

/-- A new window shows what it would show after a reset. -/
theorem fresh_ofSettings (s : Settings) : (ofSettings s).Fresh :=
  { fresh_reset (ofSettings s) with }

end Window

namespace Desk

open Window (FieldsFit Refreshed)

/-- Nothing in the window is out of date, and its settings are those in the file. -/
structure Fresh (d : Desk) : Prop where
  window : d.window.Fresh
  settings : d.settingsFile.loadAll = .ok d.window.settings

/-- A desk starts with a new window over the settings in the file. -/
theorem ofSettings_of_start {settingsFile descriptionsFile : Place} {d : Desk}
    (h : start settingsFile descriptionsFile = .ok d) :
    ∃ s, settingsFile.loadAll = .ok s ∧
      d = ⟨.ofSettings s, settingsFile, descriptionsFile⟩ := by
  unfold start Window.create at h
  cases hload : settingsFile.loadAll with
  | error fault =>
    rw [hload] at h
    cases h
  | ok s =>
    rw [hload] at h
    cases h
    exact ⟨s, rfl, rfl⟩

/-- The desk without any files, at the start. -/
def initial : Desk := ⟨.ofSettings Settings.default, .missing, .missing⟩

theorem start_missing : start .missing .missing = .ok initial := rfl

theorem fresh_of_start {settingsFile descriptionsFile : Place} {d : Desk}
    (h : start settingsFile descriptionsFile = .ok d) : d.Fresh := by
  obtain ⟨s, hload, rfl⟩ := ofSettings_of_start h
  exact ⟨Window.fresh_ofSettings s, hload⟩

theorem fresh_of_refreshed {w w' : Window} {settingsFile : Place} (descriptionsFile : Place)
    (h : Refreshed w w') (hinput : w.input = w.sheet.formula)
    (hfields : FieldsFit w.fields w.sheet.names) (loaded : settingsFile.loadAll = .ok w.settings) :
    Fresh ⟨w', settingsFile, descriptionsFile⟩ where
  window := Window.fresh_of_refreshed h hinput hfields
  settings := by
    rw [h.settings_eq]
    exact loaded

/-- No event leaves anything out of date. -/
theorem fresh_of_turn {d d' : Desk} (h : d.Fresh) (turn : Turn d d') : d'.Fresh := by
  obtain ⟨hwindow, hsettings⟩ := h
  have hfields := hwindow.fields
  cases turn with
  | same => exact ⟨hwindow, hsettings⟩
  | shift held => exact ⟨{ hwindow with }, hsettings⟩
  | reset => exact ⟨Window.fresh_reset _, hsettings⟩
  | @formula text w refreshed =>
    have hnew := Window.fieldsFit_withFormula hfields text
    exact fresh_of_refreshed _ refreshed rfl hnew hsettings
  | @field name text w mem refreshed =>
    have hnew := Window.fieldsFit_withFieldText hfields name text
    exact fresh_of_refreshed _ refreshed hwindow.input hnew hsettings
  | @settings file s w loaded refreshed =>
    exact fresh_of_refreshed _ refreshed hwindow.input hfields loaded
  | @theme file s loaded blank => exact ⟨hwindow.themed blank s, loaded⟩

/-- From the start of the program on, as long as no handler breaks down, nothing in the window is
ever out of date. -/
theorem fresh_run {settingsFile descriptionsFile : Place} {d : Desk}
    (h : start settingsFile descriptionsFile = .ok d) {events : List Event} (calm : d.Calm events)
    {before : List Event} (hbefore : before <+: events) : (d.run before).Fresh :=
  run_invariant (fun _ _ hfresh turn => fresh_of_turn hfresh turn) (calm.of_isPrefix hbefore)
    (fresh_of_start h)

/-- A session with a formula that is none, a value for its variable, new settings, a copy and a
reset. -/
theorem fresh_run_missing :
    ∃ d, start .missing .missing = .ok d ∧
      d.Calm [.typeFormula ['a', '?'], .typeField ['a'] ['3'],
        .settings [.check "fractions" true, .accept], .press .shift, .copy, .reset] ∧
      (d.run [.typeFormula ['a', '?'], .typeField ['a'] ['3'],
        .settings [.check "fractions" true, .accept]]).Fresh := by
  have hcalm : Calm ⟨Window.ofSettings Settings.default, .missing, .missing⟩
      [.typeFormula ['a', '?'], .typeField ['a'] ['3'],
        .settings [.check "fractions" true, .accept], .press .shift, .copy, .reset] := by
    refine ⟨?_, ?_, ?_, ?_, ?_, ?_, trivial⟩ <;> decide +kernel
  have hstart : start .missing .missing =
      .ok ⟨Window.ofSettings Settings.default, .missing, .missing⟩ := rfl
  exact ⟨_, hstart, hcalm, fresh_run hstart hcalm ⟨[.press .shift, .copy, .reset], rfl⟩⟩

end Desk
end Reckon
