import Reckon.Proofs.Window.Fresh
import Reckon.Proofs.Window.Since

/-!
# The style of the result

Whenever the labels are brought up to date, the result gets the style of its
outcome, and after the settings dialog that of the theme. When the window is
cleared it gets none. So a fault that has been cleared away leaves its style on
the empty result, until another formula is entered or the settings are opened
(`FaultCleared`). That is the only time at which the style does not fit.

Results:

* `styleFits_of_restyles`, `styleFits_step`, `bare_of_clearsFault`, `bare_step`: what an event
  makes of a style that fits, and of one that a fault has left.
* `not_styleFits_reset`: after a fault has been cleared away the style does not fit.
* `styleFits_run_iff`: when the style fits in a calm session.
-/

namespace Reckon

namespace Window

/-- The result has the style of a fault exactly if it is one, and otherwise that of the theme. -/
structure StyleFits (w : Window) : Prop where
  fault : w.result.style = .error ↔ ∃ cause equation, w.sheet.outcome = .ok (.fault cause equation)
  theme : w.result.style ≠ .error →
    w.result.style = if w.settings.isOn "darkmode" then .dark else .light

/-- Nothing is left in the window but the style of a fault. -/
structure Bare (w : Window) : Prop where
  sheet : w.sheet = .empty
  input : w.input = []
  fields : w.fields = []
  style : w.result.style = .error

theorem Bare.outcome {w : Window} (h : w.Bare) : w.sheet.outcome = .ok .blank :=
  Sheet.outcome_of_formula_nil (by rw [h.sheet, Sheet.formula_empty])

theorem Bare.not_styleFits {w : Window} (h : w.Bare) : ¬ w.StyleFits := by
  intro hfits
  obtain ⟨cause, equation, hfault⟩ := hfits.fault.1 h.style
  rw [h.outcome] at hfault
  cases hfault

/-- The style that is chosen for the outcome fits. -/
theorem styleFits_of_choose {w : Window} {o : Outcome} (outcome : w.sheet.outcome = .ok o)
    (style : w.result.style = .choose o.isFault (w.settings.isOn "darkmode")) : w.StyleFits := by
  cases o with
  | fault cause equation =>
    have hstyle : w.result.style = .error := style
    exact ⟨iff_of_true hstyle ⟨cause, equation, outcome⟩, absurd hstyle⟩
  | value _ | blank =>
    have hstyle : w.result.style = if w.settings.isOn "darkmode" then .dark else .light := style
    have hne : w.result.style ≠ .error := by
      rw [hstyle]
      split <;> decide
    refine ⟨iff_of_false hne ?_, fun _ => hstyle⟩
    rw [outcome]
    simp

theorem styleFits_of_refreshed {w w' : Window} (h : Refreshed w w') : w'.StyleFits := by
  cases h with
  | intro outcome display => exact styleFits_of_choose outcome rfl

/-- Without a formula no text of a result is that of a fault. -/
theorem Fresh.resultText_ne_error {w : Window} (h : w.Fresh) (hblank : w.sheet.formula = []) :
    w.resultText ≠ "Error".toList := by
  rcases h.shown with ⟨o, houtcome, hdisplay⟩ | ⟨-, hempty⟩
  · rw [Sheet.outcome_of_formula_nil hblank] at houtcome
    cases houtcome
    have htext : Outcome.prompt.toList = w.resultText := Except.ok.inj hdisplay
    rw [← htext]
    decide
  · rw [hempty]
    decide

/-- After the settings have been loaded again the style fits, whatever it has been before. -/
theorem styleFits_reload {w : Window} (fresh : w.Fresh) {s : Settings}
    (calm : (w.reload s).trouble = none) : (w.reload s).window.StyleFits := by
  by_cases hblank : w.sheet.formula = []
  · have hreload : w.reload s = .quiet { w with settings := s }.themed := if_pos hblank
    have hstyle : { w with settings := s }.themed.result.style =
        .choose false (s.isOn "darkmode") := by
      unfold themed styled
      dsimp only
      rw [decide_eq_false (fresh.resultText_ne_error hblank)]
    rw [hreload]
    exact styleFits_of_choose (Sheet.outcome_of_formula_nil hblank) hstyle
  · have hreload : w.reload s = { w with settings := s }.themed.refresh := if_neg hblank
    rw [hreload] at calm ⊢
    exact styleFits_of_refreshed (refreshed_of_calm calm)

theorem styleFits_ofSettings (s : Settings) : (ofSettings s).StyleFits :=
  styleFits_of_choose (Sheet.outcome_of_formula_nil Sheet.formula_empty) rfl

end Window

namespace Desk

/-- The window is cleared while it shows a fault. -/
def ClearsFault (d : Desk) (e : Event) : Prop :=
  e = .reset ∧ ∃ cause equation, d.window.sheet.outcome = .ok (.fault cause equation)

/-- Another formula is entered, or the settings are opened. -/
def Restyles (d : Desk) : Event → Prop
  | .typeFormula text => text ≠ d.window.input
  | .settings _ => True
  | _ => False

/-- A fault has been cleared away, and since then no formula entered and no settings opened. -/
def FaultCleared : Desk → List Event → Prop := Since ClearsFault Restyles

variable {d : Desk} {e : Event}

/-! ## One event -/

theorem styleFits_of_restyles (fresh : d.Fresh) (calm : (d.step e).2.trouble = none)
    (h : d.Restyles e) : (d.step e).1.window.StyleFits := by
  cases e with
  | typeFormula text =>
    have hedit := Window.editFormula_of_ne h
    have htrouble : (d.window.editFormula text).trouble = none := calm
    rw [hedit] at htrouble
    show (d.window.editFormula text).window.StyleFits
    rw [hedit]
    exact Window.styleFits_of_refreshed (Window.refreshed_of_calm htrouble)
  | settings actions =>
    obtain ⟨file, s, -, htrouble, heq⟩ := openSettings_of_calm calm
    show (d.openSettings actions).1.window.StyleFits
    rw [heq]
    exact Window.styleFits_reload fresh.window htrouble
  | typeField | press | release | click | copy | reset | look => exact h.elim

/-- A style that fits goes on to fit, unless a fault is cleared away. -/
theorem styleFits_step (fresh : d.Fresh) (fits : d.window.StyleFits)
    (calm : (d.step e).2.trouble = none) (h : ¬ d.ClearsFault e) :
    (d.step e).1.window.StyleFits := by
  by_cases hrestyles : d.Restyles e
  · exact styleFits_of_restyles fresh calm hrestyles
  cases e with
  | typeFormula text =>
    have hsame : text = d.window.input := not_not.1 hrestyles
    show (d.window.editFormula text).window.StyleFits
    rw [Window.editFormula_of_eq hsame]
    exact fits
  | typeField name text =>
    have htrouble : (d.window.editField name text).trouble = none := calm
    show (d.window.editField name text).window.StyleFits
    rcases d.window.editField_cases name text with hquiet | ⟨-, hedit⟩
    · rw [hquiet]
      exact fits
    · rw [hedit] at htrouble ⊢
      exact Window.styleFits_of_refreshed (Window.refreshed_of_calm htrouble)
  | press key => cases key <;> exact { fits with }
  | release key => cases key <;> exact { fits with }
  | click button =>
    cases button with
    | left =>
      show d.window.clickResult.window.StyleFits
      rwa [Window.window_clickResult]
    | other => exact fits
  | copy =>
    show d.window.copy.window.StyleFits
    rwa [Window.window_copy]
  | reset =>
    -- the style stays, and so there has to be no fault before
    have hfault : ¬ ∃ cause equation, d.window.sheet.outcome = .ok (.fault cause equation) :=
      fun hfault => h ⟨rfl, hfault⟩
    have hne : d.window.result.style ≠ .error := mt fits.fault.1 hfault
    refine ⟨iff_of_false hne ?_, fun _ => fits.theme hne⟩
    show ¬ ∃ cause equation, Sheet.empty.outcome = .ok (.fault cause equation)
    rw [Sheet.outcome_of_formula_nil Sheet.formula_empty]
    simp
  | settings actions => exact absurd trivial hrestyles
  | look => exact fits

theorem bare_of_clearsFault (fits : d.window.StyleFits) (h : d.ClearsFault e) :
    (d.step e).1.window.Bare := by
  obtain ⟨rfl, hfault⟩ := h
  exact ⟨rfl, rfl, rfl, fits.fault.2 hfault⟩

/-- The style that a fault has left stays until something is entered: there is no field to type
in. -/
theorem bare_step (bare : d.window.Bare) (h : ¬ d.Restyles e) : (d.step e).1.window.Bare := by
  cases e with
  | typeFormula text =>
    have hsame : text = d.window.input := not_not.1 h
    show (d.window.editFormula text).window.Bare
    rw [Window.editFormula_of_eq hsame]
    exact bare
  | typeField name text =>
    show (d.window.editField name text).window.Bare
    rw [Window.editField, bare.fields]
    exact bare
  | press key => cases key <;> exact { bare with }
  | release key => cases key <;> exact { bare with }
  | click button =>
    cases button with
    | left =>
      show d.window.clickResult.window.Bare
      rwa [Window.window_clickResult]
    | other => exact bare
  | copy =>
    show d.window.copy.window.Bare
    rwa [Window.window_copy]
  | reset => exact ⟨rfl, rfl, rfl, bare.style⟩
  | settings actions => exact absurd trivial h
  | look => exact bare

/-- A fault, and the window is cleared: the empty result still has the style of the fault. -/
theorem not_styleFits_reset :
    ∃ d, start .missing .missing = .ok d ∧ d.Calm [.typeFormula ['?'], .reset] ∧
      ¬ (d.run [.typeFormula ['?'], .reset]).window.StyleFits := by
  refine ⟨initial, start_missing, ⟨?_, ?_, trivial⟩, ?_⟩
  · decide +kernel
  · decide +kernel
  · have hbare : (initial.run [.typeFormula ['?'], .reset]).window.Bare :=
      ⟨rfl, rfl, rfl, by decide +kernel⟩
    exact hbare.not_styleFits

/-! ## Sessions -/

/-- In a calm session the style fits, or a fault has left it. -/
theorem styled_run (fresh : d.Fresh) (fits : d.window.StyleFits) {events : List Event}
    (calm : d.Calm events) :
    (d.run events).Fresh ∧
      ((d.FaultCleared events ∧ (d.run events).window.Bare) ∨
        (¬ d.FaultCleared events ∧ (d.run events).window.StyleFits)) := by
  induction events using List.reverseRecOn with
  | nil => exact ⟨fresh, .inr ⟨not_since_nil, fits⟩⟩
  | append_singleton events e ih =>
    obtain ⟨hcalm, htrouble⟩ := calm_concat.1 calm
    obtain ⟨hfresh, hstyle⟩ := ih hcalm
    rw [run_concat, FaultCleared, since_concat]
    refine ⟨fresh_of_turn hfresh (turn_of_calm htrouble), ?_⟩
    rcases hstyle with ⟨hcleared, hbare⟩ | ⟨hcleared, hfits⟩
    · by_cases hrestyles : (d.run events).Restyles e
      · have hclears : ¬ (d.run events).ClearsFault e := by
          rintro ⟨rfl, -⟩
          exact hrestyles
        refine .inr ⟨?_, styleFits_of_restyles hfresh htrouble hrestyles⟩
        rintro (h | h)
        · exact hclears h
        · exact h.2 hrestyles
      · exact .inl ⟨.inr ⟨hcleared, hrestyles⟩, bare_step hbare hrestyles⟩
    · by_cases hclears : (d.run events).ClearsFault e
      · exact .inl ⟨.inl hclears, bare_of_clearsFault hfits hclears⟩
      · refine .inr ⟨?_, styleFits_step hfresh hfits htrouble hclears⟩
        rintro (h | h)
        · exact hclears h
        · exact hcleared h.1

/-- At any time of a calm session the result has the style of its outcome and of the theme, unless
a fault has been cleared away and nothing has been entered since: then there is no outcome, but the
style of the fault. -/
theorem styleFits_run_iff {settingsFile descriptionsFile : Place}
    (h : start settingsFile descriptionsFile = .ok d) {events : List Event} (calm : d.Calm events)
    {before : List Event} (hbefore : before <+: events) :
    ((d.run before).window.StyleFits ↔ ¬ d.FaultCleared before) ∧
      (d.FaultCleared before →
        (d.run before).window.sheet.outcome = .ok .blank ∧
          (d.run before).window.result.style = .error) := by
  have hfits : d.window.StyleFits := by
    obtain ⟨s, -, rfl⟩ := ofSettings_of_start h
    exact Window.styleFits_ofSettings s
  have hrun := (styled_run (fresh_of_start h) hfits (calm.of_isPrefix hbefore)).2
  rcases hrun with ⟨hcleared, hbare⟩ | ⟨hcleared, hfits⟩
  · exact ⟨iff_of_false hbare.not_styleFits (not_not_intro hcleared),
      fun _ => ⟨hbare.outcome, hbare.style⟩⟩
  · exact ⟨iff_of_true hfits hcleared, fun h => absurd h hcleared⟩

/-- A session in which a fault is cleared away, a key is pressed and the settings are saved,
looked at after the key. -/
theorem styleFits_run_iff_press :
    ∃ d, start .missing .missing = .ok d ∧
      d.Calm [.typeFormula ['?'], .reset, .press .shift, .settings [.accept]] ∧
      [Event.typeFormula ['?'], .reset, .press .shift] <+:
        [.typeFormula ['?'], .reset, .press .shift, .settings [.accept]] ∧
      ((d.run [.typeFormula ['?'], .reset, .press .shift]).window.StyleFits ↔
        ¬ d.FaultCleared [.typeFormula ['?'], .reset, .press .shift]) ∧
      (d.FaultCleared [.typeFormula ['?'], .reset, .press .shift] →
        (d.run [.typeFormula ['?'], .reset, .press .shift]).window.sheet.outcome =
            .ok .blank ∧
          (d.run [.typeFormula ['?'], .reset, .press .shift]).window.result.style =
            .error) := by
  have hcalm : initial.Calm
      [.typeFormula ['?'], .reset, .press .shift, .settings [.accept]] := by
    refine ⟨?_, ?_, ?_, ?_, trivial⟩ <;> decide +kernel
  have hbefore : [Event.typeFormula ['?'], .reset, .press .shift] <+:
      [.typeFormula ['?'], .reset, .press .shift, .settings [.accept]] :=
    ⟨[.settings [.accept]], rfl⟩
  exact ⟨_, start_missing, hcalm, hbefore, styleFits_run_iff start_missing hcalm hbefore⟩

end Desk
end Reckon
