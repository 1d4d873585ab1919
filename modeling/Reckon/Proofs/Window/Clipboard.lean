import Reckon.Proofs.Outcome
import Reckon.Proofs.Window.Fields

/-!
# What is copied

The user copies with the button, or with a click on the result if the settings want
it so. While shift is held this puts the formula on the clipboard, otherwise the
value of the result, if it is one. The value is not shown again for this: its text
is cut out of the text that the result was last shown with. That text is never out
of date, and what comes after its first blank is all of the value, whatever further
blanks the value has.

Results:

* `shiftHeld_run`: when shift is held.
* `copied_of_not_copies`: only copying puts anything on the clipboard.
* `answers_copy`: what copying puts there if nothing in the window is out of date.
* `copied_run`: what any event puts there in a calm session.
-/

namespace Reckon

namespace Effects

@[simp] theorem copied_append (a b : Effects) : (a ++ b).copied = a.copied ++ b.copied := rfl

@[simp] theorem copied_print (text : String) : (print text).copied = [] := rfl

@[simp] theorem copied_box (title text : String) : (box title text).copied = [] := rfl

end Effects

/-- What copying is to put on the clipboard: the formula while shift is held, and otherwise the
value of the formula as the settings want it shown, if it has one. -/
inductive Answers (sheet : Sheet) (s : Settings) (held : Prop) : List (List Char) → Prop
  | formula (isHeld : held) : Answers sheet s held [sheet.rendered .unicode]
  | value (notHeld : ¬ held) {x : Binary64} {shown : Shown}
      (outcome : sheet.outcome = .ok (.value x))
      (shows : Display.value s.displayOptions (.double x) = .ok shown) :
      Answers sheet s held [shown.text]
  | nothing (notHeld : ¬ held) (noValue : ∀ x, sheet.outcome ≠ .ok (.value x)) :
      Answers sheet s held []

/-- There is only one answer. -/
theorem Answers.unique {sheet : Sheet} {s : Settings} {held : Prop} {a b : List (List Char)}
    (ha : Answers sheet s held a) (hb : Answers sheet s held b) : a = b := by
  cases ha with
  | formula isHeld =>
    cases hb with
    | formula => rfl
    | value notHeld | nothing notHeld => exact absurd isHeld notHeld
  | value notHeld outcome shows =>
    cases hb with
    | formula isHeld => exact absurd isHeld notHeld
    | value _ outcome' shows' =>
      obtain rfl := Outcome.value.inj (Except.ok.inj (outcome.symm.trans outcome'))
      rw [Except.ok.inj (shows.symm.trans shows')]
    | nothing _ noValue => exact absurd outcome (noValue _)
  | nothing notHeld noValue =>
    cases hb with
    | formula isHeld => exact absurd isHeld notHeld
    | value _ outcome => exact absurd outcome (noValue _)
    | nothing => rfl

/-- The outcome of a formula that has a value. -/
theorem Sheet.outcome_of_parse {s : Sheet} {e : Expr} {x : Binary64}
    (hblank : Outcome.isBlankFormula s.formula = false) (hparse : Expr.parse s.formula = .ok e)
    (hvalue : e.value s.bindings = .ok x) : s.outcome = .ok (.value x) := by
  rw [outcome, Outcome.ofFormula, hblank, Outcome.evaluate_of_parse hparse, hvalue]
  rfl

namespace Window

/-! ## Copying -/

/-- What comes after the sign and the blank is the value, whatever blanks it has. -/
theorem afterSpace_cons {sign : Char} (h : sign ≠ ' ') (text : List Char) :
    afterSpace (sign :: ' ' :: text) = text := by
  simp [afterSpace, h]

/-- The text of a value is a sign, a blank and the value. -/
theorem exists_shown {options : DisplayOptions} {x : Binary64} {text : List Char}
    (h : Display.outcome options (.value x) = .ok text) :
    ∃ shown, Display.value options (.double x) = .ok shown ∧ afterSpace text = shown.text := by
  dsimp only [Display.outcome] at h
  cases hshown : Display.value options (.double x) with
  | error cause =>
    rw [hshown] at h
    cases h
  | ok shown =>
    rw [hshown] at h
    obtain rfl := Except.ok.inj h
    refine ⟨shown, rfl, afterSpace_cons ?_ _⟩
    split <;> decide

/-- The formula of a window that is not out of date has an outcome. -/
theorem Fresh.exists_outcome {w : Window} (h : w.Fresh) :
    ∃ o, w.sheet.outcome = .ok o ∧ ∀ x, o = .value x →
      Display.outcome w.settings.displayOptions o = .ok w.resultText := by
  rcases h.shown with ⟨o, houtcome, hshown⟩ | ⟨hblank, -⟩
  · exact ⟨o, houtcome, fun _ _ => hshown⟩
  · exact ⟨.blank, Sheet.outcome_of_formula_nil hblank, fun _ => Outcome.noConfusion⟩

/-- Copying in a window that is not out of date does not break down, and gives the answer. -/
theorem answers_copy {w : Window} (h : w.Fresh) :
    w.copy.trouble = none ∧
      Answers w.sheet w.settings (w.shiftHeld = true) w.copy.effects.copied := by
  unfold copy
  split
  · rename_i hheld
    exact ⟨rfl, .formula hheld⟩
  · rename_i hheld
    obtain ⟨o, houtcome, hshown⟩ := h.exists_outcome
    dsimp only [evaluate]
    rw [houtcome]
    cases o with
    | value x =>
      obtain ⟨shown, hvalue, htext⟩ := exists_shown (hshown x rfl)
      refine ⟨rfl, ?_⟩
      show Answers _ _ _ [afterSpace w.resultText]
      rw [htext]
      exact .value hheld houtcome hvalue
    | blank | fault =>
      refine ⟨rfl, .nothing hheld fun x hx => ?_⟩
      rw [houtcome] at hx
      cases hx

/-! ## Other events -/

variable {w : Window} {name text : List Char}

/-- A refresh does not break down if there is a value that can be shown. -/
theorem trouble_refresh_of_value {x : Binary64} {shown : Shown}
    (outcome : w.sheet.outcome = .ok (.value x))
    (shows : Display.value w.settings.displayOptions (.double x) = .ok shown) :
    w.refresh.trouble = none := by
  unfold refresh
  dsimp only [evaluate]
  rw [outcome]
  dsimp only [Display.outcome]
  rw [shows]
  rfl

theorem copied_refresh : w.refresh.effects.copied = [] := by
  unfold refresh
  dsimp only [evaluate]
  split
  · rfl
  · rename_i o _
    split
    · rfl
    · cases o <;> rfl

@[simp] theorem settings_refresh : w.refresh.window.settings = w.settings := by
  obtain ⟨_, _, _, h⟩ := w.exists_labels_refresh
  rw [h]

@[simp] theorem shiftHeld_refresh : w.refresh.window.shiftHeld = w.shiftHeld := by
  obtain ⟨_, _, _, h⟩ := w.exists_labels_refresh
  rw [h]

theorem copied_editFormula : (w.editFormula text).effects.copied = [] := by
  rcases w.editFormula_cases text with hquiet | hedit
  · rw [hquiet]
    rfl
  · rw [hedit, copied_refresh]

theorem shiftHeld_editFormula : (w.editFormula text).window.shiftHeld = w.shiftHeld := by
  rcases w.editFormula_cases text with hquiet | hedit
  · rw [hquiet]
    rfl
  · rw [hedit, shiftHeld_refresh]
    rfl

theorem copied_editField : (w.editField name text).effects.copied = [] := by
  rcases w.editField_cases name text with hquiet | ⟨-, hedit⟩
  · rw [hquiet]
    rfl
  · rw [hedit, copied_refresh]

theorem shiftHeld_editField : (w.editField name text).window.shiftHeld = w.shiftHeld := by
  rcases w.editField_cases name text with hquiet | ⟨-, hedit⟩
  · rw [hquiet]
    rfl
  · rw [hedit, shiftHeld_refresh]
    rfl

theorem copied_reload {s : Settings} : (w.reload s).effects.copied = [] := by
  unfold reload
  dsimp only
  split
  · rfl
  · exact copied_refresh

theorem shiftHeld_reload {s : Settings} : (w.reload s).window.shiftHeld = w.shiftHeld := by
  obtain ⟨_, _, _, _, h⟩ := w.exists_labels_reload s
  rw [h]

end Window

namespace Dialog

theorem copied_act (s : Session) (a : Action) :
    (s.act a).effects.copied = s.effects.copied := by
  unfold Session.act
  split
  · rfl
  · cases a with
    | check name checked | typeText name text | cancel => rfl
    | accept =>
      show s.accept.effects.copied = _
      unfold Session.accept
      split
      · simp
      · dsimp only
        split
        · simp
        · rfl

/-- Nothing that the user does in the dialog is put on the clipboard. -/
theorem copied_use (d : Dialog) (settingsFile : Place) (actions : List Action) :
    (d.use settingsFile actions).effects.copied = [] := by
  unfold use
  induction actions using List.reverseRecOn with
  | nil => rfl
  | append_singleton actions a ih => rw [List.foldl_append, List.foldl_cons, List.foldl_nil,
      copied_act, ih]

end Dialog

namespace Desk

variable {d : Desk} {e : Event}

/-- The event is one that copies. -/
def Copies (d : Desk) : Event → Prop
  | .copy => True
  | .click .left => d.window.settings.isOn "copy_on_click" = true
  | _ => False

/-- Shift has been pressed, and not released since. -/
def ShiftHeld : Desk → List Event → Prop :=
  Since (fun _ e => e = .press .shift) (fun _ e => e = .release .shift)

/-- Only copying puts anything on the clipboard. -/
theorem copied_of_not_copies (h : ¬ d.Copies e) : (d.step e).2.effects.copied = [] := by
  cases e with
  | typeFormula text => exact Window.copied_editFormula
  | typeField name text => exact Window.copied_editField
  | press key => cases key <;> rfl
  | release key => cases key <;> rfl
  | click button =>
    cases button with
    | left =>
      show d.window.clickResult.effects.copied = []
      have hoff : ¬ d.window.settings.isOn "copy_on_click" = true := h
      rw [Window.clickResult, if_neg hoff]
      rfl
    | other => rfl
  | copy => exact absurd trivial h
  | reset | look => rfl
  | settings actions =>
    show (d.openSettings actions).2.effects.copied = []
    unfold openSettings
    split
    · rfl
    · dsimp only
      split
      · exact Dialog.copied_use _ _ _
      · simp only [Effects.copied_append, Dialog.copied_use, Window.copied_reload,
          List.append_nil]

/-- Events other than those of the key leave it as it is. -/
theorem shiftHeld_step_of_ne (hpress : e ≠ .press .shift) (hrelease : e ≠ .release .shift) :
    (d.step e).1.window.shiftHeld = d.window.shiftHeld := by
  cases e with
  | typeFormula text => exact Window.shiftHeld_editFormula
  | typeField name text => exact Window.shiftHeld_editField
  | press key =>
    cases key with
    | shift => exact absurd rfl hpress
    | other => rfl
  | release key =>
    cases key with
    | shift => exact absurd rfl hrelease
    | other => rfl
  | click button =>
    cases button with
    | left =>
      show d.window.clickResult.window.shiftHeld = _
      rw [Window.window_clickResult]
    | other => rfl
  | copy =>
    show d.window.copy.window.shiftHeld = _
    rw [Window.window_copy]
  | reset | look => rfl
  | settings actions =>
    show (d.openSettings actions).1.window.shiftHeld = _
    unfold openSettings
    split
    · rfl
    · dsimp only
      split
      · rfl
      · exact Window.shiftHeld_reload

theorem shiftHeld_step :
    (d.step e).1.window.shiftHeld = true ↔
      e = .press .shift ∨ (d.window.shiftHeld = true ∧ e ≠ .release .shift) := by
  by_cases hpress : e = .press .shift
  · subst hpress
    exact iff_of_true rfl (.inl rfl)
  by_cases hrelease : e = .release .shift
  · subst hrelease
    simp [step, react, Reaction.quiet]
  · rw [shiftHeld_step_of_ne hpress hrelease]
    simp [hpress, hrelease]

/-! ## Sessions -/

/-- Shift counts as held exactly as long as it is. -/
theorem shiftHeld_run (h : d.window.shiftHeld = false) (events : List Event) :
    (d.run events).window.shiftHeld = true ↔ d.ShiftHeld events := by
  induction events using List.reverseRecOn with
  | nil => simp [h, ShiftHeld, not_since_nil]
  | append_singleton events e ih => rw [run_concat, shiftHeld_step, ih, ShiftHeld, since_concat]

/-- At any time of a calm session the settings are those in the file, and what the next event puts
on the clipboard is the answer for the formula of that time if the event copies, and nothing
otherwise. Copying does not break down. -/
theorem copied_run {settingsFile descriptionsFile : Place}
    (h : start settingsFile descriptionsFile = .ok d) {events : List Event}
    (calm : d.Calm events) (e : Event) :
    (d.run events).settingsFile.loadAll = .ok (d.run events).window.settings ∧
      ((d.run events).Copies e → ((d.run events).step e).2.trouble = none ∧
        Answers (d.run events).window.sheet (d.run events).window.settings (d.ShiftHeld events)
          ((d.run events).step e).2.effects.copied) ∧
      (¬ (d.run events).Copies e → ((d.run events).step e).2.effects.copied = []) := by
  have hfresh : (d.run events).Fresh :=
    run_invariant (fun _ _ hfresh turn => fresh_of_turn hfresh turn) calm (fresh_of_start h)
  have hheld : d.window.shiftHeld = false := by
    obtain ⟨s, -, rfl⟩ := ofSettings_of_start h
    rfl
  refine ⟨hfresh.settings, fun hcopies => ?_, copied_of_not_copies⟩
  rw [← shiftHeld_run hheld]
  cases e with
  | copy => exact Window.answers_copy hfresh.window
  | click button =>
    cases button with
    | left =>
      have hclick : (d.run events).window.clickResult = (d.run events).window.copy :=
        if_pos hcopies
      have hcopy := Window.answers_copy hfresh.window
      rw [← hclick] at hcopy
      exact hcopy
    | other => exact hcopies.elim
  | typeFormula | typeField | press | release | reset | settings | look => exact hcopies.elim

/-- Fractions are switched on, and then a variable is entered and its value typed. -/
def mixedSession : List Event :=
  [.settings [.check "fractions" true, .accept], .typeFormula ['a'], .typeField ['a'] "1.5".toList]

/-- The window of the session before anything is typed in it. -/
def mixedStart : Window := (initial.step (.settings [.check "fractions" true, .accept])).1.window

/-- The same window with a formula. -/
def mixedFormula : Window := (mixedStart.withFormula ['a']).refresh.window

theorem editFormula_mixedStart :
    mixedStart.editFormula ['a'] = (mixedStart.withFormula ['a']).refresh :=
  Window.editFormula_of_ne (by decide +kernel)

theorem editField_mixedFormula : mixedFormula.editField ['a'] "1.5".toList =
    (mixedFormula.withFieldText ['a'] "1.5".toList).refresh := by
  have hfind : mixedFormula.fields.find? (·.name == ['a']) = some ⟨['a'], ['a', ':'], ['0']⟩ := by
    rw [mixedFormula, Window.fields_refresh]
    decide +kernel
  exact Window.editField_of_ne hfind (by decide +kernel)

theorem window_mixedSession : (initial.run mixedSession).window =
    (mixedFormula.withFieldText ['a'] "1.5".toList).refresh.window := by
  rw [← editField_mixedFormula, mixedFormula, ← editFormula_mixedStart]
  rfl

theorem outcome_mixedFormula : (mixedFormula.sheet.withVariable ['a'] "1.5".toList).outcome =
    .ok (.value (Entry.number "1.5".toList)) := by
  have hparse : Expr.parse ['a'] = .ok (.var ['a']) := by cbv
  rw [mixedFormula, Window.sheet_refresh]
  exact Sheet.outcome_of_parse (by decide +kernel) hparse (by decide +kernel)

theorem shows_mixedFormula : Display.value mixedFormula.settings.displayOptions
    (.double (Entry.number "1.5".toList)) = .ok ⟨"1 1/2".toList, false⟩ := by
  rw [mixedFormula, Window.settings_refresh]
  decide +kernel

theorem calm_mixedSession : initial.Calm mixedSession := by
  have hparse : Expr.parse ['a'] = .ok (.var ['a']) := by cbv
  have houtcome : (mixedStart.sheet.withFormula ['a']).outcome = .ok (.value .zero) :=
    Sheet.outcome_of_parse (by decide +kernel) hparse (by decide +kernel)
  have hshows : Display.value mixedStart.settings.displayOptions (.double .zero) =
      .ok ⟨['0'], false⟩ := by decide +kernel
  refine ⟨by decide +kernel, ?_, ?_, trivial⟩
  · show (mixedStart.editFormula ['a']).trouble = none
    rw [editFormula_mixedStart]
    exact Window.trouble_refresh_of_value houtcome hshows
  · show ((mixedStart.editFormula ['a']).window.editField ['a'] "1.5".toList).trouble = none
    rw [editFormula_mixedStart, ← mixedFormula, editField_mixedFormula]
    exact Window.trouble_refresh_of_value outcome_mixedFormula shows_mixedFormula

/-- A click on the result, which is shown as a whole number and a fraction. -/
theorem copied_run_mixed :
    start .missing .missing = .ok initial ∧ initial.Calm mixedSession ∧
      (initial.run mixedSession).Copies (.click .left) ∧
      ((initial.run mixedSession).step (.click .left)).2.trouble = none ∧
      Answers (initial.run mixedSession).window.sheet (initial.run mixedSession).window.settings
        (initial.ShiftHeld mixedSession)
        ((initial.run mixedSession).step (.click .left)).2.effects.copied ∧
      ((initial.run mixedSession).step (.click .left)).2.effects.copied = ["1 1/2".toList] := by
  have hcopies : (initial.run mixedSession).Copies (.click .left) := by
    show (initial.run mixedSession).window.settings.isOn "copy_on_click" = true
    rw [window_mixedSession, Window.settings_refresh]
    show mixedFormula.settings.isOn "copy_on_click" = true
    rw [mixedFormula, Window.settings_refresh]
    decide +kernel
  have hreleased : ¬ initial.ShiftHeld mixedSession := by
    rw [← shiftHeld_run rfl, window_mixedSession, Window.shiftHeld_refresh]
    show ¬ mixedFormula.shiftHeld = true
    rw [mixedFormula, Window.shiftHeld_refresh]
    decide +kernel
  have hanswer : Answers (initial.run mixedSession).window.sheet
      (initial.run mixedSession).window.settings (initial.ShiftHeld mixedSession)
      [Shown.text ⟨"1 1/2".toList, false⟩] := by
    rw [window_mixedSession, Window.sheet_refresh, Window.settings_refresh]
    exact .value hreleased outcome_mixedFormula shows_mixedFormula
  obtain ⟨-, hcopied, -⟩ := copied_run start_missing calm_mixedSession (.click .left)
  obtain ⟨htrouble, hanswers⟩ := hcopied hcopies
  exact ⟨start_missing, calm_mixedSession, hcopies, htrouble, hanswers, hanswers.unique hanswer⟩

end Desk
end Reckon
