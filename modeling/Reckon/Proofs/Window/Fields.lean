import Reckon.Proofs.Decimal.SixDigits
import Reckon.Proofs.Sheet.Lifetime
import Reckon.Proofs.Window.Fresh
import Reckon.Proofs.Window.Since

/-!
# What the inputs hold

The formula input holds what was last typed in it, or nothing if the window has been
cleared since, and the sheet is for this formula (`Holds`). A field for a variable
holds what has been typed in it only until the fields are rebuilt. Then the
sheet still has the number that was typed, and the field has six digits of it.
So a field stands for the value that is calculated with as long as something has
been typed in it since the last rebuild (`TypedIn`), and from then on only if
six digits are enough for the value.

None of this needs a handler to come to its end: what breaks down does so after
the fields and the sheet have been changed.

Results:

* `holds_run`: what the formula of the window is at any time of a session.
* `fieldTurn_step`: what an event does to the sheet and the fields.
* `shows_run`: what each field holds at any time of a session.
* `same_number_text_iff`: when a field stands for the value of its variable.
-/

namespace Reckon

namespace Sheet

/-- The value that is listed with a name is the value of the name. -/
theorem value?_of_mem {s : Sheet} {name : List Char} {x : Binary64} (h : (name, x) ∈ s.values) :
    s.value? name = some x := by
  obtain ⟨before, after, hvalues⟩ := List.append_of_mem h
  have hnodup : (before.map Prod.fst ++ name :: after.map Prod.fst).Nodup := by
    have := s.nodup
    rwa [hvalues, List.map_append, List.map_cons] at this
  refine List.lookup_eq_some_iff.2 ⟨before, after, hvalues, ?_⟩
  intro p hp
  rw [bne_iff_ne]
  rintro rfl
  exact (List.nodup_append.1 hnodup).2.2 p.1 (List.mem_map_of_mem hp) p.1 List.mem_cons_self rfl

end Sheet

namespace Binary64

/-- A number and its six digits are the same number only if they are the same double. -/
theorem same_sixDigits_iff {x : Binary64} (h : x.isFinite = true) :
    x.sixDigits.same x = true ↔ x.sixDigits = x := by
  unfold same
  rw [Bool.or_eq_true, Bool.and_eq_true, beq_iff_eq]
  constructor
  · rintro (heq | ⟨-, hzero⟩)
    · exact heq
    · cases x with
      | finite s u hu =>
        obtain rfl : u = 0 := by simpa [isZero] using hzero
        rfl
      | infinite s => cases h
      | nan => cases h
  · exact .inl

theorem same_self (x : Binary64) : x.same x = true := by
  rw [same, beq_self_eq_true, Bool.true_or]

end Binary64

namespace Window

/-! ## A refresh leaves what has been entered -/

/-- A refresh changes nothing but labels. -/
theorem exists_labels_refresh (w : Window) :
    ∃ display resultText result, w.refresh.window = { w with display, resultText, result } := by
  unfold refresh
  dsimp only [evaluate]
  split
  · exact ⟨_, _, _, rfl⟩
  · split
    · exact ⟨_, _, _, rfl⟩
    · rw [showing_fst]
      exact ⟨_, _, _, rfl⟩

@[simp] theorem sheet_refresh (w : Window) : w.refresh.window.sheet = w.sheet := by
  obtain ⟨_, _, _, h⟩ := w.exists_labels_refresh
  rw [h]

@[simp] theorem fields_refresh (w : Window) : w.refresh.window.fields = w.fields := by
  obtain ⟨_, _, _, h⟩ := w.exists_labels_refresh
  rw [h]

@[simp] theorem input_refresh (w : Window) : w.refresh.window.input = w.input := by
  obtain ⟨_, _, _, h⟩ := w.exists_labels_refresh
  rw [h]

/-- A reload changes nothing but labels, the settings, and what these make of the style. -/
theorem exists_labels_reload (w : Window) (s : Settings) :
    ∃ display resultText result darkSheet, (w.reload s).window =
      { w with settings := s, display, resultText, result, darkSheet } := by
  unfold reload
  dsimp only
  split
  · exact ⟨_, _, _, _, rfl⟩
  · obtain ⟨_, _, _, h⟩ := exists_labels_refresh (themed { w with settings := s })
    rw [h]
    exact ⟨_, _, _, _, rfl⟩

theorem sheet_reload (w : Window) (s : Settings) : (w.reload s).window.sheet = w.sheet := by
  obtain ⟨_, _, _, _, h⟩ := w.exists_labels_reload s
  rw [h]

theorem fields_reload (w : Window) (s : Settings) : (w.reload s).window.fields = w.fields := by
  obtain ⟨_, _, _, _, h⟩ := w.exists_labels_reload s
  rw [h]

theorem input_reload (w : Window) (s : Settings) : (w.reload s).window.input = w.input := by
  obtain ⟨_, _, _, _, h⟩ := w.exists_labels_reload s
  rw [h]

/-! ## The formula input -/

/-- The text is the formula of the window, in its input and in its sheet. -/
structure Holds (w : Window) (text : List Char) : Prop where
  input : w.input = text
  formula : w.sheet.formula = text

theorem Holds.refresh {w : Window} {text : List Char} (h : w.Holds text) :
    w.refresh.window.Holds text where
  input := w.input_refresh.trans h.input
  formula := by rw [sheet_refresh, h.formula]

/-- What is typed is the formula from then on. If it is what the input holds already the sheet is
for it too, though the input tells of nothing. -/
theorem Holds.editFormula {w : Window} {old : List Char} (h : w.Holds old) (text : List Char) :
    (w.editFormula text).window.Holds text := by
  by_cases hsame : text = w.input
  · rw [editFormula_of_eq hsame, hsame, h.input]
    exact h
  · have hchanged : (w.withFormula text).Holds text := ⟨rfl, rfl⟩
    rw [editFormula_of_ne hsame]
    exact hchanged.refresh

theorem Holds.editField {w : Window} {formula : List Char} (h : w.Holds formula)
    (name text : List Char) : (w.editField name text).window.Holds formula := by
  rcases w.editField_cases name text with hquiet | ⟨-, hedit⟩
  · rw [hquiet]
    exact h
  · have hchanged : (w.withFieldText name text).Holds formula := ⟨h.input, h.formula⟩
    rw [hedit]
    exact hchanged.refresh

theorem Holds.reload {w : Window} {text : List Char} (h : w.Holds text) (s : Settings) :
    (w.reload s).window.Holds text where
  input := (w.input_reload s).trans h.input
  formula := by rw [sheet_reload, h.formula]

/-- Another text in a field. -/
theorem editField_of_ne {w : Window} {name text : List Char} {field : Field}
    (hfind : w.fields.find? (·.name == name) = some field) (h : text ≠ field.text) :
    w.editField name text = (w.withFieldText name text).refresh := by
  unfold editField
  rw [hfind]
  exact if_neg h

end Window

namespace Desk

/-- The formula after an event. -/
def formulaAfter (formula : List Char) : Event → List Char
  | .typeFormula text => text
  | .reset => []
  | _ => formula

/-- What was last typed in the formula input, or nothing if the window has been cleared since. -/
def typedFormula (events : List Event) : List Char := events.foldl formulaAfter []

theorem holds_step {d : Desk} {formula : List Char} (h : d.window.Holds formula) (e : Event) :
    (d.step e).1.window.Holds (formulaAfter formula e) := by
  cases e with
  | typeFormula text => exact h.editFormula text
  | typeField name text => exact h.editField name text
  | reset => exact ⟨rfl, rfl⟩
  | press key => cases key <;> exact ⟨h.input, h.formula⟩
  | release key => cases key <;> exact ⟨h.input, h.formula⟩
  | click button =>
    cases button with
    | left =>
      show d.window.clickResult.window.Holds formula
      rwa [Window.window_clickResult]
    | other => exact h
  | copy =>
    show d.window.copy.window.Holds formula
    rwa [Window.window_copy]
  | look => exact h
  | settings actions =>
    show (d.openSettings actions).1.window.Holds formula
    unfold openSettings
    split
    · exact h
    · dsimp only
      split
      · exact h
      · exact h.reload _

/-- What was last typed is the formula at any time of a session, also if handlers break down. -/
theorem holds_run {settingsFile descriptionsFile : Place} {d : Desk}
    (h : start settingsFile descriptionsFile = .ok d) (events : List Event) :
    (d.run events).window.Holds (typedFormula events) := by
  induction events using List.reverseRecOn with
  | nil =>
    obtain ⟨s, -, rfl⟩ := ofSettings_of_start h
    exact ⟨rfl, rfl⟩
  | append_singleton events e ih =>
    rw [run_concat, typedFormula, List.foldl_append]
    exact holds_step ih e

/-! ## The fields of variables -/

/-- The user types another text in the field of a name. -/
def TypesIn (name : List Char) (d : Desk) (e : Event) : Prop :=
  ∃ text field, e = .typeField name text ∧
    d.window.fields.find? (·.name == name) = some field ∧ text ≠ field.text

/-- The names of the variables change, or the window is cleared. -/
def RebuildsFields (d : Desk) : Event → Prop
  | .typeFormula text =>
    text ≠ d.window.input ∧ (d.window.sheet.withFormula text).names ≠ d.window.sheet.names
  | .reset => True
  | _ => False

/-- Something has been typed in the field of a name, and since then the fields have not been
rebuilt. -/
def TypedIn (name : List Char) : Desk → List Event → Prop := Since (TypesIn name) RebuildsFields

/-! ## One event -/

/-- What an event does to the sheet and the fields. -/
inductive FieldTurn (d : Desk) (e : Event) : Sheet → List Field → Prop
  | same (idle : ∀ name, ¬ d.TypesIn name e) (keeps : ¬ d.RebuildsFields e) :
      FieldTurn d e d.window.sheet d.window.fields
  | formula {text : List Char} (idle : ∀ name, ¬ d.TypesIn name e) (keeps : ¬ d.RebuildsFields e)
      (names : (d.window.sheet.withFormula text).names = d.window.sheet.names) :
      FieldTurn d e (d.window.sheet.withFormula text) d.window.fields
  | rebuilt {text : List Char} (idle : ∀ name, ¬ d.TypesIn name e)
      (rebuilds : d.RebuildsFields e) :
      FieldTurn d e (d.window.sheet.withFormula text)
        (Window.fieldsOf (d.window.sheet.withFormula text))
  | cleared : FieldTurn d e .empty []
  | typed {name text : List Char} (types : d.TypesIn name e)
      (idle : ∀ n, n ≠ name → ¬ d.TypesIn n e) (keeps : ¬ d.RebuildsFields e) :
      FieldTurn d e (d.window.sheet.withVariable name text)
        (d.window.fields.map fun f => if f.name = name then { f with text } else f)

variable {d : Desk} {e : Event}

theorem not_typesIn_of_ne {name : List Char} (h : ∀ n text, e ≠ .typeField n text) :
    ¬ d.TypesIn name e := by
  rintro ⟨text, field, heq, -⟩
  exact h name text heq

/-- What neither types in a field nor rebuilds the fields may leave all as it is. -/
theorem fieldTurn_idle (h : ∀ n text, e ≠ .typeField n text) (keeps : ¬ d.RebuildsFields e) :
    FieldTurn d e d.window.sheet d.window.fields :=
  .same (fun _ => not_typesIn_of_ne h) keeps

theorem fieldTurn_typeFormula (d : Desk) (text : List Char) :
    FieldTurn d (.typeFormula text) (d.window.editFormula text).window.sheet
      (d.window.editFormula text).window.fields := by
  have hidle : ∀ name, ¬ d.TypesIn name (.typeFormula text) :=
    fun name => not_typesIn_of_ne fun _ _ => Event.noConfusion
  by_cases hsame : text = d.window.input
  · rw [Window.editFormula_of_eq hsame]
    exact .same hidle fun h => h.1 hsame
  · rw [Window.editFormula_of_ne hsame, Window.sheet_refresh, Window.fields_refresh]
    by_cases hnames : (d.window.sheet.withFormula text).names = d.window.sheet.names
    · have hfields : (d.window.withFormula text).fields = d.window.fields := by
        simp [Window.withFormula, Sheet.namesDiffer, hnames]
      rw [hfields]
      exact .formula hidle (fun h => h.2 hnames) hnames
    · have hfields : (d.window.withFormula text).fields =
          Window.fieldsOf (d.window.sheet.withFormula text) := by
        simp [Window.withFormula, Sheet.namesDiffer, hnames]
      rw [hfields]
      exact .rebuilt hidle ⟨hsame, hnames⟩

theorem fieldTurn_typeField (d : Desk) (name text : List Char) :
    FieldTurn d (.typeField name text) (d.window.editField name text).window.sheet
      (d.window.editField name text).window.fields := by
  have hkeeps : ¬ d.RebuildsFields (.typeField name text) := id
  unfold Window.editField
  split
  · rename_i hnone
    refine .same ?_ hkeeps
    rintro n ⟨t, field, heq, hfind, -⟩
    cases heq
    rw [hnone] at hfind
    cases hfind
  · rename_i field hsome
    split
    · rename_i hsame
      refine .same ?_ hkeeps
      rintro n ⟨t, field', heq, hfind, hne⟩
      cases heq
      rw [hsome] at hfind
      cases hfind
      exact hne hsame
    · rename_i hne
      dsimp only
      rw [Window.variableChanged, Window.sheet_refresh, Window.fields_refresh]
      refine .typed ⟨text, field, rfl, hsome, hne⟩ ?_ hkeeps
      rintro n hn ⟨t, -, heq, -⟩
      cases heq
      exact hn rfl

theorem fieldTurn_settings (d : Desk) (actions : List Dialog.Action) :
    FieldTurn d (.settings actions) (d.openSettings actions).1.window.sheet
      (d.openSettings actions).1.window.fields := by
  have hsame : FieldTurn d (.settings actions) d.window.sheet d.window.fields :=
    fieldTurn_idle (fun _ _ => Event.noConfusion) id
  unfold openSettings
  split
  · exact hsame
  · dsimp only
    split
    · exact hsame
    · dsimp only
      rwa [Window.sheet_reload, Window.fields_reload]

/-- What an event does to the sheet and the fields. -/
theorem fieldTurn_step (d : Desk) (e : Event) :
    FieldTurn d e (d.step e).1.window.sheet (d.step e).1.window.fields := by
  cases e with
  | typeFormula text => exact fieldTurn_typeFormula d text
  | typeField name text => exact fieldTurn_typeField d name text
  | settings actions => exact fieldTurn_settings d actions
  | reset => exact .cleared
  | press key => cases key <;> exact fieldTurn_idle (fun _ _ => Event.noConfusion) id
  | release key => cases key <;> exact fieldTurn_idle (fun _ _ => Event.noConfusion) id
  | click button =>
    cases button with
    | left =>
      show FieldTurn d _ d.window.clickResult.window.sheet d.window.clickResult.window.fields
      rw [Window.window_clickResult]
      exact fieldTurn_idle (fun _ _ => Event.noConfusion) id
    | other => exact fieldTurn_idle (fun _ _ => Event.noConfusion) id
  | copy =>
    show FieldTurn d _ d.window.copy.window.sheet d.window.copy.window.fields
    rw [Window.window_copy]
    exact fieldTurn_idle (fun _ _ => Event.noConfusion) id
  | look => exact fieldTurn_idle (fun _ _ => Event.noConfusion) id

/-! ## Sessions -/

/-- A field holds what has been typed for its variable, or else the value in six digits. -/
def Shows (typed : Prop) (s : Sheet) (f : Field) : Prop :=
  ∃ x, s.value? f.name = some x ∧ (typed → Entry.number f.text = x) ∧
    (¬ typed → f.text = x.writtenShort)

theorem shows_fieldsOf {s : Sheet} {f : Field} (h : f ∈ Window.fieldsOf s) {typed : Prop}
    (htyped : ¬ typed) : Shows typed s f := by
  obtain ⟨⟨name, x⟩, hmem, rfl⟩ := List.mem_map.1 h
  exact ⟨x, Sheet.value?_of_mem hmem, fun h => absurd h htyped, fun _ => rfl⟩

/-- The values of names that stay are kept. -/
theorem Shows.withFormula {typed : Prop} {s : Sheet} {f : Field} (h : Shows typed s f)
    {text : List Char} (names : (s.withFormula text).names = s.names) :
    Shows typed (s.withFormula text) f := by
  obtain ⟨x, hx, htext⟩ := h
  have hmem : f.name ∈ Token.identifiers text := by
    rw [← Sheet.names_withFormula s text, names]
    by_contra hnot
    rw [Sheet.value?_eq_none_iff.2 hnot] at hx
    cases hx
  refine ⟨x, ?_, htext⟩
  rw [Sheet.value?_withFormula, if_pos (List.contains_iff_mem.2 hmem), hx]
  rfl

/-- Typing in the field of another name makes no difference. -/
theorem Shows.withVariable {typed : Prop} {s : Sheet} {f : Field} (h : Shows typed s f)
    {name : List Char} (hname : name ≠ f.name) (text : List Char) :
    Shows typed (s.withVariable name text) f := by
  obtain ⟨x, hx, htext⟩ := h
  refine ⟨x, ?_, htext⟩
  rwa [Sheet.value?_withVariable, if_neg hname]

/-- What is typed in a field is what its variable gets. -/
theorem Shows.typed {typed : Prop} {s : Sheet} {f : Field} (h : Shows typed s f)
    (text : List Char) {typed' : Prop} (htyped : typed') :
    Shows typed' (s.withVariable f.name text) { f with text } := by
  obtain ⟨x, hx, -⟩ := h
  refine ⟨Entry.number text, ?_, fun _ => rfl, fun hnot => absurd htyped hnot⟩
  rw [Sheet.value?_withVariable, if_pos rfl, hx]
  rfl

/-- What each field holds at any time of a session. -/
theorem shows_run (h : d.window.fields = []) (events : List Event) :
    ∀ f ∈ (d.run events).window.fields,
      Shows (d.TypedIn f.name events) (d.run events).window.sheet f := by
  induction events using List.reverseRecOn with
  | nil =>
    intro f hf
    rw [run_nil, h] at hf
    cases hf
  | append_singleton events e ih =>
    have hturn := fieldTurn_step (d.run events) e
    rw [run_concat]
    unfold TypedIn at ih ⊢
    -- what is typed after the event, if the event rebuilds nothing and types nothing for the name
    have hstill : ∀ name, ¬ (d.run events).TypesIn name e → ¬ (d.run events).RebuildsFields e →
        (Since (TypesIn name) RebuildsFields d (events ++ [e]) ↔
          Since (TypesIn name) RebuildsFields d events) := by
      intro name htypes hrebuilds
      rw [since_concat, or_iff_right htypes, and_iff_left hrebuilds]
    generalize ((d.run events).step e).1.window.sheet = s at hturn ⊢
    generalize ((d.run events).step e).1.window.fields = fields at hturn ⊢
    intro f hf
    cases hturn with
    | same idle keeps =>
      rw [hstill f.name (idle f.name) keeps]
      exact ih f hf
    | formula idle keeps names =>
      rw [hstill f.name (idle f.name) keeps]
      exact (ih f hf).withFormula names
    | cleared => cases hf
    | rebuilt idle rebuilds =>
      refine shows_fieldsOf hf ?_
      rw [since_concat]
      rintro (htypes | ⟨-, hkeeps⟩)
      · exact idle f.name htypes
      · exact hkeeps rebuilds
    | @typed name text types idle keeps =>
      obtain ⟨g, hg, rfl⟩ := List.mem_map.1 hf
      by_cases hname : g.name = name
      · subst hname
        rw [if_pos rfl]
        exact (ih g hg).typed text (since_concat.2 (.inl types))
      · rw [if_neg hname, hstill g.name (idle g.name hname) keeps]
        exact (ih g hg).withVariable (Ne.symm hname) text

theorem sound_sheet_run (h : d.window.sheet.Sound) (events : List Event) :
    (d.run events).window.sheet.Sound := by
  induction events using List.reverseRecOn with
  | nil => exact h
  | append_singleton events e ih =>
    have hturn := fieldTurn_step (d.run events) e
    rw [run_concat]
    generalize ((d.run events).step e).1.window.sheet = s at hturn ⊢
    generalize ((d.run events).step e).1.window.fields = fields at hturn
    cases hturn with
    | same => exact ih
    | formula | rebuilt => exact Sheet.sound_withFormula ih _
    | cleared => exact Sheet.sound_ofFormula []
    | typed => exact Sheet.sound_withVariable ih _ _

/-- At any time of a session a field stands for the value of its variable exactly if something has
been typed in it since the fields were last rebuilt, or if six digits are enough for the value.
Otherwise it holds the value in six digits, and stands for the double nearest to them. -/
theorem same_number_text_iff {settingsFile descriptionsFile : Place}
    (h : start settingsFile descriptionsFile = .ok d) {events : List Event} {f : Field}
    (hf : f ∈ (d.run events).window.fields) :
    ∃ x, (d.run events).window.sheet.value? f.name = some x ∧
      ((Entry.number f.text).same x = true ↔ d.TypedIn f.name events ∨ x.sixDigits = x) ∧
      (¬ d.TypedIn f.name events →
        f.text = x.writtenShort ∧ Entry.number f.text = x.sixDigits) := by
  have hstart : d.window.fields = [] ∧ d.window.sheet.Sound := by
    obtain ⟨s, -, rfl⟩ := ofSettings_of_start h
    exact ⟨rfl, Sheet.sound_ofFormula []⟩
  obtain ⟨x, hx, htyped, hrebuilt⟩ := shows_run hstart.1 events f hf
  have hfinite : x.isFinite = true := Sheet.isFinite_value? (sound_sheet_run hstart.2 events) hx
  refine ⟨x, hx, ?_, ?_⟩
  · by_cases hin : d.TypedIn f.name events
    · rw [htyped hin]
      exact iff_of_true x.same_self (.inl hin)
    · rw [hrebuilt hin, Binary64.number_writtenShort hfinite, Binary64.same_sixDigits_iff hfinite,
        or_iff_right hin]
  · intro hin
    rw [hrebuilt hin]
    exact ⟨rfl, Binary64.number_writtenShort hfinite⟩

/-- The field of a variable for which nothing has been typed. -/
theorem same_number_text_iff_zero :
    ∃ d, start .missing .missing = .ok d ∧
      ∃ f ∈ (d.run [.typeFormula ['a']]).window.fields,
        ∃ x, (d.run [.typeFormula ['a']]).window.sheet.value? f.name = some x ∧
          ((Entry.number f.text).same x = true ↔
            d.TypedIn f.name [.typeFormula ['a']] ∨ x.sixDigits = x) ∧
          (¬ d.TypedIn f.name [.typeFormula ['a']] →
            f.text = x.writtenShort ∧ Entry.number f.text = x.sixDigits) := by
  have hf : ⟨['a'], ['a', ':'], ['0']⟩ ∈
      (initial.run [.typeFormula ['a']]).window.fields := by
    show _ ∈ (Window.editFormula _ _).window.fields
    rw [Window.editFormula_of_ne (by decide +kernel), Window.fields_refresh]
    decide +kernel
  exact ⟨_, start_missing, _, hf, same_number_text_iff start_missing hf⟩

/-- A value of seven digits is typed, and its field is rebuilt for another variable. -/
theorem not_same_number_text :
    ∃ d, start .missing .missing = .ok d ∧
      ∃ f ∈ (d.run [.typeFormula ['a'], .typeField ['a'] "1234567".toList,
          .typeFormula ['a', '+', 'b']]).window.fields,
        ∃ x, (d.run [.typeFormula ['a'], .typeField ['a'] "1234567".toList,
            .typeFormula ['a', '+', 'b']]).window.sheet.value? f.name = some x ∧
          (Entry.number f.text).same x = false := by
  let w := Window.ofSettings Settings.default
  let w₁ := (w.withFormula ['a']).refresh.window
  let w₂ := (w₁.withFieldText ['a'] "1234567".toList).refresh.window
  have h₁ : w.editFormula ['a'] = (w.withFormula ['a']).refresh :=
    Window.editFormula_of_ne (by decide +kernel)
  have h₂ : w₁.editField ['a'] "1234567".toList =
      (w₁.withFieldText ['a'] "1234567".toList).refresh := by
    have hfind : w₁.fields.find? (·.name == ['a']) = some ⟨['a'], ['a', ':'], ['0']⟩ := by
      rw [Window.fields_refresh]
      decide +kernel
    exact Window.editField_of_ne hfind (by decide +kernel)
  have h₃ : w₂.editFormula ['a', '+', 'b'] = (w₂.withFormula ['a', '+', 'b']).refresh := by
    apply Window.editFormula_of_ne
    rw [Window.input_refresh, Window.withFieldText, Window.input_refresh]
    decide +kernel
  have hrun : (initial.run [.typeFormula ['a'], .typeField ['a'] "1234567".toList,
      .typeFormula ['a', '+', 'b']]).window =
      (w₂.withFormula ['a', '+', 'b']).refresh.window := by
    show (((w.editFormula _).window.editField _ _).window.editFormula _).window = _
    rw [h₁, h₂, h₃]
  refine ⟨initial, start_missing, ?_⟩
  rw [hrun, Window.fields_refresh, Window.sheet_refresh]
  simp only [Window.withFormula, Window.withFieldText, w₂, w₁, Window.sheet_refresh,
    Window.fields_refresh]
  refine ⟨⟨['a'], ['a', ':'], "1.23457e+06".toList⟩, ?_, Entry.number "1234567".toList, ?_, ?_⟩ <;>
    decide +kernel

end Desk
end Reckon
