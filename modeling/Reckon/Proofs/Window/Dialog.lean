import Mathlib.Data.List.Nodup
import Reckon.Proofs.Window.Controls

/-!
# A session in the settings dialog

The user changes controls and accepts, perhaps several times, until nothing is
refused. A press that is refused leaves the file, but what it has taken over
before the first refusal stays in the dialog. So what is saved in the end is what
the controls say at the last press, except that a number whose input is blank by
then is the one that an earlier press has taken over, and only if there is none
the one that was loaded.

Results:

* `use_of_open`: where a dialog is that is still open.
* `use_accept`: what one more press does, whether it is refused or not.
* `blank_input_saved`: an input that is left blank whose setting is changed.
-/

namespace Reckon

open Settings (ofTexts)
open Place (Savable)

namespace Dialog

/-! ## What the user has done -/

/-- The dialog after the user has done something to its controls. -/
def edited (d : Dialog) : Action → Dialog
  | .check name checked => d.change name (setChecked checked)
  | .typeText name text => d.change name (setText text)
  | .accept | .cancel => d

/-- What the controls are after actions. -/
def shown (d : Dialog) (actions : List Action) : List (SettingName × Control) :=
  (actions.foldl edited d).controls

/-- What the controls are at each press of the accept button. -/
def presses (d : Dialog) : List Action → List (List (SettingName × Control))
  | [] => []
  | a :: rest => (if a = .accept then [d.controls] else []) ++ (d.edited a).presses rest

/-- The value that presses have taken over last for a setting. -/
def lastTaken? (presses : List (List (SettingName × Control))) (name : SettingName) :
    Option Json.Value :=
  presses.reverse.findSome? fun cs => taken? cs name

theorem shown_concat (d : Dialog) (actions : List Action) (a : Action) :
    d.shown (actions ++ [a]) = ((actions.foldl edited d).edited a).controls := by
  unfold shown
  rw [List.foldl_append]
  rfl

theorem presses_concat (d : Dialog) (actions : List Action) (a : Action) :
    d.presses (actions ++ [a]) =
      d.presses actions ++ if a = .accept then [d.shown actions] else [] := by
  induction actions generalizing d with
  | nil => simp [presses, shown]
  | cons b actions ih =>
    rw [List.cons_append, presses, presses, ih, List.append_assoc]
    rfl

theorem names_edited (d : Dialog) (a : Action) :
    (d.edited a).controls.map Prod.fst = d.controls.map Prod.fst := by
  have hchange : ∀ key f, (d.change key f).controls.map Prod.fst = d.controls.map Prod.fst := by
    intro key f
    unfold change
    rw [List.map_map]
    rfl
  cases a with
  | check name checked => exact hchange name _
  | typeText name text => exact hchange name _
  | accept => rfl
  | cancel => rfl

theorem names_shown (d : Dialog) (actions : List Action) :
    (d.shown actions).map Prod.fst = d.controls.map Prod.fst := by
  unfold shown
  induction actions generalizing d with
  | nil => rfl
  | cons a actions ih => exact (ih (d.edited a)).trans (names_edited d a)

theorem names_of_mem_presses {d : Dialog} {actions : List Action}
    {cs : List (SettingName × Control)} (h : cs ∈ d.presses actions) :
    cs.map Prod.fst = d.controls.map Prod.fst := by
  induction actions generalizing d with
  | nil => cases h
  | cons a actions ih =>
    rcases List.mem_append.1 h with hcs | hcs
    · split at hcs
      · rw [List.mem_singleton.1 hcs]
      · cases hcs
    · exact (ih hcs).trans (names_edited d a)

theorem fits_shown {d : Dialog} {s : Settings} (h : Fits s d.controls) (actions : List Action) :
    Fits s (d.shown actions) := by
  unfold shown
  induction actions generalizing d with
  | nil => exact h
  | cons a actions ih =>
    apply ih
    cases a with
    | check name checked => exact h.change name (fun _ _ => ⟨_, rfl⟩) fun _ _ _ => ⟨_, rfl⟩
    | typeText name text => exact h.change name (fun _ _ => ⟨_, rfl⟩) fun _ _ _ => ⟨_, rfl⟩
    | accept => exact h
    | cancel => exact h

/-- What presses make of the settings. -/
theorem foldl_pressed (s : Settings) (presses : List (List (SettingName × Control))) :
    presses.foldl pressed s = s.map fun p => (p.1, (lastTaken? presses p.1).getD p.2) := by
  induction presses using List.reverseRecOn with
  | nil => exact (List.map_id' s).symm
  | append_singleton presses cs ih =>
    rw [List.foldl_append, ih]
    show pressed _ cs = _
    unfold pressed
    rw [List.map_map]
    refine List.map_congr_left fun p _ => ?_
    have hlast : lastTaken? (presses ++ [cs]) p.1 =
        (taken? cs p.1).or (lastTaken? presses p.1) := by
      unfold lastTaken?
      rw [List.reverse_append]
      cases h : taken? cs p.1 <;> simp [h]
    rw [hlast]
    show (p.1, (taken? cs p.1).getD ((lastTaken? presses p.1).getD p.2)) = _
    cases taken? cs p.1 <;> rfl

/-! ## Dialogs whose settings can be saved -/

/-- The settings after a press, as members. -/
def pressedMembers (members : List (String × Json.Value)) (cs : List (SettingName × Control)) :
    List (String × Json.Value) :=
  members.map fun m => (m.1, (taken? cs (.text m.1)).getD m.2)

/-- The settings of the dialog can be saved, and its controls are controls of settings. -/
structure Ready (d : Dialog) (place : Place) (members : List (String × Json.Value)) : Prop where
  settings : d.settings = ofTexts members
  savable : Savable members
  writable : place.Writable
  names : (d.controls.map Prod.fst).Sublist (d.settings.map Prod.fst)

variable {d : Dialog} {place : Place} {members : List (String × Json.Value)}

theorem savable_pressedMembers (h : Savable members) (cs : List (SettingName × Control)) :
    Savable (pressedMembers members cs) := by
  have hnames : (pressedMembers members cs).map Prod.fst = members.map Prod.fst := by
    unfold pressedMembers
    rw [List.map_map]
    rfl
  refine ⟨hnames ▸ h.nodup, hnames ▸ h.defaults, fun m hm => ?_⟩
  obtain ⟨old, hold, rfl⟩ := List.mem_map.1 hm
  cases htaken : taken? cs (.text old.1) with
  | none => simpa [htaken] using h.proper old hold
  | some v => simpa [htaken] using proper_of_taken? htaken

theorem pressed_ofTexts (members : List (String × Json.Value))
    (cs : List (SettingName × Control)) :
    pressed (ofTexts members) cs = ofTexts (pressedMembers members cs) := by
  unfold pressed ofTexts pressedMembers
  rw [List.map_map, List.map_map]
  rfl

theorem Ready.nodup (h : Ready d place members) : (d.settings.map Prod.fst).Nodup := by
  have hnames : d.settings.map Prod.fst = (members.map Prod.fst).map SettingName.text := by
    rw [h.settings, ofTexts, List.map_map, List.map_map]
    rfl
  rw [hnames]
  exact List.Nodup.map (fun _ _ => SettingName.text.inj) h.savable.nodup

theorem Ready.takeOver_fst (h : Ready d place members) :
    (takeOver d.settings d.controls).1 = pressed d.settings d.controls := by
  refine Dialog.takeOver_fst (h.nodup.sublist h.names) fun n hn => ?_
  have hmem := h.names.subset hn
  obtain ⟨p, hp, rfl⟩ := List.mem_map.1 hmem
  rw [h.settings] at hp
  obtain ⟨m, -, rfl⟩ := List.mem_map.1 hp
  exact ⟨m.1, rfl, hmem⟩

theorem Ready.pressed (h : Ready d place members) :
    Ready { d with settings := pressed d.settings d.controls } place
      (pressedMembers members d.controls) where
  settings := by rw [h.settings, pressed_ofTexts]
  savable := savable_pressedMembers h.savable _
  writable := h.writable
  names := by
    have hnames : (Dialog.pressed d.settings d.controls).map Prod.fst =
        d.settings.map Prod.fst := by
      unfold Dialog.pressed
      rw [List.map_map]
      rfl
    rw [hnames]
    exact h.names

theorem settings_edited (d : Dialog) (a : Action) : (d.edited a).settings = d.settings := by
  cases a <;> rfl

theorem Ready.edited (h : Ready d place members) (a : Action) :
    Ready (d.edited a) place members where
  settings := by rw [settings_edited, h.settings]
  savable := h.savable
  writable := h.writable
  names := by
    rw [names_edited, settings_edited]
    exact h.names

theorem isEmpty_ofTexts (h : Savable members) : (ofTexts members).isEmpty = false := by
  cases members with
  | nil => exact absurd (List.prefix_nil.1 h.defaults) (by decide)
  | cons m members => rfl

/-! ## A press -/

/-- A press that is refused leaves the file, and the dialog open. -/
theorem accept_of_refused {s : Session} (h : Ready s.dialog s.settingsFile members)
    (refused : Refused s.dialog.controls) :
    s.accept.closing = s.closing ∧ s.accept.settingsFile = s.settingsFile ∧
      s.accept.dialog =
        { s.dialog with settings := Dialog.pressed s.dialog.settings s.dialog.controls } := by
  have hfst := h.takeOver_fst
  have hsnd : (takeOver s.dialog.settings s.dialog.controls).2 ≠ none := fun hnone =>
    (takeOver_snd_eq_none_iff s.dialog.settings).1 hnone refused
  unfold Session.accept
  generalize takeOver s.dialog.settings s.dialog.controls = result at hfst hsnd
  obtain ⟨settings, refusal⟩ := result
  cases refusal with
  | none => exact absurd rfl hsnd
  | some refusal =>
    subst hfst
    exact ⟨rfl, rfl, rfl⟩

/-- A press that is not refused saves the settings in full and closes the dialog. -/
theorem accept_of_not_refused {s : Session} (h : Ready s.dialog s.settingsFile members)
    (accepted : ¬ Refused s.dialog.controls) :
    s.accept.closing = some .accepted ∧
      s.accept.settingsFile = .file (Json.write
        (Dialog.pressed s.dialog.settings s.dialog.controls).toValue).1 ∧
      s.accept.settingsFile.loadAll =
        .ok (Dialog.pressed s.dialog.settings s.dialog.controls) := by
  have hfst := h.takeOver_fst
  have hsnd := (takeOver_snd_eq_none_iff s.dialog.settings).2 accepted
  have hpressed := h.pressed
  have hsettings : Dialog.pressed s.dialog.settings s.dialog.controls = _ := hpressed.settings
  obtain ⟨text, htext, hsave, hstores⟩ := hpressed.savable.save hpressed.writable
  have hloaded := hstores.loaded
  have hnonempty := isEmpty_ofTexts hpressed.savable
  rw [← hsettings] at htext hsave hloaded hnonempty
  unfold Session.accept
  generalize takeOver s.dialog.settings s.dialog.controls = result at hfst hsnd
  obtain ⟨settings, refusal⟩ := result
  dsimp only at hfst hsnd
  subst hfst
  subst hsnd
  dsimp only
  rw [hsave]
  dsimp only
  rw [hnonempty]
  exact ⟨rfl, congrArg Place.file htext, hloaded⟩

/-! ## Sessions -/

theorem use_concat (d : Dialog) (place : Place) (actions : List Action) (a : Action) :
    d.use place (actions ++ [a]) = (d.use place actions).act a :=
  List.foldl_append

theorem act_accept {s : Session} (isOpen : s.closing = none) : s.act .accept = s.accept := by
  rw [Session.act, isOpen]
  rfl

/-- A dialog that is open has been open before. -/
theorem closing_of_act {s : Session} {a : Action} (isOpen : (s.act a).closing = none) :
    s.closing = none := by
  unfold Session.act at isOpen
  cases hclosing : s.closing with
  | none => rfl
  | some closing =>
    rw [hclosing] at isOpen
    exact hclosing.symm.trans isOpen

/-- In a dialog that stays open anything but a press changes its controls only. -/
theorem act_of_open {s : Session} {a : Action} (isOpen : (s.act a).closing = none)
    (ha : a ≠ .accept) : s.act a = { s with dialog := s.dialog.edited a } := by
  have hbefore := closing_of_act isOpen
  unfold Session.act at isOpen ⊢
  rw [hbefore] at isOpen ⊢
  cases a with
  | check name checked => rfl
  | typeText name text => rfl
  | accept => exact absurd rfl ha
  | cancel => cases isOpen

/-- Where a dialog is that is still open: every press has been refused, and has taken something
over. -/
theorem use_of_open (h : Ready d place members) {actions : List Action}
    (isOpen : (d.use place actions).closing = none) :
    (d.use place actions).settingsFile = place ∧
      (d.use place actions).dialog =
        ⟨(d.presses actions).foldl Dialog.pressed d.settings, d.shown actions⟩ ∧
      ∃ members', Ready (d.use place actions).dialog place members' := by
  induction actions using List.reverseRecOn with
  | nil => exact ⟨rfl, rfl, members, h⟩
  | append_singleton actions a ih =>
    rw [use_concat] at isOpen ⊢
    have hbefore := closing_of_act isOpen
    obtain ⟨hfile, hdialog, members', hready⟩ := ih hbefore
    generalize d.use place actions = s at isOpen hbefore hfile hdialog hready ⊢
    by_cases ha : a = .accept
    · subst ha
      rw [act_accept hbefore] at isOpen ⊢
      rw [← hfile] at hready
      by_cases hrefused : Refused s.dialog.controls
      · obtain ⟨-, hsame, hpressed⟩ := accept_of_refused hready hrefused
        have hready' := hready.pressed
        rw [← hpressed, hfile] at hready'
        refine ⟨hsame.trans hfile, ?_, _, hready'⟩
        rw [hpressed, presses_concat, if_pos rfl, List.foldl_append, hdialog, shown_concat]
        rfl
      · have hclosed := (accept_of_not_refused hready hrefused).1
        rw [hclosed] at isOpen
        cases isOpen
    · rw [act_of_open isOpen ha]
      refine ⟨hfile, ?_, members', hready.edited a⟩
      show s.dialog.edited a = _
      rw [presses_concat, if_neg ha, List.append_nil, shown_concat, hdialog]
      cases a <;> rfl

theorem ready_of_opened {text : List Char} {all : List (String × Json.Value)}
    {descriptionsFile : Place} (holds : Json.HasMembers text all)
    (opened : Dialog.opened (.file text) descriptionsFile = .ok d) :
    Ready d (.file text) (Json.putMembers Settings.defaultMembers (Json.ofMembers all)) ∧
      Fits d.settings d.controls := by
  have hstores := Place.stores_of_holds (.object holds)
  unfold Dialog.opened at opened
  rw [hstores.loaded] at opened
  dsimp only [bind, Except.bind, Except.mapError] at opened
  split at opened
  · cases opened
  · split at opened
    · split at opened
      · cases opened
      · rename_i cs hcontrols
        have hfits := fits_controlsFor hcontrols
        cases opened
        exact ⟨⟨rfl, hstores.toSavable, hstores.writable, hfits.names_sublist⟩, hfits⟩
    · cases opened

/-! ## What is saved -/

/-- What a setting is saved as: what its control says at the last press. If that is nothing, it is
what an earlier press has taken over, or else what was loaded. -/
inductive Saves (earlier : List (List (SettingName × Control))) (cs : List (SettingName × Control))
    (name : SettingName) : Json.Value → Json.Value → Prop
  | checkbox {b : Bool} {caption : Json.Value} {checked : Bool}
      (shown : (name, .checkbox caption checked) ∈ cs) :
      Saves earlier cs name (.bool b) (.bool checked)
  | entered {m n : Int} {label text placeholder : List Char}
      (shown : (name, .input label text placeholder) ∈ cs) (entry : Text.trim text ≠ [])
      (whole : Entry.integer (Text.trim text) = .ok n) :
      Saves earlier cs name (.integer m) (.integer n)
  | blank {m : Int} {label text placeholder : List Char}
      (shown : (name, .input label text placeholder) ∈ cs) (entry : Text.trim text = []) :
      Saves earlier cs name (.integer m) ((lastTaken? earlier name).getD (.integer m))
  | other {v : Json.Value} (bool : ∀ b, v ≠ .bool b) (integer : ∀ m, v ≠ .integer m) :
      Saves earlier cs name v v

theorem saves_of_controlOf {earlier : List (List (SettingName × Control))}
    {cs : List (SettingName × Control)} {name : SettingName} {v : Json.Value}
    (h : ControlOf cs name v) (hnodup : (cs.map Prod.fst).Nodup) (accepted : ¬ Refused cs)
    (hearlier : ∀ cs' ∈ earlier, cs'.map Prod.fst = cs.map Prod.fst) :
    Saves earlier cs name v ((taken? cs name).getD ((lastTaken? earlier name).getD v)) := by
  cases h with
  | checkbox mem =>
    have htaken := newValue_eq_taken? hnodup accepted mem
    cases htaken' : taken? cs name with
    | none =>
      rw [htaken'] at htaken
      cases htaken
    | some w =>
      rw [htaken'] at htaken
      cases htaken
      exact .checkbox mem
  | input mem =>
    have htaken := newValue_eq_taken? hnodup accepted mem
    unfold newValue at htaken
    dsimp only at htaken
    split at htaken
    · rename_i hblank
      rw [← Except.ok.inj htaken]
      exact .blank mem hblank
    · rename_i hentry
      split at htaken
      · cases htaken
      · rename_i n hwhole
        split at htaken
        · cases htaken
        · rw [← Except.ok.inj htaken]
          exact .entered mem hentry hwhole
  | other bool integer absent =>
    have hnone : lastTaken? earlier name = none := by
      unfold lastTaken?
      rw [List.findSome?_eq_none_iff]
      intro cs' hcs'
      refine taken?_eq_none_of_not_mem ?_
      rw [hearlier cs' (List.mem_reverse.1 hcs')]
      exact absent
    rw [taken?_eq_none_of_not_mem absent, hnone]
    exact .other bool integer

/-- What one more press does in a dialog that is still open. If it is refused, the dialog stays open
and the file as it was, but values up to the first refusal are taken over. If it is not refused, the
settings are saved in full, in their order. -/
theorem use_accept {text : List Char} {all : List (String × Json.Value)} {descriptionsFile : Place}
    (holds : Json.HasMembers text all)
    (opened : Dialog.opened (.file text) descriptionsFile = .ok d)
    {actions : List Action} (isOpen : (d.use (.file text) actions).closing = none) :
    (Refused (d.shown actions) →
      (d.use (.file text) (actions ++ [.accept])).closing = none ∧
      (d.use (.file text) (actions ++ [.accept])).settingsFile = .file text ∧
      (d.use (.file text) (actions ++ [.accept])).dialog.settings =
        Dialog.pressed (d.use (.file text) actions).dialog.settings (d.shown actions)) ∧
    (¬ Refused (d.shown actions) →
      (d.use (.file text) (actions ++ [.accept])).closing = some .accepted ∧
      ∃ saved : Settings,
        (d.use (.file text) (actions ++ [.accept])).settingsFile =
          .file (Json.write saved.toValue).1 ∧
        (d.use (.file text) (actions ++ [.accept])).settingsFile.loadAll = .ok saved ∧
        List.Forall₂ (fun old new => new.1 = old.1 ∧
          Saves (d.presses actions) (d.shown actions) old.1 old.2 new.2) d.settings saved) := by
  obtain ⟨hready, hfits⟩ := ready_of_opened holds opened
  obtain ⟨hfile, hdialog, members', hready'⟩ := use_of_open hready isOpen
  rw [use_concat, act_accept isOpen]
  generalize d.use (.file text) actions = s at isOpen hfile hdialog hready' ⊢
  have hcontrols : s.dialog.controls = d.shown actions := by rw [hdialog]
  rw [← hfile] at hready'
  rw [← hcontrols]
  constructor
  · intro hrefused
    obtain ⟨hclosing, hsame, hpressed⟩ := accept_of_refused hready' hrefused
    exact ⟨hclosing.trans isOpen, hsame.trans hfile, by rw [hpressed]⟩
  · intro haccepted
    obtain ⟨hclosing, hsaved, hloaded⟩ := accept_of_not_refused hready' haccepted
    refine ⟨hclosing, _, hsaved, hloaded, ?_⟩
    have hsettings : s.dialog.settings =
        d.settings.map fun p => (p.1, (lastTaken? (d.presses actions) p.1).getD p.2) := by
      rw [hdialog, foldl_pressed]
    rw [hsettings, Dialog.pressed, List.map_map, List.forall₂_map_right_iff, List.forall₂_same]
    intro p hp
    refine ⟨rfl, ?_⟩
    have hnames : (s.dialog.controls.map Prod.fst).Nodup := by
      rw [hcontrols, names_shown]
      exact hready.nodup.sublist hready.names
    rw [hcontrols] at hnames haccepted ⊢
    have hcontrol := (fits_shown hfits actions).controlOf hready.nodup hp
    refine saves_of_controlOf hcontrol hnames haccepted ?_
    intro cs hcs
    rw [names_of_mem_presses hcs, names_shown]

/-- The members of a file with two whole numbers. -/
def twoNumbers : List (String × Json.Value) := [("a", .integer 1), ("b", .integer 2)]

/-- The text of the file. -/
def twoNumbersText : List Char := "\x7b\n    \"a\": 1,\n    \"b\": 2\n\x7d".toList

/-- The dialog for the file. -/
def twoNumbersDialog : Dialog :=
  ⟨ofTexts (Settings.defaultMembers ++ twoNumbers),
    [(.text "darkmode", .checkbox (.string "darkmode") false),
      (.text "decimal_places", .input "decimal_places (min. 2):".toList [] ['4']),
      (.text "fractions", .checkbox (.string "fractions") false),
      (.text "copy_on_click", .checkbox (.string "copy_on_click") true),
      (.text "debug", .checkbox (.string "debug") false),
      (.text "a", .input "a (min. 2):".toList [] ['1']),
      (.text "b", .input "b (min. 2):".toList [] ['2'])]⟩

theorem write_twoNumbers : Json.write (.object twoNumbers) = (twoNumbersText, true) := by
  decide +kernel

theorem read_twoNumbersText : Json.read twoNumbersText = .ok (.object twoNumbers) := by
  have hproper : (Json.Value.object twoNumbers).Proper := by
    refine .object (by decide) fun m hm => ?_
    simp only [twoNumbers, List.mem_cons, List.not_mem_nil, or_false] at hm
    rcases hm with rfl | rfl <;> exact .integer (by decide)
  have hread := (Json.read_write hproper).2
  rwa [write_twoNumbers] at hread

theorem opened_twoNumbers :
    Dialog.opened (.file twoNumbersText) .missing = .ok twoNumbersDialog := by
  unfold Dialog.opened
  rw [Place.loadAll_of_object read_twoNumbersText]
  rfl

/-- The dialog for the file, in which one number is changed. -/
theorem use_accept_seven :
    ∃ d saved, Dialog.opened (.file twoNumbersText) .missing = .ok d ∧
      (d.use (.file twoNumbersText) [.typeText "a" ['7'], .accept]).closing = some .accepted ∧
      (d.use (.file twoNumbersText) [.typeText "a" ['7'], .accept]).settingsFile.loadAll =
        .ok saved ∧
      List.Forall₂ (fun old new => new.1 = old.1 ∧
        Saves (d.presses [.typeText "a" ['7']]) (d.shown [.typeText "a" ['7']]) old.1 old.2 new.2)
        d.settings saved := by
  obtain ⟨all, hall, -⟩ := Json.read_eq_object_iff.1 read_twoNumbersText
  have hopen :
      (twoNumbersDialog.use (.file twoNumbersText) [.typeText "a" ['7']]).closing = none := rfl
  have haccepted : ¬ Refused (twoNumbersDialog.shown [.typeText "a" ['7']]) := by
    rw [← takeOver_snd_eq_none_iff twoNumbersDialog.settings]
    decide +kernel
  obtain ⟨hclosing, saved, -, hloaded, hsaves⟩ :=
    (use_accept hall opened_twoNumbers hopen).2 haccepted
  exact ⟨_, saved, opened_twoNumbers, hclosing, hloaded, hsaves⟩

/-- One number is typed while another is refused, and both inputs are blank when nothing is refused
any more: all the same the number that was typed is saved, and not the one that was loaded. -/
theorem blank_input_saved :
    ∃ d, Dialog.opened (.file twoNumbersText) .missing = .ok d ∧
      (.text "a", .integer 1) ∈ d.settings ∧
      (∃ label placeholder, (.text "a", .input label [] placeholder) ∈
        d.shown [.typeText "a" ['7'], .typeText "b" ['x'], .accept, .typeText "a" [],
          .typeText "b" []]) ∧
      (d.use (.file twoNumbersText) [.typeText "a" ['7'], .typeText "b" ['x'], .accept,
        .typeText "a" [], .typeText "b" [], .accept]).closing = some .accepted ∧
      (d.use (.file twoNumbersText) [.typeText "a" ['7'], .typeText "b" ['x'], .accept,
          .typeText "a" [], .typeText "b" [], .accept]).settingsFile =
        .file (Json.write (.object
          (Settings.defaultMembers ++ [("a", .integer 7), ("b", .integer 2)]))).1 := by
  refine ⟨twoNumbersDialog, opened_twoNumbers, by simp [twoNumbersDialog, twoNumbers, ofTexts],
    ⟨"a (min. 2):".toList, ['1'], ?_⟩, ?_, ?_⟩
  · simp [twoNumbersDialog, shown, edited, change, setText]
  · decide +kernel
  · decide +kernel

end Dialog
end Reckon
