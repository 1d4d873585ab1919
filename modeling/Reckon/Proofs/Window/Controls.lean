import Reckon.Proofs.Entry.Numeral
import Reckon.Proofs.Settings.Store
import Reckon.Window.Dialog

/-!
# What the controls of the settings dialog say

A press of the accept button takes values over control by control, up to the
first one that is refused. For each setting this is the value that its own
control says, unless a control up to it is refused (`taken?`).

Results:

* `takeOver_fst`, `takeOver_snd_eq_none_iff`: what a press makes of the settings, and when it is
  refused.
* `refused_iff`: what is refused.
* `fits_controlsFor`, `Fits.controlOf`: which control each setting has.
-/

namespace Reckon

open Settings (ofTexts)

/-- A setting that is there gets its value in its place. -/
theorem Settings.set_text_of_mem {s : Settings} {key : String}
    (h : SettingName.text key ∈ s.map Prod.fst) (v : Json.Value) :
    s.set (.text key) v = s.map fun p => (p.1, if p.1 = .text key then v else p.2) := by
  obtain ⟨p, hp, hname⟩ := List.mem_map.1 h
  have hany : s.any (·.1.same (.text key)) = true := by
    refine List.any_eq_true.2 ⟨p, hp, ?_⟩
    rw [SettingName.same_text_right, hname]
    exact decide_eq_true rfl
  unfold set
  rw [if_pos hany]
  refine List.map_congr_left fun q _ => ?_
  rw [SettingName.same_text_right]
  by_cases hq : q.1 = .text key <;> simp [hq]

namespace Dialog

/-- Some control says nothing that can be taken over. -/
def Refused (cs : List (SettingName × Control)) : Prop :=
  ∃ p ∈ cs, ∃ message, newValue p.1 p.2 = .error message

/-- The value that a press takes over for a setting. -/
def taken? : List (SettingName × Control) → SettingName → Option Json.Value
  | [], _ => none
  | (n, c) :: rest, name =>
    match newValue n c with
    | .error _ => none
    | .ok v => if n = name then v else taken? rest name

/-- The settings after a press. -/
def pressed (s : Settings) (cs : List (SettingName × Control)) : Settings :=
  s.map fun p => (p.1, (taken? cs p.1).getD p.2)

variable {cs : List (SettingName × Control)} {name : SettingName} {c : Control}

/-! ## Values that are taken over -/

theorem taken?_eq_none_of_not_mem (h : name ∉ cs.map Prod.fst) : taken? cs name = none := by
  induction cs with
  | nil => rfl
  | cons p cs ih =>
    obtain ⟨n, c⟩ := p
    have hne : n ≠ name := fun heq => h (heq ▸ List.mem_cons_self)
    have hrest : name ∉ cs.map Prod.fst := fun hmem => h (List.mem_cons_of_mem n hmem)
    rw [taken?]
    split
    · rfl
    · rw [if_neg hne]
      exact ih hrest

/-- Where nothing is refused, each setting gets what its control says. -/
theorem newValue_eq_taken? (hnodup : (cs.map Prod.fst).Nodup) (accepted : ¬ Refused cs)
    (hmem : (name, c) ∈ cs) : newValue name c = .ok (taken? cs name) := by
  induction cs with
  | nil => cases hmem
  | cons p cs ih =>
    obtain ⟨n, c'⟩ := p
    obtain ⟨hnew, hrest⟩ := List.nodup_cons.1 hnodup
    have haccepted : ¬ Refused cs := by
      rintro ⟨q, hq, hrefused⟩
      exact accepted ⟨q, List.mem_cons_of_mem _ hq, hrefused⟩
    rw [taken?]
    cases hvalue : newValue n c' with
    | error message => exact absurd ⟨(n, c'), List.mem_cons_self, message, hvalue⟩ accepted
    | ok v =>
      dsimp only
      rcases List.mem_cons.1 hmem with heq | hmem
      · cases heq
        rw [hvalue, if_pos rfl]
      · have hne : n ≠ name := by
          rintro rfl
          exact hnew (List.mem_map.2 ⟨_, hmem, rfl⟩)
        rw [if_neg hne]
        exact ih hrest haccepted hmem

/-- What is refused is an input that is filled, but not with a whole number, or with too small a
number of places. -/
theorem refused_iff :
    Refused cs ↔ ∃ name label text placeholder, (name, .input label text placeholder) ∈ cs ∧
      Text.trim text ≠ [] ∧ ∀ n, Entry.integer (Text.trim text) = .ok n →
        name = .text "decimal_places" ∧ n < leastPlaces := by
  constructor
  · rintro ⟨⟨name, c⟩, hmem, message, hrefused⟩
    cases c with
    | checkbox caption checked => cases hrefused
    | input label text placeholder =>
      refine ⟨name, label, text, placeholder, hmem, ?_⟩
      unfold newValue at hrefused
      dsimp only at hrefused
      split at hrefused
      · cases hrefused
      · rename_i hentry
        refine ⟨hentry, fun n hn => ?_⟩
        rw [hn] at hrefused
        dsimp only at hrefused
        split at hrefused
        · assumption
        · cases hrefused
  · rintro ⟨name, label, text, placeholder, hmem, hentry, hsmall⟩
    refine ⟨_, hmem, ?_⟩
    unfold newValue
    dsimp only
    rw [if_neg hentry]
    cases hn : Entry.integer (Text.trim text) with
    | error fault => exact ⟨_, rfl⟩
    | ok n => exact ⟨_, if_pos (hsmall n hn)⟩

/-- A value that is taken over can be written. -/
theorem proper_of_newValue {v : Json.Value} (h : newValue name c = .ok (some v)) : v.Proper := by
  unfold newValue at h
  split at h
  · cases h
    exact .bool _
  · dsimp only at h
    split at h
    · cases h
    · split at h
      · cases h
      · rename_i n hinteger
        split at h
        · cases h
        · cases h
          exact .integer (Entry.length_digits_of_integer hinteger)

theorem proper_of_taken? {v : Json.Value} (h : taken? cs name = some v) : v.Proper := by
  induction cs with
  | nil => cases h
  | cons p cs ih =>
    obtain ⟨n, c⟩ := p
    rw [taken?] at h
    split at h
    · cases h
    · rename_i w hw
      split at h
      · subst h
        exact proper_of_newValue hw
      · exact ih h

/-! ## A press -/

theorem takeOver_snd_eq_none_iff (s : Settings) : (takeOver s cs).2 = none ↔ ¬ Refused cs := by
  induction cs generalizing s with
  | nil =>
    refine iff_of_true rfl ?_
    rintro ⟨p, hp, -⟩
    cases hp
  | cons p cs ih =>
    obtain ⟨n, c⟩ := p
    have hrefused :
        Refused ((n, c) :: cs) ↔ (∃ message, newValue n c = .error message) ∨ Refused cs := by
      simp only [Refused, List.mem_cons, exists_eq_or_imp]
    rw [hrefused, takeOver]
    cases hvalue : newValue n c with
    | error message => simp
    | ok v =>
      cases v with
      | none => simpa using ih s
      | some w => simpa using ih (s.set n w)

/-- What a press makes of the settings. -/
theorem takeOver_fst {s : Settings} (hnodup : (cs.map Prod.fst).Nodup)
    (hnames : ∀ n ∈ cs.map Prod.fst, ∃ key, n = .text key ∧ n ∈ s.map Prod.fst) :
    (takeOver s cs).1 = pressed s cs := by
  induction cs generalizing s with
  | nil => exact (List.map_id' s).symm
  | cons p cs ih =>
    obtain ⟨n, c⟩ := p
    obtain ⟨hnew, hrest⟩ := List.nodup_cons.1 hnodup
    have htaken := taken?_eq_none_of_not_mem hnew
    have hothers : ∀ m ∈ cs.map Prod.fst, ∃ key, m = .text key ∧ m ∈ s.map Prod.fst :=
      fun m hm => hnames m (List.mem_cons_of_mem n hm)
    unfold takeOver pressed taken?
    cases hvalue : newValue n c with
    | error message => exact (List.map_id' s).symm
    | ok v =>
      cases v with
      | none =>
        dsimp only
        rw [ih hrest hothers]
        refine List.map_congr_left fun p _ => ?_
        by_cases hp : n = p.1
        · rw [if_pos hp, ← hp, htaken]
        · rw [if_neg hp]
      | some w =>
        dsimp only
        obtain ⟨key, rfl, hmem⟩ := hnames n List.mem_cons_self
        have hset := Settings.set_text_of_mem hmem w
        have hsame : (s.set (.text key) w).map Prod.fst = s.map Prod.fst := by
          rw [hset, List.map_map]
          rfl
        rw [ih hrest (by rwa [hsame]), pressed, hset, List.map_map]
        refine List.map_congr_left fun p _ => ?_
        by_cases hp : p.1 = .text key
        · simp [hp, htaken]
        · simp [hp, Ne.symm hp]

/-! ## The controls of settings -/

/-- Each setting that is a truth value has a checkbox, and each that is a whole number has an input;
other settings have no control. -/
inductive Fits : Settings → List (SettingName × Control) → Prop
  | nil : Fits [] []
  | checkbox {n : SettingName} {b : Bool} {s : Settings} {caption : Json.Value} {checked : Bool}
      {cs : List (SettingName × Control)} (rest : Fits s cs) :
      Fits ((n, .bool b) :: s) ((n, .checkbox caption checked) :: cs)
  | input {n : SettingName} {m : Int} {s : Settings} {label text placeholder : List Char}
      {cs : List (SettingName × Control)} (rest : Fits s cs) :
      Fits ((n, .integer m) :: s) ((n, .input label text placeholder) :: cs)
  | other {n : SettingName} {v : Json.Value} {s : Settings} {cs : List (SettingName × Control)}
      (bool : ∀ b, v ≠ .bool b) (integer : ∀ m, v ≠ .integer m) (rest : Fits s cs) :
      Fits ((n, v) :: s) cs

variable {s : Settings}

theorem fits_controlsFor {descriptions : List (String × Json.Value)}
    (h : controlsFor descriptions s = .ok cs) : Fits s cs := by
  induction s generalizing cs with
  | nil =>
    cases h
    exact .nil
  | cons p s ih =>
    obtain ⟨n, v⟩ := p
    rw [controlsFor] at h
    dsimp only [bind, Except.bind] at h
    split at h
    · cases h
    rename_i control hcontrol
    split at h
    · cases h
    rename_i others hothers
    have hrest := ih hothers
    unfold controlFor at hcontrol
    split at hcontrol
    · cases hcontrol
      cases h
      exact .checkbox hrest
    · split at hcontrol
      · cases hcontrol
        cases h
        exact .input hrest
      · cases hcontrol
    · rename_i hbool hinteger
      cases hcontrol
      cases h
      exact .other hbool hinteger hrest

theorem Fits.names_sublist (h : Fits s cs) : (cs.map Prod.fst).Sublist (s.map Prod.fst) := by
  induction h with
  | nil => exact .slnil
  | checkbox _ ih => exact ih.cons_cons _
  | input _ ih => exact ih.cons_cons _
  | other _ _ _ ih => exact ih.cons _

/-- The control among the given ones of a setting with a given value. -/
inductive ControlOf (cs : List (SettingName × Control)) (name : SettingName) : Json.Value → Prop
  | checkbox {b : Bool} {caption : Json.Value} {checked : Bool}
      (mem : (name, .checkbox caption checked) ∈ cs) : ControlOf cs name (.bool b)
  | input {m : Int} {label text placeholder : List Char}
      (mem : (name, .input label text placeholder) ∈ cs) : ControlOf cs name (.integer m)
  | other {v : Json.Value} (bool : ∀ b, v ≠ .bool b) (integer : ∀ m, v ≠ .integer m)
      (absent : name ∉ cs.map Prod.fst) : ControlOf cs name v

theorem ControlOf.cons {n : SettingName} {v : Json.Value} (h : ControlOf cs name v)
    (hne : name ≠ n) : ControlOf ((n, c) :: cs) name v := by
  cases h with
  | checkbox mem => exact .checkbox (List.mem_cons_of_mem _ mem)
  | input mem => exact .input (List.mem_cons_of_mem _ mem)
  | other bool integer absent =>
    refine .other bool integer fun hmem => ?_
    rcases List.mem_cons.1 hmem with heq | hmem
    · exact hne heq
    · exact absent hmem

theorem Fits.controlOf (h : Fits s cs) (hnodup : (s.map Prod.fst).Nodup) {v : Json.Value}
    (hmem : (name, v) ∈ s) : ControlOf cs name v := by
  induction h with
  | nil => cases hmem
  | @checkbox n b s caption checked cs rest ih =>
    obtain ⟨hnew, hnodup⟩ := List.nodup_cons.1 hnodup
    rcases List.mem_cons.1 hmem with heq | htail
    · cases heq
      exact .checkbox List.mem_cons_self
    · refine (ih hnodup htail).cons ?_
      rintro rfl
      exact hnew (List.mem_map.2 ⟨_, htail, rfl⟩)
  | @input n m s label text placeholder cs rest ih =>
    obtain ⟨hnew, hnodup⟩ := List.nodup_cons.1 hnodup
    rcases List.mem_cons.1 hmem with heq | htail
    · cases heq
      exact .input List.mem_cons_self
    · refine (ih hnodup htail).cons ?_
      rintro rfl
      exact hnew (List.mem_map.2 ⟨_, htail, rfl⟩)
  | other hbool hinteger rest ih =>
    obtain ⟨hnew, hnodup⟩ := List.nodup_cons.1 hnodup
    rcases List.mem_cons.1 hmem with heq | htail
    · cases heq
      exact .other hbool hinteger fun hc => hnew (rest.names_sublist.subset hc)
    · exact ih hnodup htail

/-- The controls are still those of the settings after one of them has been changed. -/
theorem Fits.change {d : Dialog} (h : Fits s d.controls) (key : String) {f : Control → Control}
    (checkbox : ∀ caption checked, ∃ checked',
      f (.checkbox caption checked) = .checkbox caption checked')
    (input : ∀ label text placeholder, ∃ text',
      f (.input label text placeholder) = .input label text' placeholder) :
    Fits s (d.change key f).controls := by
  unfold Dialog.change
  dsimp only
  generalize d.controls = cs at h
  induction h with
  | nil => exact .nil
  | @checkbox n b s caption checked cs rest ih =>
    rw [List.map_cons]
    dsimp only
    split
    · obtain ⟨checked', hf⟩ := checkbox caption checked
      rw [hf]
      exact .checkbox ih
    · exact .checkbox ih
  | @input n m s label text placeholder cs rest ih =>
    rw [List.map_cons]
    dsimp only
    split
    · obtain ⟨text', hf⟩ := input label text placeholder
      rw [hf]
      exact .input ih
    · exact .input ih
  | other hbool hinteger rest ih => exact .other hbool hinteger ih

end Dialog
end Reckon
