import Reckon.Proofs.Json.Proper
import Reckon.Settings.Store

/-!
# The settings as a map with defaults

Whatever a settings file begins with, settings that are loaded have texts as
names, no two of them the same, the names of the defaults first, and values that
a settings text expresses (`Stores`). So what is saved is written in full and
loaded again as it was, and a run of updates is a run of members put one after
the other (`stores_updates`).

Results:

* `set_ofTexts`, `setPairs_ofTexts`: settings are set like members are put.
* `Savable.save`: saved settings are loaded as they have been saved.
* `load_updates`: what is loaded after any updates.
-/

namespace Reckon

open Json (putMember putMembers ofMembers lastValue?)

/-! ## Names -/

namespace SettingName

/-- What a name is compared by: a number by its units, any other name by itself. -/
def identity (name : SettingName) : Int ⊕ SettingName :=
  match name.units? with
  | some n => .inl n
  | none => .inr name

theorem same_iff {a b : SettingName} : a.same b = true ↔ a.identity = b.identity := by
  unfold same identity
  by_cases hab : a = b
  · subst hab
    cases a.units? <;> simp
  · cases a.units? <;> cases b.units? <;> simp [hab]

/-- Names that are the same are the same as the same names. -/
theorem same_congr {a b : SettingName} (h : a.same b = true) (name : SettingName) :
    name.same a = name.same b := by
  rw [Bool.eq_iff_iff, same_iff, same_iff, same_iff.1 h]

/-- No other name is the same as a text. -/
theorem same_text_right (name : SettingName) (key : String) :
    name.same (.text key) = decide (name = .text key) := by
  unfold same
  cases name.units? <;> exact beq_eq_decide name (.text key)

end SettingName

namespace Settings

/-! ## Settings whose names are texts -/

/-- The settings that members are. -/
def ofTexts (members : List (String × Json.Value)) : Settings :=
  members.map fun m => (.text m.1, m.2)

/-- The defaults as members. -/
def defaultMembers : List (String × Json.Value) := default.map fun p => (p.1.toMember, p.2)

theorem default_eq : default = ofTexts defaultMembers := rfl

theorem names_defaultMembers_nodup : (defaultMembers.map Prod.fst).Nodup := by decide

theorem toValue_ofTexts (members : List (String × Json.Value)) :
    (ofTexts members).toValue = .object members := by
  unfold toValue ofTexts
  rw [List.map_map]
  exact congrArg Json.Value.object (List.map_id' members)

theorem get?_ofTexts (members : List (String × Json.Value)) (key : String) :
    (ofTexts members).get? (.text key) = members.lookup key := by
  unfold get? ofTexts
  induction members with
  | nil => rfl
  | cons m members ih =>
    obtain ⟨name, v⟩ := m
    by_cases h : key = name
    · subst h
      simp [SettingName.same_text]
    · have hname : name ≠ key := Ne.symm h
      rw [List.map_cons, List.find?_cons_of_neg (by simpa [SettingName.same_text] using hname), ih,
        List.lookup_cons, beq_false_of_ne h]

/-- A setting is set like a member is put. -/
theorem set_ofTexts (members : List (String × Json.Value)) (key : String) (v : Json.Value) :
    (ofTexts members).set (.text key) v = ofTexts (putMember members key v) := by
  have hany : (ofTexts members).any (·.1.same (.text key)) = members.any (·.1 == key) := by
    unfold ofTexts
    rw [List.any_map]
    congr 1
    funext m
    exact SettingName.same_text m.1 key
  unfold set putMember
  rw [hany]
  split
  · unfold ofTexts
    rw [List.map_map, List.map_map]
    refine List.map_congr_left fun m _ => ?_
    by_cases h : m.1 = key
    · simp [SettingName.same_text, h]
    · simp [SettingName.same_text, h]
  · unfold ofTexts
    rw [List.map_append]
    rfl

theorem setPairs_ofTexts (base members : List (String × Json.Value)) :
    (ofTexts base).setPairs (members.map fun m => (.text m.1, m.2)) =
      ofTexts (putMembers base members) := by
  induction members generalizing base with
  | nil => rfl
  | cons m members ih =>
    rw [Json.putMembers_cons, ← ih, ← set_ofTexts]
    rfl

theorem merge_ofTexts (base members : List (String × Json.Value)) :
    (ofTexts base).merge (.object members) = .ok (ofTexts (putMembers base members)) := by
  rw [← setPairs_ofTexts]
  rfl

end Settings

open Settings (ofTexts defaultMembers)

namespace Place

/-! ## What is stored -/

/-- A file with an object whose members these are, or without any settings: it is missing, or its
text cannot be read. -/
inductive Holds : Place → List (String × Json.Value) → Prop
  | missing : Holds .missing []
  | corrupt {text : List Char} (read : Json.read text = .error .corrupt) : Holds (.file text) []
  | object {text : List Char} {all : List (String × Json.Value)}
      (members : Json.HasMembers text all) : Holds (.file text) all

/-- One setting is given a value: all settings are loaded, it is set, and all are saved. -/
def update (place : Place) (key : String) (v : Json.Value) : Except StoreFault Place :=
  place.loadAll.map fun s => (place.saveSettings (s.set (.text key) v)).1

/-- One update after the other. -/
def updates : Place → List (String × Json.Value) → Except StoreFault Place
  | place, [] => .ok place
  | place, (key, v) :: rest => (place.update key v).bind fun p => p.updates rest

/-- Settings that are loaded again as they have been saved: the names of the defaults come first, no
two names are the same, and the values can be written. -/
structure Savable (members : List (String × Json.Value)) : Prop where
  nodup : (members.map Prod.fst).Nodup
  defaults : defaultMembers.map Prod.fst <+: members.map Prod.fst
  proper : ∀ m ∈ members, m.2.Proper

/-- A file can be written at the place. -/
def Writable (place : Place) : Prop := place = .missing ∨ ∃ text, place = .file text

/-- The settings at a place are these members, and can be saved. -/
structure Stores (place : Place) (members : List (String × Json.Value)) : Prop
    extends Savable members where
  loaded : place.loadAll = .ok (ofTexts members)
  writable : place.Writable

variable {place : Place} {members all : List (String × Json.Value)}

/-- One setting is looked up in all of them. -/
theorem load_of_loadAll {s : Settings} (h : place.loadAll = .ok s) {key : String}
    (hkey : key ≠ "all") :
    place.load key = .ok (.inr ((s.get? (.text key)).getD (.integer 0))) := by
  rw [load, h]
  show Except.ok (if key = "all" then _ else _) = _
  rw [if_neg hkey]

theorem loadAll_of_corrupt {text : List Char} (h : Json.read text = .error .corrupt) :
    (Place.file text).loadAll = .ok (ofTexts defaultMembers) := by
  simp only [loadAll, Place.read, h]
  rfl

theorem loadAll_of_object {text : List Char} (h : Json.read text = .ok (.object members)) :
    (Place.file text).loadAll = .ok (ofTexts (putMembers defaultMembers members)) := by
  simp only [loadAll, Place.read, h]
  rw [Settings.default_eq, Settings.merge_ofTexts]
  rfl

theorem proper_defaultMembers : ∀ m ∈ defaultMembers, m.2.Proper := by
  have hshort : (Decimal.digits (4 : Int).natAbs).length ≤ Entry.maxDigits := by decide
  intro m hm
  simp only [defaultMembers, Settings.default, List.map_cons, List.map_nil, List.mem_cons,
    List.not_mem_nil, or_false] at hm
  rcases hm with rfl | rfl | rfl | rfl | rfl
  · exact .bool false
  · exact .integer hshort
  · exact .bool false
  · exact .bool true
  · exact .bool false

theorem stores_of_holds (h : place.Holds all) :
    Stores place (putMembers defaultMembers (ofMembers all)) where
  loaded := by
    cases h with
    | missing => rfl
    | corrupt read => exact loadAll_of_corrupt read
    | object hall => exact loadAll_of_object (Json.read_eq_object_iff.2 ⟨_, hall, rfl⟩)
  writable := by
    cases h with
    | missing => exact .inl rfl
    | corrupt read => exact .inr ⟨_, rfl⟩
    | object hall => exact .inr ⟨_, rfl⟩
  nodup := Json.nodup_putMembers Settings.names_defaultMembers_nodup _
  defaults := Json.names_isPrefix_putMembers _ _
  proper m hm := by
    rcases Json.mem_or_mem_of_mem_putMembers hm with hm | hm
    · cases h with
      | missing => cases hm
      | corrupt read => cases hm
      | object hall =>
        have hproper := Json.proper_of_read (Json.read_eq_object_iff.2 ⟨_, hall, rfl⟩)
        cases hproper with
        | object nodup proper => exact proper m hm
    · exact proper_defaultMembers m hm

/-! ## Saving and loading -/

/-- What is saved is written in full, and loaded as it has been saved. -/
theorem Savable.save (h : Savable members) (writable : place.Writable) :
    ∃ text, text = (Json.write (ofTexts members).toValue).1 ∧
      place.saveSettings (ofTexts members) = (.file text, ofTexts members) ∧
      Stores (.file text) members := by
  obtain ⟨hcomplete, hread⟩ := Json.read_write (.object h.nodup h.proper)
  rw [← Settings.toValue_ofTexts] at hcomplete hread
  refine ⟨_, rfl, ?_, h, ?_, .inr ⟨_, rfl⟩⟩
  · rcases writable with rfl | ⟨text, rfl⟩
    all_goals
      unfold saveSettings save
      dsimp only
      rw [hcomplete]
      rfl
  · rw [Settings.toValue_ofTexts] at hread ⊢
    rw [loadAll_of_object hread, Json.putMembers_of_isPrefix h.defaults h.nodup]

theorem Savable.putMember (h : Savable members) (key : String) {v : Json.Value} (hv : v.Proper) :
    Savable (putMember members key v) where
  nodup := Json.nodup_putMember h.nodup key v
  defaults := h.defaults.trans (Json.names_isPrefix_putMembers members [(key, v)])
  proper m hm := by
    rcases Json.eq_or_mem_of_mem_putMember hm with rfl | hm
    · exact hv
    · exact h.proper m hm

/-- An update puts a member. -/
theorem Stores.update (h : Stores place members) (key : String) {v : Json.Value} (hv : v.Proper) :
    ∃ p, place.update key v = .ok p ∧
      place.saveSettings (ofTexts (putMember members key v)) =
        (p, ofTexts (putMember members key v)) ∧
      Stores p (putMember members key v) := by
  obtain ⟨text, -, hsave, hstores⟩ := (h.toSavable.putMember key hv).save h.writable
  refine ⟨.file text, ?_, hsave, hstores⟩
  unfold Place.update
  rw [h.loaded]
  show Except.ok (place.saveSettings ((ofTexts members).set (.text key) v)).1 = _
  rw [Settings.set_ofTexts, hsave]

/-- Updates put members one after the other. -/
theorem stores_updates (h : Stores place members) {us : List (String × Json.Value)}
    (proper : ∀ u ∈ us, u.2.Proper) :
    ∃ p, place.updates us = .ok p ∧ Stores p (putMembers members us) := by
  induction us generalizing place members with
  | nil => exact ⟨place, rfl, h⟩
  | cons u us ih =>
    obtain ⟨p, hupdate, -, hp⟩ := h.update u.1 (proper u List.mem_cons_self)
    obtain ⟨q, hupdates, hq⟩ := ih hp fun w hw => proper w (List.mem_cons_of_mem u hw)
    refine ⟨q, ?_, hq⟩
    show (place.update u.1 u.2).bind (fun p => p.updates us) = .ok q
    rw [hupdate]
    exact hupdates

theorem Stores.load (h : Stores place members) {key : String} (hkey : key ≠ "all") :
    place.load key = .ok (.inr ((members.lookup key).getD (.integer 0))) := by
  rw [load_of_loadAll h.loaded hkey, Settings.get?_ofTexts]

/-- After any updates a name has the value that was set last, or else the last one in the file that
was there before, or else its default, or else zero. Whatever is set next is saved in full, is
loaded as it has been saved, in the same order, and changes no other name. -/
theorem load_updates (h : place.Holds all) {us : List (String × Json.Value)}
    (proper : ∀ u ∈ us, u.2.Proper) :
    ∃ p s, place.updates us = .ok p ∧ p.loadAll = .ok s ∧
      (∀ key, key ≠ "all" → p.load key = .ok (.inr (((lastValue? key us).or
        ((lastValue? key all).or (Settings.default.get? (.text key)))).getD (.integer 0)))) ∧
      ∀ key v, v.Proper → ∃ p', p.update key v = .ok p' ∧
        p.saveSettings (s.set (.text key) v) = (p', s.set (.text key) v) ∧
        p'.loadAll = .ok (s.set (.text key) v) ∧
        ∀ other, other ≠ key → other ≠ "all" → p'.load other = p.load other := by
  obtain ⟨p, hupdates, hp⟩ := stores_updates (stores_of_holds h) proper
  refine ⟨p, _, hupdates, hp.loaded, ?_, ?_⟩
  · intro key hkey
    rw [hp.load hkey, Json.lookup_putMembers, Json.lookup_putMembers, Json.lastValue?_ofMembers,
      Settings.default_eq, Settings.get?_ofTexts]
  · intro key v hv
    obtain ⟨q, hupdate, hsave, hstores⟩ := hp.update key hv
    rw [← Settings.set_ofTexts] at hsave
    refine ⟨q, hupdate, hsave, ?_, ?_⟩
    · rw [hstores.loaded, Settings.set_ofTexts]
    · intro other hother hall
      rw [hstores.load hall, hp.load hall, Json.lookup_putMember_of_ne _ hother]

/-- A file with an empty object, and two updates of one name. -/
theorem load_updates_twice :
    ∃ p s, (Place.file ['\x7b', '\x7d']).updates [("a", .null), ("a", .bool true)] = .ok p ∧
      p.loadAll = .ok s ∧ p.load "a" = .ok (.inr (.bool true)) ∧
      p.load "fractions" = .ok (.inr (.bool false)) ∧ p.load "b" = .ok (.inr (.integer 0)) := by
  have hholds : Holds (.file ['\x7b', '\x7d']) [] := by
    obtain ⟨hlt, hclosing⟩ := Json.expect?_cons (c := '\x7d') (by decide) []
    exact .object (.none rfl ⟨hlt, hclosing⟩ rfl)
  have hproper : ∀ u ∈ [("a", Json.Value.null), ("a", .bool true)], u.2.Proper := by
    intro u hu
    simp only [List.mem_cons, List.not_mem_nil, or_false] at hu
    rcases hu with rfl | rfl
    · exact .null
    · exact .bool true
  obtain ⟨p, s, hupdates, hs, hload, -⟩ := load_updates hholds hproper
  exact ⟨p, s, hupdates, hs, hload "a" (by decide), hload "fractions" (by decide),
    hload "b" (by decide)⟩

end Place
end Reckon
