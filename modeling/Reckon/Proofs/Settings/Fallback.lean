import Reckon.Proofs.Settings.Store

/-!
# What settings files fall back to

A settings file is merged into the defaults as pairs that are set one after the
other: the members of an object, the items of a list if each of them is a pair,
none for an empty text. A corrupt file sets none. Nothing else can be loaded, and
a list of pairs can change the defaults without being an object (`Sets`).

Results:

* `get?_set`, `get?_setPairs`: the value of a name after one or more have been set.
* `loadAll_eq_ok_iff`: which files can be loaded, and what is loaded.
* `load_of_sets`: what is loaded of one name.
* `fallsBack_iff`: which files leave the defaults to those who read settings.
-/

namespace Reckon

open Settings (ofTexts)

namespace Settings

/-! ## Setting pairs -/

theorem get?_cons (p : SettingName × Json.Value) (s : Settings) (name : SettingName) :
    get? (p :: s) name = if p.1.same name then some p.2 else s.get? name := by
  unfold get?
  rw [List.find?_cons]
  cases p.1.same name <;> rfl

theorem get?_append (s t : Settings) (name : SettingName) :
    get? (s ++ t) name = (s.get? name).or (t.get? name) := by
  unfold get?
  rw [List.find?_append]
  cases s.find? (·.1.same name) <;> rfl

/-- Some name of the settings is the same as the name exactly if it has a value. -/
theorem any_same_iff {s : Settings} {name : SettingName} :
    s.any (·.1.same name) = true ↔ ∃ v, s.get? name = some v := by
  unfold get?
  rw [← Option.isSome_iff_exists, Option.isSome_map, List.find?_isSome, List.any_eq_true]

/-- A value for the names that are there and the same as a name. -/
theorem get?_map_same (s : Settings) (name other : SettingName) (v : Json.Value) :
    get? (s.map fun p => if p.1.same name then (p.1, v) else p) other =
      if name.same other then (s.get? other).map fun _ => v else s.get? other := by
  induction s with
  | nil => exact (ite_self none).symm
  | cons p s ih =>
    have hname : (if p.1.same name then (p.1, v) else p).1 = p.1 := by split <;> rfl
    rw [List.map_cons, get?_cons, get?_cons, ih, hname]
    by_cases hp : p.1.same other = true
    · have hsame : name.same other = p.1.same name := by
        rw [Bool.eq_iff_iff, SettingName.same_iff, SettingName.same_iff, SettingName.same_iff.1 hp,
          eq_comm]
      rw [if_pos hp, if_pos hp, Option.map_some, hsame]
      split <;> rfl
    · rw [if_neg hp, if_neg hp]

/-- What has been set has the value, under whatever name it is the same as, and the others keep
theirs. -/
theorem get?_set (s : Settings) (name other : SettingName) (v : Json.Value) :
    (s.set name v).get? other = if name.same other then some v else s.get? other := by
  unfold set
  split
  · rename_i hany
    rw [get?_map_same]
    split
    · rename_i hsame
      simp only [SettingName.same_congr hsame] at hany
      obtain ⟨w, hw⟩ := any_same_iff.1 hany
      rw [hw, Option.map_some]
    · rfl
  · rename_i hany
    rw [get?_append, get?_cons]
    split
    · rename_i hsame
      simp only [SettingName.same_congr hsame] at hany
      have hnone : s.get? other = none :=
        Option.eq_none_iff_forall_ne_some.2 fun w hw => hany (any_same_iff.2 ⟨w, hw⟩)
      rw [hnone, Option.none_or]
    · exact Option.or_none

/-- The value that the last pair of a name gives it. -/
def lastPair? (name : SettingName) (pairs : Settings) : Option Json.Value := get? pairs.reverse name

theorem lastPair?_cons (p : SettingName × Json.Value) (pairs : Settings) (name : SettingName) :
    lastPair? name (p :: pairs) =
      (lastPair? name pairs).or (if p.1.same name then some p.2 else none) := by
  unfold lastPair?
  rw [List.reverse_cons, get?_append, get?_cons]
  rfl

/-- The value of a name after pairs have been set. -/
theorem get?_setPairs (s pairs : Settings) (name : SettingName) :
    (s.setPairs pairs).get? name = (lastPair? name pairs).or (s.get? name) := by
  induction pairs generalizing s with
  | nil => rfl
  | cons p pairs ih =>
    show ((s.set p.1 p.2).setPairs pairs).get? name = _
    rw [ih, lastPair?_cons, Option.or_assoc, get?_set]
    cases p.1.same name <;> rfl

/-! ## Pairs -/

variable {pairs : Settings}

/-- What is taken as a pair. -/
inductive IsPair : Json.Value → SettingName × Json.Value → Prop
  | items {k v : Json.Value} {name : SettingName} (isName : nameOf k = .ok name) :
      IsPair (.array [k, v]) (name, v)
  | characters (a b : Char) :
      IsPair (.string (String.ofList [a, b])) (.text (charText a), .string (charText b))
  | names (a b : String) (v w : Json.Value) : IsPair (.object [(a, v), (b, w)]) (.text a, .string b)

theorem pairOf_eq_ok_iff {v : Json.Value} {p : SettingName × Json.Value} :
    pairOf v = .ok p ↔ IsPair v p := by
  constructor
  · intro h
    unfold pairOf at h
    split at h
    · rename_i k w
      cases hname : nameOf k with
      | error fault =>
        rw [hname] at h
        cases h
      | ok name =>
        rw [hname] at h
        cases h
        exact .items hname
    · cases h
    · rename_i t
      split at h
      · rename_i a b htext
        cases h
        have ht : t = String.ofList [a, b] := by rw [← htext, String.ofList_toList]
        exact ht ▸ .characters a b
      · cases h
    · cases h
      exact .names _ _ _ _
    · cases h
    · cases h
  · rintro (isName | ⟨a, b⟩ | ⟨a, b, v, w⟩)
    · unfold pairOf
      dsimp only
      rw [isName]
      rfl
    · simp [pairOf]
    · rfl

theorem mapM_pairOf_eq_ok_iff {items : List Json.Value} :
    items.mapM pairOf = .ok pairs ↔ List.Forall₂ IsPair items pairs := by
  induction items generalizing pairs with
  | nil => cases pairs <;> simp [pure, Except.pure]
  | cons v items ih =>
    rw [List.mapM_cons]
    cases hv : pairOf v with
    | error fault => cases pairs <;> simp [bind, Except.bind, ← pairOf_eq_ok_iff, hv]
    | ok p =>
      cases hitems : items.mapM pairOf with
      | error fault => cases pairs <;> simp [bind, Except.bind, ← ih, hitems]
      | ok ps =>
        cases pairs <;>
          simp [bind, Except.bind, pure, Except.pure, ← ih, ← pairOf_eq_ok_iff, hv, hitems]

end Settings

namespace Place

open Settings (IsPair lastPair?)

variable {text : List Char} {s pairs : Settings}

/-- The pairs that the text of a file sets. -/
inductive Sets (text : List Char) : Settings → Prop
  | corrupt (read : Json.read text = .error .corrupt) : Sets text []
  | object {all : List (String × Json.Value)} (members : Json.HasMembers text all) :
      Sets text (ofTexts (Json.ofMembers all))
  | empty (read : Json.read text = .ok (.string "")) : Sets text []
  | list {items : List Json.Value} {pairs : Settings} (read : Json.read text = .ok (.array items))
      (isPair : List.Forall₂ IsPair items pairs) : Sets text pairs

theorem loadAll_of_sets (h : Sets text pairs) :
    (Place.file text).loadAll = .ok (Settings.default.setPairs pairs) := by
  cases h with
  | corrupt read => exact loadAll_of_corrupt read
  | object members =>
    rw [loadAll_of_object (Json.read_eq_object_iff.2 ⟨_, members, rfl⟩), Settings.default_eq]
    exact congrArg Except.ok (Settings.setPairs_ofTexts _ _).symm
  | empty read =>
    simp only [loadAll, Place.read, read]
    rfl
  | list read isPair =>
    simp only [loadAll, Place.read, read, Settings.merge, Settings.mapM_pairOf_eq_ok_iff.2 isPair]
    rfl

theorem exists_sets (h : (Place.file text).loadAll = .ok s) : ∃ pairs, Sets text pairs := by
  unfold loadAll Place.read at h
  dsimp only at h
  cases hread : Json.read text with
  | error fault =>
    cases fault with
    | corrupt => exact ⟨[], .corrupt hread⟩
    | integerTooLong =>
      rw [hread] at h
      cases h
  | ok v =>
    rw [hread] at h
    dsimp only at h
    cases v with
    | object members =>
      obtain ⟨all, hall, -⟩ := Json.read_eq_object_iff.1 hread
      exact ⟨_, .object hall⟩
    | array items =>
      cases hitems : items.mapM Settings.pairOf with
      | error fault =>
        rw [Settings.merge, hitems] at h
        cases h
      | ok pairs => exact ⟨pairs, .list hread (Settings.mapM_pairOf_eq_ok_iff.1 hitems)⟩
    | string t =>
      by_cases ht : t = ""
      · exact ⟨[], .empty (ht ▸ hread)⟩
      · rw [Settings.merge, if_neg ht] at h
        cases h
    | null | bool | integer | float | unwritable => cases h

/-- A file can be loaded if and only if it sets pairs; these are set in the defaults. -/
theorem loadAll_eq_ok_iff :
    (Place.file text).loadAll = .ok s ↔
      ∃ pairs, Sets text pairs ∧ s = Settings.default.setPairs pairs := by
  constructor
  · intro h
    obtain ⟨pairs, hpairs⟩ := exists_sets h
    rw [loadAll_of_sets hpairs] at h
    exact ⟨pairs, hpairs, (Except.ok.inj h).symm⟩
  · rintro ⟨pairs, hpairs, rfl⟩
    exact loadAll_of_sets hpairs

/-- One setting has the value of the last pair of its name, or else its default, or else zero. -/
theorem load_of_sets (h : Sets text pairs) {key : String} (hkey : key ≠ "all") :
    (Place.file text).load key = .ok (.inr
      (((lastPair? (.text key) pairs).or (Settings.default.get? (.text key))).getD (.integer 0))) := by
  rw [load_of_loadAll (loadAll_of_sets h) hkey, Settings.get?_setPairs]

/-! ## Falling back -/

/-- All settings can be loaded, and each of them. The names of the defaults are among them, and have
other values than their defaults only if the file is an object that has members of these names. -/
structure FallsBack (text : List Char) : Prop where
  all : ∃ s, (Place.file text).load "all" = .ok (.inl s) ∧
    ∀ p ∈ Settings.default, ∃ v, s.get? p.1 = some v ∧
      (v ≠ p.2 → ∃ members, Json.HasMembers text members ∧ ∃ m ∈ members, p.1 = .text m.1)
  one : ∀ key, ∃ loaded, (Place.file text).load key = .ok loaded

theorem load_all_eq_ok_iff {place : Place} :
    place.load "all" = .ok (.inl s) ↔ place.loadAll = .ok s := by
  unfold load
  cases place.loadAll with
  | error fault => constructor <;> intro h <;> cases h
  | ok t =>
    show Except.ok (Sum.inl t) = _ ↔ _
    simp

theorem exists_load (h : Sets text pairs) (key : String) :
    ∃ loaded, (Place.file text).load key = .ok loaded := by
  unfold load
  rw [loadAll_of_sets h]
  exact ⟨_, rfl⟩

/-- The names of the defaults are texts, and each has its default. -/
theorem exists_text_of_mem_default {p : SettingName × Json.Value} (h : p ∈ Settings.default) :
    ∃ key, p.1 = .text key ∧ Settings.default.get? (.text key) = some p.2 := by
  unfold Settings.default at h ⊢
  simp only [List.mem_cons, List.not_mem_nil, or_false] at h
  rcases h with rfl | rfl | rfl | rfl | rfl <;> exact ⟨_, rfl, by simp [Settings.get?_cons, SettingName.same_text]⟩

/-- Only a member of its name sets a name. -/
theorem exists_member_of_lastPair? {members : List (String × Json.Value)} {key : String}
    {v : Json.Value} (h : lastPair? (.text key) (ofTexts (Json.ofMembers members)) = some v) :
    ∃ m ∈ members, SettingName.text key = .text m.1 := by
  obtain ⟨p, hp, -⟩ := Option.map_eq_some_iff.1 h
  have hname := List.find?_some hp
  rw [SettingName.same_text_right, decide_eq_true_eq] at hname
  obtain ⟨m, hm, rfl⟩ := List.mem_map.1 (List.mem_reverse.1 (List.mem_of_find?_eq_some hp))
  rcases Json.mem_or_mem_of_mem_putMembers hm with hm | hm
  · exact ⟨m, hm, hname.symm⟩
  · cases hm

/-- A file leaves the defaults to those who read settings if and only if it sets pairs and is an
object, or sets pairs of which the last of each name in the defaults has the default. -/
theorem fallsBack_iff :
    FallsBack text ↔ ∃ pairs, Sets text pairs ∧
      ((∃ members, Json.HasMembers text members) ∨
        ∀ p ∈ Settings.default, ∀ v, lastPair? p.1 pairs = some v → v = p.2) := by
  constructor
  · rintro ⟨⟨s, hs, hdefaults⟩, -⟩
    obtain ⟨pairs, hpairs, rfl⟩ := loadAll_eq_ok_iff.1 (load_all_eq_ok_iff.1 hs)
    refine ⟨pairs, hpairs, ?_⟩
    by_cases hobject : ∃ members, Json.HasMembers text members
    · exact .inl hobject
    · right
      intro p hp v hlast
      obtain ⟨key, hkey, -⟩ := exists_text_of_mem_default hp
      obtain ⟨w, hw, hmember⟩ := hdefaults p hp
      rw [hkey] at hlast hw
      rw [Settings.get?_setPairs, hlast, Option.some_or] at hw
      obtain rfl := Option.some.inj hw
      by_contra hne
      obtain ⟨members, hmembers, -⟩ := hmember hne
      exact hobject ⟨members, hmembers⟩
  · rintro ⟨pairs, hpairs, hkeeps⟩
    refine ⟨⟨_, load_all_eq_ok_iff.2 (loadAll_of_sets hpairs), ?_⟩, exists_load hpairs⟩
    intro p hp
    obtain ⟨key, hkey, hdefault⟩ := exists_text_of_mem_default hp
    rw [hkey, Settings.get?_setPairs, hdefault]
    cases hlast : lastPair? (.text key) pairs with
    | none => exact ⟨p.2, rfl, fun hne => absurd rfl hne⟩
    | some v =>
      refine ⟨v, rfl, fun hne => ?_⟩
      rcases hkeeps with ⟨members, hmembers⟩ | hkeeps
      · cases hpairs with
        | object hall => exact ⟨_, hall, exists_member_of_lastPair? hlast⟩
        | corrupt read => cases hlast
        | empty read => cases hlast
        | list read isPair =>
          rw [Json.read_eq_object_iff.2 ⟨_, hmembers, rfl⟩] at read
          cases read
      · exact absurd (hkeeps p hp v (hkey ▸ hlast)) hne

/-- A number is no settings, and is not taken for a corrupt file. -/
theorem not_fallsBack_number :
    (Place.file ['5']).load "all" = .error (.merge .notPairs) ∧ ¬ FallsBack ['5'] := by
  have hread : Json.read ['5'] = .ok (.integer 5) :=
    (@Json.read_write (.integer 5) (.integer (by decide))).2
  have hload : (Place.file ['5']).load "all" = .error (.merge .notPairs) := by
    simp only [load, loadAll, Place.read, hread]
    rfl
  refine ⟨hload, fun h => ?_⟩
  obtain ⟨loaded, hloaded⟩ := h.one "all"
  rw [hload] at hloaded
  cases hloaded

end Place
end Reckon
