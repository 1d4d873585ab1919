import Reckon.Proofs.Json.Unfinished
import Reckon.Proofs.Settings.Store

/-!
# Settings that cannot be saved

Settings are not saved where there can be no file, and then nothing changes. But
they are not saved either if one of the values has a part without a text, and this
comes out only when the text before that part has been written. The file then holds
this text and nothing of what it held before, and as the text is corrupt, the
defaults are loaded from it.

Results:

* `saveSettings_of_not_writable`, `saveSettings_of_textless`, `saveSettings_of_texts`: what saving
  does, in the three cases.
* `losesNothing_iff`: when nothing is lost, and what is lost otherwise.
-/

namespace Reckon

namespace Settings

/-- A value of a setting has a part without a text. -/
def Textless (s : Settings) : Prop := ∃ p ∈ s, p.2.Textless

/-- Settings that a program holds. -/
def Held (s : Settings) : Prop := ∀ p ∈ s, p.1.toValue.Held ∧ p.2.Held

variable {s : Settings}

theorem textless_toValue_iff : s.toValue.Textless ↔ s.Textless := by
  unfold toValue Textless
  constructor
  · intro h
    cases h with
    | member mem textless =>
      obtain ⟨p, hp, rfl⟩ := List.mem_map.1 mem
      exact ⟨p, hp, textless⟩
  · rintro ⟨p, hp, htextless⟩
    exact .member (List.mem_map_of_mem hp) htextless

/-- What is written of settings with a value without a text is corrupt. -/
theorem read_write_toValue (held : s.Held) (h : s.Textless) :
    (Json.write s.toValue).2 = false ∧
      Json.read (Json.write s.toValue).1 = .error .corrupt := by
  have hentries : ∀ m ∈ s.map (fun p => (p.1.toMember, p.2)),
      Json.RoundTrips m.2 ∨ Json.CutsShort m.2 := by
    intro m hm
    obtain ⟨p, hp, rfl⟩ := List.mem_map.1 hm
    exact (held p hp).2.roundTrips_or_cutsShort (Json.cutsShort_of_held (held p hp).2)
  obtain ⟨p, hp, htextless⟩ := h
  exact Json.read_write_of_cutsShort (Json.cutsShort_object hentries
    ⟨_, List.mem_map_of_mem hp, Json.cutsShort_of_held (held p hp).2 htextless⟩)

end Settings

namespace Place

variable {place : Place} {s : Settings}

/-! ## What saving does -/

theorem saveSettings_of_not_writable (h : ¬ place.Writable) :
    place.saveSettings s = (place, []) := by
  cases place with
  | missing => exact absurd (.inl rfl) h
  | file text => exact absurd (.inr ⟨text, rfl⟩) h
  | directory | orphan => rfl

theorem saveSettings_of_writable (h : place.Writable) :
    place.saveSettings s =
      (.file (Json.write s.toValue).1, if (Json.write s.toValue).2 then s else []) := by
  rcases h with rfl | ⟨text, rfl⟩ <;> rfl

/-- Settings whose values all have a text are saved. -/
theorem saveSettings_of_texts (h : place.Writable) (hs : ¬ s.Textless) :
    place.saveSettings s = (.file (Json.write s.toValue).1, s) := by
  rw [← Settings.textless_toValue_iff, ← Json.write_snd_iff] at hs
  rw [saveSettings_of_writable h, if_pos hs]

/-- Other settings are not, but they replace what the file held. -/
theorem saveSettings_of_textless (h : place.Writable) (hs : s.Textless) :
    place.saveSettings s = (.file (Json.write s.toValue).1, []) := by
  have hcut : ¬ (Json.write s.toValue).2 = true := by
    rw [Json.write_snd_iff, Settings.textless_toValue_iff]
    exact not_not_intro hs
  rw [saveSettings_of_writable h, if_neg hcut]

/-! ## What is lost -/

/-- If the settings cannot be saved, the place stays as it was, and what is loaded from it too. -/
def LosesNothing (place : Place) (s : Settings) : Prop :=
  (place.saveSettings s).2 = [] →
    (place.saveSettings s).1 = place ∧
      (place.saveSettings s).1.load "all" = place.load "all"

theorem losesNothing_of_not_writable (h : ¬ place.Writable) : LosesNothing place s := by
  intro _
  rw [saveSettings_of_not_writable h]
  exact ⟨rfl, rfl⟩

/-- Settings that are saved have not failed to be. -/
theorem losesNothing_of_texts (hs : s ≠ []) (h : place.Writable) (htexts : ¬ s.Textless) :
    LosesNothing place s := by
  intro hfailed
  rw [saveSettings_of_texts h htexts] at hfailed
  exact absurd hfailed hs

theorem losesNothing_iff_of_textless (h : place.Writable) (htextless : s.Textless) :
    LosesNothing place s ↔ place = .file (Json.write s.toValue).1 := by
  unfold LosesNothing
  rw [saveSettings_of_textless h htextless]
  constructor
  · intro hkeeps
    exact (hkeeps rfl).1.symm
  · intro hsame _
    rw [← hsame]
    exact ⟨rfl, rfl⟩

/-- Where a file can be written, nothing is lost only if the settings can be saved, or if the file
held the beginning of their text already. What is lost otherwise is all that the file held: it is
left with the beginning of the text, and the defaults are loaded from it. -/
theorem losesNothing_iff (hs : s ≠ []) (held : s.Held) :
    (LosesNothing place s ↔
      ¬ place.Writable ∨ ¬ s.Textless ∨ place = .file (Json.write s.toValue).1) ∧
    (place.Writable → s.Textless →
      place.saveSettings s = (.file (Json.write s.toValue).1, []) ∧
        (place.saveSettings s).1.load "all" = .ok (.inl Settings.default)) := by
  constructor
  · by_cases hwritable : place.Writable
    · by_cases htextless : s.Textless
      · rw [losesNothing_iff_of_textless hwritable htextless]
        simp only [hwritable, htextless, not_true_eq_false, false_or]
      · exact iff_of_true (losesNothing_of_texts hs hwritable htextless) (.inr (.inl htextless))
    · exact iff_of_true (losesNothing_of_not_writable hwritable) (.inl hwritable)
  · intro hwritable htextless
    have hsave := saveSettings_of_textless hwritable htextless
    have hcorrupt := (Settings.read_write_toValue held htextless).2
    refine ⟨hsave, ?_⟩
    rw [hsave, load, loadAll_of_corrupt hcorrupt]
    rfl

/-- A file that asks for six places. -/
def sixPlaces : Place := .file "\x7b\n    \"decimal_places\": 6\n\x7d".toList

/-- Settings with a list of which one item has no text. -/
def listWithGap : Settings := [(.text "x", .array [.integer 1, .unwritable])]

/-- The list is cut off after its first item. -/
theorem losesNothing_iff_list :
    listWithGap ≠ [] ∧ listWithGap.Held ∧ sixPlaces.Writable ∧ listWithGap.Textless ∧
      (LosesNothing sixPlaces listWithGap ↔ ¬ sixPlaces.Writable ∨ ¬ listWithGap.Textless ∨
        sixPlaces = .file (Json.write listWithGap.toValue).1) ∧
      sixPlaces.saveSettings listWithGap =
        (.file "\x7b\n    \"x\": [\n        1,\n        ".toList, []) ∧
      (sixPlaces.saveSettings listWithGap).1.load "all" = .ok (.inl Settings.default) := by
  have hne : listWithGap ≠ [] := List.cons_ne_nil _ _
  have hheld : listWithGap.Held := by
    intro p hp
    obtain rfl := List.mem_singleton.1 hp
    refine ⟨.string "x", .array fun v hv => ?_⟩
    simp only [List.mem_cons, List.not_mem_nil, or_false] at hv
    rcases hv with rfl | rfl
    · exact .integer (by decide)
    · exact .unwritable
  have hwritable : sixPlaces.Writable := .inr ⟨_, rfl⟩
  have htextless : listWithGap.Textless :=
    ⟨_, List.mem_singleton_self _, .item (List.mem_cons_of_mem _ List.mem_cons_self) .unwritable⟩
  obtain ⟨hiff, hlost⟩ := @losesNothing_iff sixPlaces _ hne hheld
  obtain ⟨hsave, hload⟩ := hlost hwritable htextless
  have hwrite : (Json.write listWithGap.toValue).1 =
      "\x7b\n    \"x\": [\n        1,\n        ".toList := by decide +kernel
  refine ⟨hne, hheld, hwritable, htextless, hiff, ?_, hload⟩
  rw [hsave, hwrite]

/-- Settings that ask for seven places, and have a value without a text after that. -/
def sevenPlacesAndGap : Settings :=
  [(.text "decimal_places", .integer 7), (.text "x", .unwritable)]

theorem load_sixPlaces : sixPlaces.load "decimal_places" = .ok (.inr (.integer 6)) := by
  have hproper : (Json.Value.object [("decimal_places", .integer 6)]).Proper := by
    refine .object (by decide) fun m hm => ?_
    obtain rfl := List.mem_singleton.1 hm
    exact .integer (by decide)
  have hread := (Json.read_write hproper).2
  have hwrite : (Json.write (.object [("decimal_places", .integer 6)])).1 =
      "\x7b\n    \"decimal_places\": 6\n\x7d".toList := by decide +kernel
  rw [hwrite] at hread
  rw [sixPlaces, load_of_loadAll (loadAll_of_object hread) (by decide)]
  rfl

/-- The settings cannot be saved, and all the same the six places are lost: neither these nor the
seven are loaded, but the default. -/
theorem not_losesNothing_gap :
    sevenPlacesAndGap ≠ [] ∧
      sixPlaces.load "decimal_places" = .ok (.inr (.integer 6)) ∧
      sixPlaces.saveSettings sevenPlacesAndGap =
        (.file "\x7b\n    \"decimal_places\": 7,\n    \"x\": ".toList, []) ∧
      (sixPlaces.saveSettings sevenPlacesAndGap).1.load "decimal_places" =
        .ok (.inr (.integer 4)) ∧
      ¬ LosesNothing sixPlaces sevenPlacesAndGap := by
  have hheld : sevenPlacesAndGap.Held := by
    intro p hp
    simp only [sevenPlacesAndGap, List.mem_cons, List.not_mem_nil, or_false] at hp
    rcases hp with rfl | rfl
    · exact ⟨.string _, .integer (by decide)⟩
    · exact ⟨.string _, .unwritable⟩
  have htextless : sevenPlacesAndGap.Textless :=
    ⟨_, List.mem_cons_of_mem _ (List.mem_singleton_self _), .unwritable⟩
  have hwrite : (Json.write sevenPlacesAndGap.toValue).1 =
      "\x7b\n    \"decimal_places\": 7,\n    \"x\": ".toList := by decide +kernel
  have hwritable : sixPlaces.Writable := .inr ⟨_, rfl⟩
  have hsave := saveSettings_of_textless hwritable htextless
  have hcorrupt := (Settings.read_write_toValue hheld htextless).2
  rw [hwrite] at hsave hcorrupt
  refine ⟨List.cons_ne_nil _ _, load_sixPlaces, hsave, ?_, ?_⟩
  · rw [hsave, load_of_loadAll (loadAll_of_corrupt hcorrupt) (by decide)]
    rfl
  · rw [losesNothing_iff_of_textless hwritable htextless, hwrite]
    decide +kernel

end Place
end Reckon
