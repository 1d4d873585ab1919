import Mathlib.Data.List.Infix
import Reckon.Window.Session

/-!
# What has happened in a session, and not been undone since

Some things that an event does last until another event undoes them. Of a session
this is said by the event that did it and the events after it (`Since`), and proved
one event at a time (`since_concat`).
-/

namespace Reckon
namespace Desk

/-- An event of the kind `P` has happened, and after it none of the kind `Q`. The kind of an event
may depend on the desk that it finds. -/
def Since (P Q : Desk → Event → Prop) (d : Desk) (events : List Event) : Prop :=
  ∃ first e rest, events = first ++ e :: rest ∧ P (d.run first) e ∧
    ∀ part f, part ++ [f] <+: rest → ¬ Q (d.run (first ++ e :: part)) f

@[simp] theorem run_nil (d : Desk) : d.run [] = d := rfl

@[simp] theorem run_concat (d : Desk) (events : List Event) (e : Event) :
    d.run (events ++ [e]) = ((d.run events).step e).1 :=
  List.foldl_append

variable {P Q : Desk → Event → Prop} {d : Desk} {events : List Event} {e : Event}

theorem not_since_nil : ¬ Since P Q d [] := by
  rintro ⟨first, e, rest, heq, -⟩
  cases first <;> cases heq

/-- What is so after one more event: either it has done it, or it has not undone it. -/
theorem since_concat :
    Since P Q d (events ++ [e]) ↔
      P (d.run events) e ∨ (Since P Q d events ∧ ¬ Q (d.run events) e) := by
  constructor
  · rintro ⟨first, a, rest, heq, ha, hrest⟩
    rcases List.eq_nil_or_concat rest with rfl | ⟨rest, b, rfl⟩
    · obtain ⟨rfl, hea⟩ := List.append_inj' heq rfl
      cases hea
      exact .inl ha
    · rw [List.concat_eq_append] at heq hrest
      have hconcat : events ++ [e] = (first ++ a :: rest) ++ [b] := by
        simpa using heq
      obtain ⟨rfl, heb⟩ := List.append_inj' hconcat rfl
      cases heb
      refine .inr ⟨⟨first, a, rest, rfl, ha, ?_⟩, hrest rest e List.prefix_rfl⟩
      intro part f hpart
      exact hrest part f (hpart.trans (List.prefix_append rest [e]))
  · rintro (he | ⟨⟨first, a, rest, rfl, ha, hrest⟩, he⟩)
    · refine ⟨events, e, [], rfl, he, ?_⟩
      intro part f hpart
      simp at hpart
    · refine ⟨first, a, rest ++ [e], by simp, ha, ?_⟩
      intro part f hpart
      rcases List.prefix_concat_iff.1 hpart with heq | hpart
      · obtain ⟨rfl, hfe⟩ := List.append_inj' heq rfl
        cases hfe
        exact he
      · exact hrest part f hpart

end Desk
end Reckon
