import Reckon.Proofs.Sheet

/-!
# The value of a variable after any edits

A variable lives as long as its name is in the formula without a break. It
begins at zero, and whatever else is edited, its value is what has been typed
for it last in that time. An edit acts on the value of one name without a look
at the other names (`value?_change`), from which both results follow.

Results:

* `current_foldl_step`: the sheets here are those of histories in which nobody
  goes back.
* `exists_longestStay`: the longest time for which a name has stayed in the formula,
  and its value after it.
* `value?_after_remove`: what can be left out of the edits before a sheet
  without a change to the value of a name.
-/

namespace Reckon

/-- An edit that does not go back to an earlier sheet. -/
inductive Change where
  | formula (text : List Char)
  | value (name text : List Char)
  | reset
deriving DecidableEq, Repr

namespace Change

/-- The step of a history. -/
def edit : Change → Edit
  | formula text => .formula text
  | value name text => .value name text
  | reset => .reset

/-- What a change makes of the value of a name, if it has one. -/
def act (name : List Char) (x : Option Binary64) : Change → Option Binary64
  | formula text =>
    if (Token.identifiers text).contains name then some (x.getD .zero) else none
  | value n text => if n = name then x.map fun _ => Entry.number text else x
  | reset => none

/-- A change of a sheet that has nothing to do with the value of a name: something is typed for
another name, or for a name that is not in the formula, or the formula is changed and keeps the
name. -/
inductive Passes (name : List Char) (s : Sheet) : Change → Prop
  | other {n text : List Char} (ne : n ≠ name) : Passes name s (.value n text)
  | absent {n text : List Char} (absent : n ∉ Token.identifiers s.formula) :
      Passes name s (.value n text)
  | kept {text : List Char} (before : name ∈ Token.identifiers s.formula)
      (after : name ∈ Token.identifiers text) : Passes name s (.formula text)

/-- What is typed for a name, in the order of typing. -/
def typedFor (name : List Char) (changes : List Change) : List (List Char) :=
  changes.filterMap fun
    | value n text => if n = name then some text else none
    | _ => none

end Change

namespace Sheet

/-- The sheet after a change. -/
def change (s : Sheet) : Change → Sheet
  | .formula text => s.withFormula text
  | .value name text => s.withVariable name text
  | .reset => .empty

/-- The empty sheet after one change after the other. -/
def after (changes : List Change) : Sheet := changes.foldl change .empty

/-- From the first changes on, the name is in the formula after every further change. -/
def Stays (name : List Char) (first rest : List Change) : Prop :=
  ∀ part, part <+: rest → name ∈ Token.identifiers (after (first ++ part)).formula

/-- The name stays in the formula during the rest of the changes, and there is no longer rest of
them of which this is so. -/
structure LongestStay (name : List Char) (first rest : List Change) : Prop where
  stays : Stays name first rest
  longest : ∀ before part, before ++ part = first ++ rest → Stays name before part →
    part.length ≤ rest.length

/-- The number that was typed last for a name; zero if none was. -/
def lastTyped (name : List Char) (changes : List Change) : Binary64 :=
  ((Change.typedFor name changes).getLast?.map Entry.number).getD .zero

/-! ## Runs -/

@[simp] theorem after_nil : after [] = .empty := rfl

theorem after_append (first rest : List Change) :
    after (first ++ rest) = rest.foldl change (after first) :=
  List.foldl_append

@[simp] theorem after_concat (changes : List Change) (c : Change) :
    after (changes ++ [c]) = (after changes).change c :=
  after_append changes [c]

/-- The sheets of a history in which nobody goes back. -/
theorem current_foldl_step (changes : List Change) :
    ((changes.map Change.edit).foldl History.step ⟨.empty, []⟩).current = after changes := by
  induction changes using List.reverseRecOn with
  | nil => rfl
  | append_singleton changes c ih =>
    rw [List.map_append, List.foldl_append, after_concat, ← ih]
    cases c <;> rfl

theorem sound_after (changes : List Change) : (after changes).Sound := by
  rw [← current_foldl_step]
  exact History.sound_run (History.sound_ofFormula []) _ _ List.mem_cons_self

/-! ## One value -/

/-- A name has a value exactly if it is a variable. -/
theorem value?_eq_none_iff {s : Sheet} {name : List Char} :
    s.value? name = none ↔ name ∉ s.names := by
  rw [value?, List.lookup_eq_none_iff, names, List.mem_map]
  constructor
  · rintro h ⟨p, hp, rfl⟩
    simpa using h p hp
  · intro h p hp
    rw [bne_iff_ne]
    rintro rfl
    exact h ⟨p, hp, rfl⟩

theorem value?_withFormula (s : Sheet) (text name : List Char) :
    (s.withFormula text).value? name =
      if (Token.identifiers text).contains name then some ((s.value? name).getD .zero)
      else none := by
  by_cases h : name ∈ Token.identifiers text
  · rw [if_pos (List.contains_iff_mem.2 h)]
    exact List.lookup_graph (fun n => (s.value? n).getD .zero) h
  · rw [if_neg (mt List.contains_iff_mem.1 h)]
    rwa [value?_eq_none_iff, names_withFormula]

theorem value?_withVariable (s : Sheet) (n text name : List Char) :
    (s.withVariable n text).value? name =
      if n = name then (s.value? name).map fun _ => Entry.number text else s.value? name := by
  unfold value? withVariable
  dsimp only
  induction s.values with
  | nil => simp
  | cons p values ih =>
    obtain ⟨m, x⟩ := p
    rw [List.map_cons, List.lookup_cons]
    by_cases hm : m = n
    · subst hm
      by_cases hname : name = m
      · subst hname
        simp
      · simp [List.lookup_cons, beq_false_of_ne hname, ih]
    · by_cases hname : name = m
      · subst hname
        simp [hm, Ne.symm hm]
      · simp [hm, List.lookup_cons, beq_false_of_ne hname, ih]

/-- What a change makes of the value of a name. -/
theorem value?_change (s : Sheet) (name : List Char) (c : Change) :
    (s.change c).value? name = c.act name (s.value? name) := by
  cases c with
  | formula text => exact value?_withFormula s text name
  | value n text => exact value?_withVariable s n text name
  | reset => exact value?_eq_none_iff.2 (names_empty ▸ List.not_mem_nil)

/-- What changes make of the value of a name depends on nothing else than that value. -/
theorem value?_foldl_change (s : Sheet) (name : List Char) (changes : List Change) :
    (changes.foldl change s).value? name =
      changes.foldl (fun x c => c.act name x) (s.value? name) := by
  induction changes generalizing s with
  | nil => rfl
  | cons c changes ih => rw [List.foldl_cons, List.foldl_cons, ih, value?_change]

/-- A change that passes a name leaves its value. -/
theorem value?_change_of_passes {s : Sheet} (hs : s.Sound) {name : List Char} {c : Change}
    (h : c.Passes name s) : (s.change c).value? name = s.value? name := by
  rw [value?_change]
  cases h with
  | other ne => exact if_neg ne
  | @absent n text absent =>
    by_cases hn : n = name
    · subst hn
      rw [value?_eq_none_iff.2 (hs.names ▸ absent)]
      exact if_pos rfl
    · exact if_neg hn
  | @kept text before after =>
    obtain ⟨x, hx⟩ : ∃ x, s.value? name = some x := by
      rw [← Option.ne_none_iff_exists', Ne, value?_eq_none_iff, hs.names]
      exact not_not_intro before
    rw [hx]
    exact if_pos (List.contains_iff_mem.2 after)

/-! ## The time of a name -/

theorem Stays.left {name : List Char} {first rest : List Change} {c : Change}
    (h : Stays name first (rest ++ [c])) : Stays name first rest :=
  fun part hpart => h part (hpart.trans (List.prefix_append rest [c]))

theorem Stays.concat {name : List Char} {first rest : List Change} {c : Change}
    (h : Stays name first rest)
    (hc : name ∈ Token.identifiers (after (first ++ (rest ++ [c]))).formula) :
    Stays name first (rest ++ [c]) := by
  intro part hpart
  rcases List.prefix_concat_iff.1 hpart with rfl | hpart
  · exact hc
  · exact h part hpart

/-- A name that stays is in the formula at the end. -/
theorem Stays.mem {name : List Char} {first rest : List Change} (h : Stays name first rest) :
    name ∈ Token.identifiers (after (first ++ rest)).formula :=
  h rest List.prefix_rfl

/-- A name that is in the formula before and after a change has stayed as long as before it. -/
theorem LongestStay.concat {name : List Char} {first rest : List Change} {c : Change}
    (h : LongestStay name first rest)
    (hc : name ∈ Token.identifiers (after (first ++ (rest ++ [c]))).formula) :
    LongestStay name first (rest ++ [c]) where
  stays := h.stays.concat hc
  longest before part heq hpart := by
    rcases List.eq_nil_or_concat part with rfl | ⟨part, d, rfl⟩
    · exact Nat.zero_le _
    · rw [List.concat_eq_append] at heq hpart
      rw [← List.append_assoc, ← List.append_assoc] at heq
      obtain ⟨heq, -⟩ := List.append_inj' heq rfl
      have := h.longest before part heq hpart.left
      simpa using this

/-- A name that a change brings into the formula begins to stay there. -/
theorem longestStay_nil {name : List Char} {changes : List Change} {c : Change}
    (hbefore : name ∉ Token.identifiers (after changes).formula)
    (hafter : name ∈ Token.identifiers (after (changes ++ [c])).formula) :
    LongestStay name (changes ++ [c]) [] where
  stays part hpart := by
    obtain rfl := List.prefix_nil.1 hpart
    rwa [List.append_nil]
  longest before part heq hpart := by
    rcases List.eq_nil_or_concat part with rfl | ⟨part, d, rfl⟩
    · exact Nat.le_refl 0
    · rw [List.concat_eq_append] at heq hpart
      rw [← List.append_assoc, List.append_nil] at heq
      obtain ⟨rfl, -⟩ := List.append_inj' heq rfl
      exact absurd hpart.left.mem hbefore

theorem typedFor_concat (name : List Char) (changes : List Change) (c : Change) :
    Change.typedFor name (changes ++ [c]) =
      Change.typedFor name changes ++ Change.typedFor name [c] :=
  List.filterMap_append

/-- While a name stays, its value is what has been typed last. -/
theorem act_lastTyped {name : List Char} {s : Sheet} {c : Change} (changes : List Change)
    (h : name ∈ Token.identifiers (s.change c).formula) :
    c.act name (some (lastTyped name changes)) = some (lastTyped name (changes ++ [c])) := by
  rw [lastTyped, lastTyped, typedFor_concat]
  cases c with
  | formula text =>
    have htext : name ∈ Token.identifiers text := h
    simp [Change.act, htext, Change.typedFor]
  | value n text =>
    by_cases hn : n = name
    · simp [Change.act, hn, Change.typedFor]
    · simp [Change.act, hn, Change.typedFor]
  | reset => simp [change] at h

/-- A change that brings a name into the formula begins with zero. -/
theorem act_none {name : List Char} {s : Sheet} {c : Change}
    (hbefore : name ∉ Token.identifiers s.formula)
    (hafter : name ∈ Token.identifiers (s.change c).formula) : c.act name none = some .zero := by
  cases c with
  | formula text => exact if_pos (List.contains_iff_mem.2 hafter)
  | value n text => exact absurd hafter hbefore
  | reset => simp [change] at hafter

/-- For every name in the formula there is a longest time for which it has stayed there, and its
value is what has been typed for it last in that time. -/
theorem exists_longestStay {name : List Char} {changes : List Change}
    (h : name ∈ Token.identifiers (after changes).formula) :
    ∃ first rest, changes = first ++ rest ∧ LongestStay name first rest ∧
      (after changes).value? name = some (lastTyped name rest) := by
  -- the time goes on with each change, unless the name has just come into the formula
  induction changes using List.reverseRecOn with
  | nil => simp at h
  | append_singleton changes c ih =>
    have hstep : name ∈ Token.identifiers ((after changes).change c).formula := by
      rwa [after_concat] at h
    by_cases hbefore : name ∈ Token.identifiers (after changes).formula
    · obtain ⟨first, rest, rfl, hstay, hvalue⟩ := ih hbefore
      refine ⟨first, rest ++ [c], List.append_assoc _ _ _, hstay.concat ?_, ?_⟩
      · rwa [← List.append_assoc]
      · rw [after_concat, value?_change, hvalue, act_lastTyped rest hstep]
    · refine ⟨changes ++ [c], [], (List.append_nil _).symm, longestStay_nil hbefore h, ?_⟩
      have hnone : (after changes).value? name = none := by
        rwa [value?_eq_none_iff, (sound_after changes).names]
      rw [after_concat, value?_change, hnone, act_none hbefore hstep]
      rfl

/-- Without a change that passes a name, its value is the same in the end. -/
theorem value?_after_remove {name : List Char} {first rest : List Change} {c : Change}
    (h : c.Passes name (after first)) :
    (after (first ++ rest)).value? name = (after (first ++ c :: rest)).value? name := by
  rw [after_append, after_append, List.foldl_cons, value?_foldl_change, value?_foldl_change,
    value?_change_of_passes (sound_after first) h]

/-! ## All together -/

/-- The value of a variable is what has been typed for it last since its name has been in every
formula, or zero. Other edits make no difference to it: something that is typed for another name,
or for a name that is not in the formula at that moment, and a formula that keeps the name. -/
theorem value?_after_eq_lastTyped (changes : List Change) (name : List Char)
    (h : name ∈ Token.identifiers (after changes).formula) :
    (∃ first rest, changes = first ++ rest ∧ LongestStay name first rest ∧
      (after changes).value? name = some (lastTyped name rest)) ∧
    ∀ first c rest, changes = first ++ c :: rest → c.Passes name (after first) →
      (after (first ++ rest)).value? name = (after changes).value? name := by
  refine ⟨exists_longestStay h, ?_⟩
  rintro first c rest rfl hpasses
  exact value?_after_remove hpasses

/-- A name that has been given a value, has left the formula and has come back. -/
theorem value?_after_return :
    ['a'] ∈ Token.identifiers
        (after [.formula ['a'], .value ['a'] ['2'], .formula ['b'], .formula ['b', '/', 'a']]).formula ∧
      (∃ first rest,
        [.formula ['a'], .value ['a'] ['2'], .formula ['b'], .formula ['b', '/', 'a']] =
            first ++ rest ∧
          LongestStay ['a'] first rest ∧
          (after [.formula ['a'], .value ['a'] ['2'], .formula ['b'],
            .formula ['b', '/', 'a']]).value? ['a'] = some (lastTyped ['a'] rest)) ∧
      ∀ first c rest,
        [.formula ['a'], .value ['a'] ['2'], .formula ['b'], .formula ['b', '/', 'a']] =
            first ++ c :: rest → c.Passes ['a'] (after first) →
          (after (first ++ rest)).value? ['a'] = (after [.formula ['a'], .value ['a'] ['2'],
            .formula ['b'], .formula ['b', '/', 'a']]).value? ['a'] := by
  have hnames : Token.identifiers ['b', '/', 'a'] = [['b'], ['a']] := by
    decide +kernel
  have h : ['a'] ∈ Token.identifiers
      (after [.formula ['a'], .value ['a'] ['2'], .formula ['b'], .formula ['b', '/', 'a']]).formula := by
    show ['a'] ∈ Token.identifiers ['b', '/', 'a']
    rw [hnames]
    decide
  exact ⟨h, value?_after_eq_lastTyped _ _ h⟩

end Sheet
end Reckon
