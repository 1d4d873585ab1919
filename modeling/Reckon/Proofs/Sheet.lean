import Reckon.Proofs.Outcome
import Reckon.Sheet

/-!
# What holds of every sheet

However a user edits a sheet and goes back to earlier ones, its variables are the
identifiers of its formula and their values are finite (`Sound`). So no name in
the formula is without a value when the formula is evaluated. The names come
from the lenient scan and the ones that are evaluated from the strict scan and
the grammar, which agree where the formula stands for an expression.

Results:

* `sound_step`: a step adds no sheet that is not sound.
* `sound_run`: nor does a sequence of steps.
* `sound_of_mem_history`: what that means for the sheets of a history.
-/

namespace Reckon
namespace Sheet

/-- The variables are the identifiers of the formula, and their values are finite. -/
structure Sound (s : Sheet) : Prop where
  names : s.names = Token.identifiers s.formula
  finite : ∀ p ∈ s.values, p.2.isFinite = true

/-! ## Values -/

/-- A value that is found is the value of some variable. -/
theorem isFinite_value? {s : Sheet} (h : s.Sound) {name : List Char} {x : Binary64}
    (hx : s.value? name = some x) : x.isFinite = true := by
  obtain ⟨before, after, hvalues, -⟩ := List.lookup_eq_some_iff.1 hx
  refine h.finite (name, x) ?_
  rw [hvalues]
  simp

@[simp] theorem names_bindings (s : Sheet) : s.bindings.names = s.names := by
  unfold Bindings.names bindings names
  rw [List.map_map]
  rfl

/-! ## Without a formula -/

@[simp] theorem formula_empty : empty.formula = [] := rfl

@[simp] theorem identifiers_nil : Token.identifiers [] = [] := by
  simp [Token.identifiers, Token.scan, Token.firstAppearances]

@[simp] theorem names_empty : empty.names = [] := by
  rw [empty, names_ofFormula, identifiers_nil]

/-- Without a formula there is only a prompt. -/
theorem outcome_of_formula_nil {s : Sheet} (h : s.formula = []) : s.outcome = .ok .blank := by
  rw [outcome, h]
  rfl

theorem rendered_empty (m : Markup) : empty.rendered m = [] := by
  have hscan : Token.scan [] = [] := Token.scanFrom_nil 0
  rw [rendered, formula_empty, Markup.formula, Piece.ofFormula, hscan, Piece.ofTokens]
  cases m <;> rfl

/-! ## Edits -/

theorem sound_ofValues (formula : List Char) {value : List Char → Binary64}
    (h : ∀ name, (value name).isFinite = true) : (ofValues formula value).Sound where
  names := by simp [names, ofValues, Function.comp_def]
  finite p hp := by
    obtain ⟨name, -, rfl⟩ := List.mem_map.1 hp
    exact h name

theorem sound_ofFormula (formula : List Char) : (ofFormula formula).Sound :=
  sound_ofValues formula fun _ => rfl

/-- Values that stay are finite, and so is the zero of a new identifier. -/
theorem sound_withFormula {s : Sheet} (h : s.Sound) (formula : List Char) :
    (s.withFormula formula).Sound := by
  apply sound_ofValues
  intro name
  cases hx : s.value? name with
  | none => rfl
  | some x => exact isFinite_value? h hx

/-- What is typed for a variable is a finite number or counts as zero. -/
theorem sound_withVariable {s : Sheet} (h : s.Sound) (name text : List Char) :
    (s.withVariable name text).Sound where
  names := by
    rw [names_withVariable]
    exact h.names
  finite p hp := by
    obtain ⟨q, hq, rfl⟩ := List.mem_map.1 hp
    split_ifs
    · exact Entry.isFinite_number text
    · exact h.finite q hq

/-! ## The outcome -/

/-- No name is undefined in a sound sheet. -/
theorem outcome_ne_undefined {s : Sheet} (h : s.Sound) (name : List Char)
    (equation : Option (List Char)) :
    s.outcome ≠ .ok (.fault (.undefinedVariable name) equation) := by
  intro houtcome
  obtain ⟨hmem, hunbound⟩ :=
    Outcome.undefined_of_evaluate (Outcome.evaluate_of_ofFormula houtcome)
  rw [← h.names, ← names_bindings] at hmem
  obtain ⟨n, hn⟩ := Expr.exists_lookup hmem
  rw [hn] at hunbound
  cases hunbound

end Sheet

/-! ## Histories -/

namespace History

/-- Every sheet of a history is sound. -/
def Sound (h : History) : Prop := ∀ s ∈ h.current :: h.earlier, s.Sound

theorem Sound.push {h : History} (hs : h.Sound) {s : Sheet} (hnew : s.Sound) :
    (h.push s).Sound := by
  rintro t (_ | ⟨_, ht⟩)
  · exact hnew
  · exact hs t ht

/-- A sheet of a history that is taken again is sound. -/
theorem Sound.get? {h : History} (hs : h.Sound) (index : Nat) :
    ((h.get? index).getD h.current).Sound := by
  cases hget : h.get? index with
  | none => exact hs h.current List.mem_cons_self
  | some s => exact hs s (List.mem_reverse.1 (List.mem_of_getElem? hget))

/-- A step adds no sheet that is not sound. -/
theorem sound_step {h : History} (hs : h.Sound) (e : Edit) : (h.step e).Sound := by
  have hcurrent : h.current.Sound := hs h.current List.mem_cons_self
  cases e with
  | formula text => exact hs.push (Sheet.sound_withFormula hcurrent text)
  | value name text => exact hs.push (Sheet.sound_withVariable hcurrent name text)
  | reset => exact hs.push (Sheet.sound_ofFormula [])
  | goTo index => exact hs.push (hs.get? index)

/-- Nor does a sequence of steps. -/
theorem sound_run {h : History} (hs : h.Sound) (edits : List Edit) :
    (edits.foldl step h).Sound := by
  induction edits generalizing h with
  | nil => exact hs
  | cons e edits ih => exact ih (sound_step hs e)

theorem sound_ofFormula (formula : List Char) : Sound ⟨.ofFormula formula, []⟩ := by
  rintro s (_ | ⟨_, hs⟩)
  · exact Sheet.sound_ofFormula formula
  · cases hs

/-- Whatever a user does, every sheet there has been has the identifiers of its formula as its
variables, with finite values, and no name in it is undefined. -/
theorem sound_of_mem_history (formula : List Char) (edits : List Edit) {s : Sheet}
    (hs : s ∈ (edits.foldl step ⟨.ofFormula formula, []⟩).current ::
      (edits.foldl step ⟨.ofFormula formula, []⟩).earlier) :
    s.names = Token.identifiers s.formula ∧ (∀ p ∈ s.values, p.2.isFinite = true) ∧
      ∀ name equation, s.outcome ≠ .ok (.fault (.undefinedVariable name) equation) := by
  have h : s.Sound := sound_run (sound_ofFormula formula) edits s hs
  exact ⟨h.names, h.finite, Sheet.outcome_ne_undefined h⟩

/-- A history in which the name of a formula is given a value and the first sheet is taken again. -/
theorem sound_of_mem_history_name :
    Sheet.ofFormula ['a'] ∈ [Sheet.ofFormula ['a'], (Sheet.ofFormula ['a']).withVariable ['a'] ['2'],
      Sheet.ofFormula ['a']] ∧
    (Sheet.ofFormula ['a']).names = Token.identifiers ['a'] ∧
    (∀ p ∈ (Sheet.ofFormula ['a']).values, p.2.isFinite = true) ∧
    ∀ name equation, (Sheet.ofFormula ['a']).outcome ≠
      .ok (.fault (.undefinedVariable name) equation) := by
  have hs : Sheet.ofFormula ['a'] ∈ [Sheet.ofFormula ['a'],
      (Sheet.ofFormula ['a']).withVariable ['a'] ['2'], Sheet.ofFormula ['a']] :=
    List.mem_cons_self
  exact ⟨hs, sound_of_mem_history ['a'] [.value ['a'] ['2'], .goTo 0] hs⟩

end History
end Reckon
