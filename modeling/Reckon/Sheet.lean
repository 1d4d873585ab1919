import Reckon.Display
import Reckon.Entry
import Reckon.Markup.Formula

/-!
# What the user has entered

A sheet (`FormulaState`) is the text of a formula and a value for each of its
variables. Every edit gives a new sheet. An edit of the formula keeps the values
of the identifiers that stay; new ones begin at zero, and those that disappear
are dropped.

Results:

* `names_withFormula`: after an edit of the formula the variables are its
  identifiers, in their order.
* `names_withVariable`: an edit of a variable changes no name.
-/

namespace Reckon

/-- A formula and the values of its variables. -/
structure Sheet where
  formula : List Char
  /-- The values, in the order of the identifiers. -/
  values : List (List Char × Binary64)
  nodup : (values.map Prod.fst).Nodup

namespace Sheet

/-- The names of the variables. -/
def names (s : Sheet) : List (List Char) := s.values.map Prod.fst

/-- The value of a variable. -/
def value? (s : Sheet) (name : List Char) : Option Binary64 := s.values.lookup name

/-! ## Building sheets -/

/-- Gives a name a value in place, or adds it at the end. -/
def put (values : List (List Char × Binary64)) (name : List Char) (value : Binary64) :
    List (List Char × Binary64) :=
  if name ∈ values.map Prod.fst then
    values.map fun p => if p.1 = name then (name, value) else p
  else values ++ [(name, value)]

theorem names_update (values : List (List Char × Binary64)) (name : List Char)
    (value : Binary64) :
    (values.map fun p => if p.1 = name then (name, value) else p).map Prod.fst =
      values.map Prod.fst := by
  rw [List.map_map]
  refine List.map_congr_left fun p _ => ?_
  by_cases h : p.1 = name <;> simp [h]

theorem nodup_put {values : List (List Char × Binary64)}
    (h : (values.map Prod.fst).Nodup) (name : List Char) (value : Binary64) :
    ((put values name value).map Prod.fst).Nodup := by
  unfold put
  split
  · rwa [names_update]
  · rename_i hn
    rw [List.map_append]
    refine List.nodup_append.2 ⟨h, by simp, ?_⟩
    intro a ha b hb hab
    simp at hb
    exact hn (hb ▸ hab ▸ ha)

/-- The variables of a list of names with values; of two values of one name the later counts. -/
def ofPairs (pairs : List (List Char × Binary64)) : List (List Char × Binary64) :=
  pairs.foldl (fun values p => put values p.1 p.2) []

theorem nodup_foldl_put (pairs values : List (List Char × Binary64))
    (h : (values.map Prod.fst).Nodup) :
    ((pairs.foldl (fun values p => put values p.1 p.2) values).map Prod.fst).Nodup := by
  induction pairs generalizing values with
  | nil => exact h
  | cons p pairs ih => exact ih _ (nodup_put h p.1 p.2)

/-- A formula with the variables that are given for it. -/
def ofVariables (formula : List Char) (pairs : List (List Char × Binary64)) : Sheet :=
  ⟨formula, ofPairs pairs, nodup_foldl_put pairs [] List.nodup_nil⟩

/-- A formula with a value for each of its identifiers. -/
def ofValues (formula : List Char) (value : List Char → Binary64) : Sheet :=
  ⟨formula, (Token.identifiers formula).map fun name => (name, value name), by
    rw [List.map_map]
    exact (List.map_id' _).symm ▸ Token.nodup_identifiers formula⟩

/-- A formula with zero as the value of each of its identifiers. -/
def ofFormula (formula : List Char) : Sheet := ofValues formula fun _ => .zero

/-- The sheet without a formula (`reset`). -/
def empty : Sheet := ofFormula []

/-! ## Edits -/

/-- The sheet with another formula (`with_formula`). -/
def withFormula (s : Sheet) (formula : List Char) : Sheet :=
  ofValues formula fun name => (s.value? name).getD .zero

/-- The sheet with what has been typed as the value of a variable; other names are ignored
(`with_variable`). -/
def withVariable (s : Sheet) (name text : List Char) : Sheet :=
  ⟨s.formula, s.values.map fun p => if p.1 = name then (name, Entry.number text) else p, by
    rw [names_update]
    exact s.nodup⟩

/-! ## Views -/

/-- The values of the variables as numbers. -/
def bindings (s : Sheet) : Bindings := s.values.map fun (name, x) => (name, .double x)

/-- What the formula comes to (`result`). -/
def outcome (s : Sheet) : Except Breakdown Outcome := Outcome.ofFormula s.formula s.bindings

/-- What is told of the evaluation when diagnostics are on. -/
def diagnostics (s : Sheet) : String := Outcome.diagnostics s.formula s.bindings

/-- The formula as it is rendered. -/
def rendered (s : Sheet) (m : Markup) : List Char := m.formula s.formula

/-- The listing of a sheet. -/
def written (s : Sheet) : List Char :=
  let items := s.values.map fun (name, x) => Text.quoted name ++ ": ".toList ++ x.written
  "FormulaState(".toList ++ Text.quoted s.formula ++ ", ".toList ++
    '\x7b' :: (", ".toList.intercalate items ++ "\x7d)".toList)

/-! ## Comparing sheets -/

/-- The same formula and the same values of the same names, in any order. -/
def same (s t : Sheet) : Bool :=
  s.formula == t.formula && s.values.length == t.values.length &&
    s.values.all fun (name, x) => (t.value? name).any x.same

/-- The same formula and the same names and values in the same order, which is what a hash is
made of. -/
def sameInOrder (s t : Sheet) : Bool :=
  s.formula == t.formula && s.names == t.names &&
    (s.values.zip t.values).all fun (p, q) => p.2.same q.2

/-- The names or their order differ (`identifiers_changed`). -/
def namesDiffer (s t : Sheet) : Bool := s.names != t.names

/-! ## Lemmas -/

/-- After an edit of the formula the variables are its identifiers. -/
theorem names_withFormula (s : Sheet) (formula : List Char) :
    (s.withFormula formula).names = Token.identifiers formula := by
  simp [names, withFormula, ofValues, Function.comp_def]

theorem names_ofFormula (formula : List Char) :
    (ofFormula formula).names = Token.identifiers formula := by
  simp [names, ofFormula, ofValues, Function.comp_def]

/-- An edit of a variable changes no name. -/
theorem names_withVariable (s : Sheet) (name text : List Char) :
    (s.withVariable name text).names = s.names :=
  names_update _ _ _

end Sheet

/-! ## Histories -/

/-- A step of a user who edits a sheet or goes back to an earlier one. -/
inductive Edit where
  | formula (text : List Char)
  | value (name text : List Char)
  | reset
  /-- Takes the sheet at this place of the history again. -/
  | goTo (index : Nat)
deriving DecidableEq, Repr

/-- All sheets there have been, the current one first. -/
structure History where
  current : Sheet
  earlier : List Sheet

namespace History

/-- The sheet at a place, counted from the first. -/
def get? (h : History) (index : Nat) : Option Sheet := (h.current :: h.earlier).reverse[index]?

/-- The history with a new current sheet. -/
def push (h : History) (s : Sheet) : History := ⟨s, h.current :: h.earlier⟩

/-- The history after a step. -/
def step (h : History) : Edit → History
  | .formula text => h.push (h.current.withFormula text)
  | .value name text => h.push (h.current.withVariable name text)
  | .reset => h.push .empty
  | .goTo index => h.push ((h.get? index).getD h.current)

end History
end Reckon
