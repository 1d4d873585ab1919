import Reckon.Proofs.Sheet.Lifetime

/-!
# The order of the variables

Sheets are compared without regard to the order of their variables, and a hash
is made of the variables in their order. The order is that of the identifiers in
the formula, unless variables have been given with the formula and it has not
been replaced since; these keep the order in which they have been given
(`Origin.order`). So equal sheets have the same hash exactly if their variables
stand in the same order.

Results:

* `names_ofPairs`: in which order given variables stand.
* `names_after`: in which order variables stand after any changes.
* `sameInOrder_iff`: when two sheets are made into the same hash.
-/

namespace Reckon

open Token (firstAppearances)

/-- How a sheet is made: with a formula alone, or with variables for it. -/
inductive Origin where
  | formula (text : List Char)
  | given (text : List Char) (pairs : List (List Char × Binary64))

/-- Whether a change replaces the formula. -/
def Change.replaces : Change → Bool
  | formula _ => true
  | value _ _ => false
  | reset => true

namespace Origin

/-- The sheet that is made. -/
def sheet : Origin → Sheet
  | formula text => .ofFormula text
  | given text pairs => .ofVariables text pairs

/-- The sheet after changes. -/
def after (o : Origin) (changes : List Change) : Sheet := changes.foldl Sheet.change o.sheet

/-- Variables have been given, and the formula has not been replaced since. -/
def IsGiven (o : Origin) (changes : List Change) : Prop :=
  (∃ text pairs, o = given text pairs) ∧ changes.any Change.replaces = false

/-- The names of the variables as they stand in the sheet that is made. -/
def names : Origin → List (List Char)
  | formula text => Token.identifiers text
  | given _ pairs => firstAppearances (pairs.map Prod.fst)

/-- The names of the variables as they stand after changes. -/
def order (o : Origin) (changes : List Change) : List (List Char) :=
  if changes.any Change.replaces then Token.identifiers (o.after changes).formula else o.names

end Origin

namespace Sheet

/-! ## The order of names -/

theorem names_put (values : List (List Char × Binary64)) (name : List Char) (value : Binary64) :
    (put values name value).map Prod.fst =
      if name ∈ values.map Prod.fst then values.map Prod.fst
      else values.map Prod.fst ++ [name] := by
  unfold put
  split
  · exact names_update values name value
  · exact List.map_append

/-- A name that comes last adds nothing if it has appeared before. -/
theorem firstAppearances_concat (names : List (List Char)) (name : List Char) :
    firstAppearances (names ++ [name]) =
      if name ∈ names then firstAppearances names else firstAppearances names ++ [name] := by
  induction names with
  | nil => rfl
  | cons n names ih =>
    rw [List.cons_append, firstAppearances, ih, firstAppearances]
    by_cases hn : name = n
    · subst hn
      by_cases hmem : name ∈ names <;> simp [hmem]
    · by_cases hmem : name ∈ names <;> simp [hmem, hn]

/-- Given variables stand in the order in which their names first appear. -/
theorem names_ofPairs (pairs : List (List Char × Binary64)) :
    (ofPairs pairs).map Prod.fst = firstAppearances (pairs.map Prod.fst) := by
  induction pairs using List.reverseRecOn with
  | nil => rfl
  | append_singleton pairs p ih =>
    have hput : ofPairs (pairs ++ [p]) = put (ofPairs pairs) p.1 p.2 := List.foldl_append
    rw [hput, names_put, ih, List.map_append, List.map_singleton, firstAppearances_concat]
    simp only [Token.mem_firstAppearances]

/-- A change that replaces the formula puts the variables in the order of its identifiers, and
another change leaves their order. -/
theorem names_change (s : Sheet) (c : Change) :
    (s.change c).names =
      if c.replaces then Token.identifiers (s.change c).formula else s.names := by
  cases c with
  | formula text => exact names_withFormula s text
  | value name text => exact names_withVariable s name text
  | reset => exact names_empty.trans identifiers_nil.symm

/-- So do changes, of which the last one that replaces the formula counts. -/
theorem names_foldl_change (s : Sheet) (changes : List Change) :
    (changes.foldl change s).names =
      if changes.any Change.replaces then Token.identifiers (changes.foldl change s).formula
      else s.names := by
  induction changes using List.reverseRecOn with
  | nil => rfl
  | append_singleton changes c ih =>
    rw [List.foldl_append, List.foldl_cons, List.foldl_nil, names_change, List.any_append, ih]
    cases c with
    | formula text => simp [Change.replaces]
    | value name text => simp [Change.replaces, change, withVariable]
    | reset => simp [Change.replaces]

/-- The order of the variables after any changes. -/
theorem names_after (o : Origin) (changes : List Change) :
    (o.after changes).names = o.order changes := by
  have hmade : o.sheet.names = o.names := by
    cases o with
    | formula text => exact names_ofFormula text
    | given text pairs => exact names_ofPairs pairs
  rw [Origin.after, names_foldl_change, hmade]
  rfl

theorem formula_foldl_change (s : Sheet) {changes : List Change}
    (h : changes.any Change.replaces = false) : (changes.foldl change s).formula = s.formula := by
  induction changes generalizing s with
  | nil => rfl
  | cons c changes ih =>
    rw [List.any_cons, Bool.or_eq_false_iff] at h
    rw [List.foldl_cons, ih (s.change c) h.2]
    cases c with
    | formula text => cases h.1
    | value name text => rfl
    | reset => cases h.1

/-- The order is that of the identifiers unless the variables are still the given ones. -/
theorem order_of_not_isGiven {o : Origin} {changes : List Change} (h : ¬ o.IsGiven changes) :
    o.order changes = Token.identifiers (o.after changes).formula := by
  unfold Origin.order
  split
  · rfl
  · rename_i hkeeps
    have hkeeps' : changes.any Change.replaces = false := Bool.eq_false_of_not_eq_true hkeeps
    cases o with
    | formula text =>
      rw [Origin.after, formula_foldl_change _ hkeeps']
      rfl
    | given text pairs => exact absurd ⟨⟨text, pairs, rfl⟩, hkeeps'⟩ h

/-! ## Comparisons -/

/-- Values that stand in the same order are compared one by one. -/
theorem all_lookup_iff_all_zip {a b : List (List Char × Binary64)}
    (hnames : a.map Prod.fst = b.map Prod.fst) (hnodup : (a.map Prod.fst).Nodup) :
    (∀ p ∈ a, (b.lookup p.1).any p.2.same = true) ↔ ∀ p ∈ a.zip b, p.1.2.same p.2.2 = true := by
  induction a generalizing b with
  | nil => simp
  | cons p a ih =>
    cases b with
    | nil => cases hnames
    | cons q b =>
      obtain ⟨hname, hrest⟩ := List.cons.inj hnames
      obtain ⟨hnew, hnodup⟩ := List.nodup_cons.1 hnodup
      have hlater : ∀ r ∈ a, (q :: b).lookup r.1 = b.lookup r.1 := by
        intro r hr
        have hne : r.1 ≠ q.1 := by
          intro heq
          exact hnew (hname ▸ heq ▸ List.mem_map_of_mem hr)
        rw [List.lookup_cons, beq_false_of_ne hne]
      rw [List.forall_mem_cons, List.zip_cons_cons, List.forall_mem_cons, ← ih hrest hnodup]
      have hall : (∀ r ∈ a, ((q :: b).lookup r.1).any r.2.same = true) ↔
          ∀ r ∈ a, (b.lookup r.1).any r.2.same = true :=
        forall₂_congr fun r hr => by rw [hlater r hr]
      have hfirst : (q :: b).lookup p.1 = some q.2 := by
        rw [hname]
        exact List.lookup_cons_self
      rw [hfirst, hall, ih hrest hnodup]
      rfl

/-- Sheets are the same in order if and only if they are the same and their variables stand in the
same order. -/
theorem sameInOrder_iff_names (s t : Sheet) :
    s.sameInOrder t = true ↔ s.same t = true ∧ s.names = t.names := by
  unfold sameInOrder same
  simp only [Bool.and_eq_true, beq_iff_eq, List.all_eq_true]
  constructor
  · rintro ⟨⟨hformula, hnames⟩, hvalues⟩
    have hlength : s.values.length = t.values.length := by
      have := congrArg List.length hnames
      simpa [names] using this
    exact ⟨⟨⟨hformula, hlength⟩, (all_lookup_iff_all_zip hnames s.nodup).2 hvalues⟩, hnames⟩
  · rintro ⟨⟨⟨hformula, -⟩, hvalues⟩, hnames⟩
    exact ⟨⟨hformula, hnames⟩, (all_lookup_iff_all_zip hnames s.nodup).1 hvalues⟩

/-- Two sheets are made into the same hash if and only if they are the same and their variables
stand in the same order. So sheets that are the same have the same hash unless one of them still has
variables that have been given with its formula. -/
theorem sameInOrder_iff (o o' : Origin) (changes changes' : List Change) :
    ((o.after changes).sameInOrder (o'.after changes') = true ↔
      (o.after changes).same (o'.after changes') = true ∧ o.order changes = o'.order changes') ∧
    (¬ o.IsGiven changes → ¬ o'.IsGiven changes' →
      (o.after changes).same (o'.after changes') = true →
      (o.after changes).sameInOrder (o'.after changes') = true) := by
  have hiff := sameInOrder_iff_names (o.after changes) (o'.after changes')
  rw [names_after, names_after] at hiff
  refine ⟨hiff, fun h h' hsame => hiff.2 ⟨hsame, ?_⟩⟩
  have hformula : (o.after changes).formula = (o'.after changes').formula := by
    unfold same at hsame
    simp only [Bool.and_eq_true, beq_iff_eq] at hsame
    exact hsame.1.1
  rw [order_of_not_isGiven h, order_of_not_isGiven h', hformula]

/-- Variables that have been given in another order than that of the identifiers, and the same
formula typed again. -/
theorem not_sameInOrder_given :
    ((Origin.given ['a', '+', 'b'] [(['b'], .zero), (['a'], .zero)]).after []).same
        ((Origin.given ['a', '+', 'b'] [(['b'], .zero), (['a'], .zero)]).after
          [.formula ['a', '+', 'b']]) = true ∧
      ((Origin.given ['a', '+', 'b'] [(['b'], .zero), (['a'], .zero)]).after []).sameInOrder
        ((Origin.given ['a', '+', 'b'] [(['b'], .zero), (['a'], .zero)]).after
          [.formula ['a', '+', 'b']]) = false := by
  decide +kernel

end Sheet
end Reckon
