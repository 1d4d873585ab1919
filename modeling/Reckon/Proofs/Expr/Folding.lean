import Reckon.Display
import Reckon.Proofs.Binary64.Zeros
import Reckon.Proofs.Decimal.Ratio
import Reckon.Proofs.Expr.Evaluation
import Reckon.Proofs.Grammar.Folding

/-!
# Folded signs do not show

Expressions that differ in signs folded into numbers have the same value but for
the sign of zero, or faults of one kind with one code: every operator and every
power takes operands that are the same to results that are the same. A zero is
shown without its sign, so nothing that is shown tells the expressions apart.

Results:

* `both_value`: the values of two such expressions.
* `outcome_of_same`: the same numbers are shown alike.
* `shown_by_subtracting`: formulas under both conventions.
-/

namespace Reckon

/-- Failures that are faults of one kind and one code. -/
def Failure.SameCode (failure other : Failure) : Prop :=
  ∃ f g : Fault, failure = .fault f ∧ other = .fault g ∧ f.kind = g.kind ∧ f.code = g.code

/-- Finite numbers that are the same but for the sign of zero. -/
def Binary64.SameFinite (x y : Binary64) : Prop :=
  x.isFinite = true ∧ y.isFinite = true ∧ x.same y = true

namespace Expr

/-- The same finite value, or faults of one kind and code. -/
abbrev ValueAlike : Except Failure Binary64 → Except Failure Binary64 → Prop :=
  Both Failure.SameCode Binary64.SameFinite

variable {b : Bindings} {x y x' y' : Binary64} {r r' : Except Failure Binary64} {e e' : Expr}

/-! ## Steps of the evaluation -/

theorem valueAlike_fault {f g : Fault} (hkind : f.kind = g.kind) (hcode : f.code = g.code) :
    ValueAlike (.error (.fault f)) (.error (.fault g)) :=
  .error ⟨f, g, rfl, rfl, hkind, hcode⟩

theorem ValueAlike.bind {next next' : Binary64 → Except Failure Binary64} (h : ValueAlike r r')
    (hnext : ∀ x y, x.same y = true → ValueAlike (next x) (next' y)) :
    ValueAlike (r >>= next) (r' >>= next') :=
  Both.bind h fun x y _ hxy => hnext x y hxy.2.2

theorem valueAlike_finite (h : x.same y = true) : ValueAlike (finite x) (finite y) := by
  have hfinite := Binary64.isFinite_of_same h
  unfold finite
  by_cases hx : x.isFinite = true
  · rw [if_pos hx, if_pos (hfinite ▸ hx)]
    exact .ok ⟨hx, hfinite ▸ hx, h⟩
  · rw [if_neg hx, if_neg (hfinite ▸ hx)]
    exact valueAlike_fault rfl rfl

/-- A step that ends as it may ends like itself. -/
theorem valueAlike_of_settled {names : List (List Char)} (h : Settled b names (·.isFinite = true) r) :
    ValueAlike r r := by
  cases h with
  | result finite => exact .ok ⟨finite, finite, Binary64.same_refl _⟩
  | undefined mem unbound noSplit => exact valueAlike_fault rfl rfl
  | calculation kind => exact valueAlike_fault rfl rfl

theorem valueAlike_combine (op : Operator) (hx : x.same x' = true) (hy : y.same y' = true) :
    ValueAlike (combine op x y) (combine op x' y') := by
  cases op with
  | plus => exact valueAlike_finite (Binary64.same_add hx hy)
  | minus => exact valueAlike_finite (Binary64.same_sub hx hy)
  | times => exact valueAlike_finite (Binary64.same_mul hx hy)
  | dividedBy =>
    simp only [combine, ← Binary64.isZero_of_same hy]
    split_ifs with hzero
    · exact valueAlike_fault rfl rfl
    · exact valueAlike_finite (Binary64.same_div hx hy (Bool.eq_false_iff.2 hzero))
  | unknown text => exact valueAlike_fault rfl rfl

theorem valueAlike_raise (coefficient : Binary64) (h : x.same y = true) {n : Int} (hn : 0 ≤ n) :
    ValueAlike (raise coefficient x n) (raise coefficient y n) := by
  obtain rfl | ⟨s, t, rfl, rfl⟩ := Binary64.same_iff_cases.1 h
  · have hsettled : Settled [] [] (·.isFinite = true) (raise coefficient x n) :=
      settled_raise coefficient x hn
    exact valueAlike_of_settled hsettled
  · unfold raise
    rcases Binary64.pow_signedZero s t n with ⟨u, v, hu, hv, huv⟩ | ⟨f, hs, ht⟩
    · rw [hu, hv]
      exact valueAlike_finite (Binary64.same_mul (Binary64.same_refl coefficient) huv)
    · cases f with
      | tooBig =>
        rw [hs, ht]
        exact valueAlike_fault rfl rfl
      | zeroToNegative => exact absurd hs (pow_ne_zeroToNegative _ hn)

/-! ## Values -/

/-- A sign of a number, folded into it or as a subtraction. -/
theorem valueAlike_minus (h : ValueAlike (finite x) (value b e)) :
    ValueAlike (finite x.neg) (value b (binary .minus (literal .zero) e)) := by
  have hvalue : value b (binary .minus (literal .zero) e) =
      value b e >>= fun y => finite (Binary64.zero.sub y) := rfl
  rw [hvalue]
  by_cases hx : x.isFinite = true
  · rw [finite, if_pos hx] at h
    generalize value b e = r at h ⊢
    cases h with
    | ok hxy =>
      have hneg := Binary64.same_trans (Binary64.same_neg hxy.2.2)
        (Binary64.same_symm (Binary64.zero_sub_same_neg _))
      exact valueAlike_finite hneg
  · have hneg : ¬x.neg.isFinite = true := by rwa [Binary64.isFinite_neg]
    rw [finite, if_neg hx] at h
    rw [finite, if_neg hneg]
    generalize value b e = r at h ⊢
    cases h with
    | error hcode =>
      obtain ⟨f, g, hf, hg, hkind, hcode⟩ := hcode
      cases hf
      exact .error ⟨_, g, rfl, hg, hkind, hcode⟩

/-- Expressions that differ in folded signs have the same finite value, or faults of one kind and
code. -/
theorem both_value (h : Folds e e') (proper : e.Proper) (b : Bindings) :
    ValueAlike (e.value b) (e'.value b) := by
  induction h with
  | literal x => exact valueAlike_finite (Binary64.same_refl x)
  | minus number ih => exact valueAlike_minus (ih (.literal _))
  | var name => exact valueAlike_of_settled (settled_value proper)
  | binary op hleft hright ihl ihr =>
    cases proper with
    | binary known pleft pright =>
      exact (ihl pleft).bind fun x x' hx => (ihr pright).bind fun y y' hy =>
        valueAlike_combine op hx hy
  | power n hbase ih =>
    cases proper with
    | power isBase nonneg pbase =>
      -- a name with an exponent is not evaluated as a name
      cases hbase with
      | var name => exact valueAlike_of_settled (settled_value (.power isBase nonneg pbase))
      | group hinner => exact (ih pbase).bind fun x y hxy => valueAlike_raise .one hxy nonneg
      | _ => cases isBase
  | group hinner ih =>
    cases proper with
    | group pinner => exact ih pinner

end Expr

/-! ## Zeros that are shown -/

namespace Display

open Binary64 (signedZero)

theorem plainText_of_coefficient_eq_zero {d : Decimal} (h : d.coefficient = 0) :
    plainText d = ['0'] := by
  have hzero : (d.toPrecision significantDigits).coefficient = 0 := by
    rw [Decimal.toPrecision, Decimal.dropDigits, h, halfEven_zero]
  rw [plainText, if_pos hzero]

theorem toDecimal?_signedZero (s : Bool) : (signedZero s).toDecimal? = some ⟨s, 0, 0⟩ := by
  have hshortest : Binary64.shortest 0 = ⟨false, 0, 0⟩ := by simp only [Binary64.shortest, if_true]
  simp only [signedZero, Binary64.toDecimal?, hshortest]

theorem isWhole_signedZero (s : Bool) : (signedZero s).isWhole = true := by
  simp only [signedZero, Binary64.isWhole, Nat.zero_mod, beq_self_eq_true]

theorem asDecimal_signedZero (places : Option Int) (s : Bool) :
    asDecimal places (.double (signedZero s)) = .ok ⟨['0'], false⟩ := by
  unfold asDecimal
  simp only [toDecimal?_signedZero]
  rw [if_pos (isWhole_signedZero s), plainText_of_coefficient_eq_zero rfl]

theorem asFraction_signedZero (s : Bool) :
    asFraction (.double (signedZero s)) = .ok (nearestFraction 0) := by
  unfold asFraction
  simp only [toDecimal?_signedZero]
  rw [Decimal.toRat_eq_zero_iff.2 rfl]

/-- The same numbers are shown alike. -/
theorem outcome_of_same (options : DisplayOptions) {x y : Binary64} (h : x.same y = true) :
    outcome options (.value x) = outcome options (.value y) := by
  obtain rfl | ⟨s, t, rfl, rfl⟩ := Binary64.same_iff_cases.1 h
  · rfl
  · simp only [outcome, value, asDecimal_signedZero, asFraction_signedZero]

end Display

/-! ## Formulas -/

namespace Outcome

open Reckon.Expr (Conventions ValueAlike)

/-- The value of a formula under conventions. -/
def evaluateBy (c : Conventions) (formula : List Char) (b : Bindings) :
    Except Failure Binary64 := do
  (← Expr.parseBy c formula).value b

/-- The outcome of a formula under conventions. -/
def ofFormulaBy (c : Conventions) (formula : List Char) (b : Bindings) :
    Except Breakdown Outcome :=
  if isBlankFormula formula then .ok .blank else ofResult formula (evaluateBy c formula b)

theorem ofFormula_eq_ofFormulaBy (formula : List Char) (b : Bindings) :
    ofFormula formula b = ofFormulaBy .standard formula b := rfl

variable {formula : List Char} {b : Bindings}

/-- The expressions of a formula under both conventions have the same values. -/
theorem both_values (formula : List Char) :
    Both Eq (fun e e' => ∀ b, ValueAlike (e.value b) (e'.value b))
      (Expr.parse formula) (Expr.parseBy .subtracting formula) := by
  have h := Grammar.both_parse formula
  generalize hr : Expr.parse formula = r at h ⊢
  generalize Expr.parseBy .subtracting formula = r' at h ⊢
  cases h with
  | ok hfolds => exact .ok fun b => Expr.both_value hfolds (Grammar.proper_of_parse hr) b
  | error h => exact .error h

/-- Only what is the same in both results is shown of them. -/
theorem shown_ofResult {r r' : Except Failure Binary64}
    (h : Both (fun f g => f = g ∨ f.SameCode g) Binary64.SameFinite r r')
    (equation : Option (List Char)) (options : DisplayOptions) :
    (ofResult equation r).map (Display.outcome options) =
      (ofResult equation r').map (Display.outcome options) := by
  cases h with
  | ok h => exact congrArg Except.ok (Display.outcome_of_same options h.2.2)
  | error h =>
    obtain rfl | ⟨f, g, rfl, rfl, -, -⟩ := h
    · rfl
    · rfl

/-- Without signs that are folded into numbers the same formulas are refused for the same reasons,
and the others have the same values but for the sign of zero, or faults of the same kind and code.
Whatever the options are, the same text is shown. -/
theorem shown_by_subtracting (formula : List Char) :
    Both Eq
        (fun e e' => ∀ b, Both Failure.SameCode Binary64.SameFinite (e.value b) (e'.value b))
        (Expr.parse formula) (Expr.parseBy .subtracting formula) ∧
      ∀ (b : Bindings) (options : DisplayOptions),
        (ofFormula formula b).map (Display.outcome options) =
          (ofFormulaBy .subtracting formula b).map (Display.outcome options) := by
  refine ⟨both_values formula, fun b options => ?_⟩
  have hvalues : Both (fun f g => f = g ∨ f.SameCode g) Binary64.SameFinite
      (evaluateBy .standard formula b) (evaluateBy .subtracting formula b) := by
    refine Both.bind ((both_values formula).mono (fun f g => .inl) fun e e' h => h b) ?_
    exact fun e e' _ h => h.mono (fun f g => .inr) fun x y => id
  rw [ofFormula_eq_ofFormulaBy, ofFormulaBy, ofFormulaBy]
  split_ifs
  · rfl
  · exact shown_ofResult hvalues formula options

/-- The sign of a zero is all that is left of the difference. -/
example : evaluate "-0".toList [] = .ok Binary64.zero.neg ∧
    evaluateBy .subtracting "-0".toList [] = .ok .zero := by
  constructor <;> cbv

end Outcome
end Reckon
