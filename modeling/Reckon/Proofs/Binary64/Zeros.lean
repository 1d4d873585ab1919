import Mathlib.Tactic.SplitIfs
import Reckon.Binary64.Power

/-!
# The sign of zero

Zero has two signs, and they are told apart by no comparison. What is computed
from a zero depends on its sign at most in the sign of a zero, as long as it is
not divided by.

Results:

* `same_iff_cases`: the same numbers are equal, or zeros.
* `same_add`, `same_sub`, `same_mul`, `same_div`: the same operands have the same
  results.
* `pow_signedZero`: the powers of the two zeros.
* `zero_sub_same_neg`: zero minus a number is its negation.
-/

namespace Reckon
namespace Binary64

/-- Zero with a sign. -/
def signedZero (negative : Bool) : Binary64 := .finite negative 0 representable_zero

variable {x y z x' y' : Binary64}

/-! ## Zeros -/

@[simp] theorem isZero_signedZero (s : Bool) : (signedZero s).isZero = true := rfl

theorem isZero_iff : x.isZero = true ↔ ∃ s, x = signedZero s := by
  constructor
  · intro h
    cases x with
    | finite s u hu =>
      obtain rfl : u = 0 := by simpa [isZero] using h
      exact ⟨s, rfl⟩
    | infinite s => cases h
    | nan => cases h
  · rintro ⟨s, rfl⟩
    rfl

/-! ## The same number -/

/-- The same numbers are equal, or zeros. -/
theorem same_iff_cases : x.same y = true ↔ x = y ∨ ∃ s t, x = signedZero s ∧ y = signedZero t := by
  simp only [same, Bool.or_eq_true, Bool.and_eq_true, beq_iff_eq, isZero_iff, exists_and_left,
    exists_and_right]

theorem same_refl (x : Binary64) : x.same x = true := same_iff_cases.2 (.inl rfl)

theorem same_signedZero (s t : Bool) : (signedZero s).same (signedZero t) = true :=
  same_iff_cases.2 (.inr ⟨s, t, rfl, rfl⟩)

theorem same_of_isZero (hx : x.isZero = true) (hy : y.isZero = true) : x.same y = true := by
  simp [same, hx, hy]

theorem same_symm (h : x.same y = true) : y.same x = true := by
  obtain rfl | ⟨s, t, rfl, rfl⟩ := same_iff_cases.1 h
  · exact h
  · exact same_signedZero t s

theorem same_trans (hxy : x.same y = true) (hyz : y.same z = true) : x.same z = true := by
  obtain rfl | ⟨s, t, rfl, rfl⟩ := same_iff_cases.1 hxy
  · exact hyz
  · obtain rfl | ⟨-, u, -, rfl⟩ := same_iff_cases.1 hyz
    · exact hxy
    · exact same_signedZero s u

theorem isFinite_of_same (h : x.same y = true) : x.isFinite = y.isFinite := by
  obtain rfl | ⟨s, t, rfl, rfl⟩ := same_iff_cases.1 h <;> rfl

theorem isZero_of_same (h : x.same y = true) : x.isZero = y.isZero := by
  obtain rfl | ⟨s, t, rfl, rfl⟩ := same_iff_cases.1 h <;> rfl

/-! ## Results from zeros -/

/-- What comes to the same from zeros of either sign comes to the same from the same numbers. -/
theorem same_congr {f : Binary64 → Binary64}
    (zeros : ∀ s t, (f (signedZero s)).same (f (signedZero t)) = true) (h : x.same y = true) :
    (f x).same (f y) = true := by
  obtain rfl | ⟨s, t, rfl, rfl⟩ := same_iff_cases.1 h
  · exact same_refl _
  · exact zeros s t

theorem same_neg (h : x.same y = true) : x.neg.same y.neg = true :=
  same_congr (fun s t => same_signedZero (!s) !t) h

/-- A zero that is added changes nothing but the sign of a zero. -/
theorem signedZero_add_same (s : Bool) (x : Binary64) : ((signedZero s).add x).same x = true := by
  cases x with
  | finite t b hb =>
    have hb1 : ofRatio t b 1 = .finite t b hb := by
      simpa only [Nat.mul_one] using ofRatio_units t hb (d := 1) (by decide)
    rw [signedZero, add, Nat.zero_add]
    split_ifs with hst hzero hlt
    · rw [hst, hb1]
      exact same_refl _
    · exact same_of_isZero rfl (by simp [isZero, ← hzero])
    · exact absurd hlt (Nat.not_lt_zero b)
    · rw [Nat.sub_zero, hb1]
      exact same_refl _
  | infinite t => exact same_refl _
  | nan => exact same_refl _

protected theorem add_comm (x y : Binary64) : x.add y = y.add x := by
  cases x with
  | finite s a _ =>
    cases y with
    | finite t b _ =>
      simp only [add]
      rcases Decidable.em (s = t) with rfl | hst
      · simp only [if_true, Nat.add_comm]
      · rw [if_neg hst, if_neg (Ne.symm hst)]
        rcases Nat.lt_trichotomy a b with h | rfl | h
        · rw [if_neg (Nat.ne_of_lt h), if_neg (Nat.lt_asymm h), if_neg (Nat.ne_of_gt h), if_pos h]
        · rw [if_pos rfl, if_pos rfl]
        · rw [if_neg (Nat.ne_of_gt h), if_pos h, if_neg (Nat.ne_of_lt h), if_neg (Nat.lt_asymm h)]
    | infinite t => rfl
    | nan => rfl
  | infinite s =>
    cases y with
    | finite t b _ => rfl
    | infinite t =>
      simp only [add]
      rcases Decidable.em (s = t) with rfl | hst
      · rfl
      · rw [if_neg hst, if_neg (Ne.symm hst)]
    | nan => rfl
  | nan => cases y <;> rfl

/-- The same summands have the same sum. -/
theorem same_add (hx : x.same x' = true) (hy : y.same y' = true) :
    (x.add y).same (x'.add y') = true := by
  have hleft : (x.add y).same (x'.add y) = true := same_congr (f := fun z => z.add y)
    (fun s t => same_trans (signedZero_add_same s y) (same_symm (signedZero_add_same t y))) hx
  have hright : (y.add x').same (y'.add x') = true := same_congr (f := fun z => z.add x')
    (fun s t => same_trans (signedZero_add_same s x') (same_symm (signedZero_add_same t x'))) hy
  rw [Binary64.add_comm y, Binary64.add_comm y'] at hright
  exact same_trans hleft hright

theorem same_sub (hx : x.same x' = true) (hy : y.same y' = true) :
    (x.sub y).same (x'.sub y') = true :=
  same_add hx (same_neg hy)

/-- Zero minus a number is its negation. -/
theorem zero_sub_same_neg (x : Binary64) : (zero.sub x).same x.neg = true :=
  signedZero_add_same false x.neg

/-! ## Products, quotients and powers -/

protected theorem mul_comm (x y : Binary64) : x.mul y = y.mul x := by
  cases x <;> cases y <;> simp only [mul, Nat.mul_comm, bne_comm]

/-- A zero times a number that is not finite is nan, and times any other is a zero. -/
theorem signedZero_mul_same (s t : Bool) (x : Binary64) :
    ((signedZero s).mul x).same ((signedZero t).mul x) = true := by
  cases x with
  | finite r b hb =>
    simp only [signedZero, mul, Nat.zero_mul, ofRatio_zero]
    exact same_signedZero (s != r) (t != r)
  | infinite r => exact same_refl .nan
  | nan => exact same_refl .nan

/-- The same factors have the same product. -/
theorem same_mul (hx : x.same x' = true) (hy : y.same y' = true) :
    (x.mul y).same (x'.mul y') = true := by
  have hleft : (x.mul y).same (x'.mul y) = true :=
    same_congr (f := fun z => z.mul y) (fun s t => signedZero_mul_same s t y) hx
  have hright : (y.mul x').same (y'.mul x') = true :=
    same_congr (f := fun z => z.mul x') (fun s t => signedZero_mul_same s t x') hy
  rw [Binary64.mul_comm y, Binary64.mul_comm y'] at hright
  exact same_trans hleft hright

/-- The same numbers divided by the same number, which is not zero, have the same quotient. -/
theorem same_div (hx : x.same x' = true) (hy : y.same y' = true) (hne : y.isZero = false) :
    (x.div y).same (x'.div y') = true := by
  obtain rfl | ⟨s, t, rfl, -⟩ := same_iff_cases.1 hy
  · refine same_congr (f := fun z => z.div y) (fun s t => ?_) hx
    cases y with
    | finite r b hb =>
      have hb0 : b ≠ 0 := by simpa [isZero] using hne
      simp only [signedZero, div, if_neg hb0, Nat.zero_mul, ofRatio_zero]
      exact same_signedZero (s != r) (t != r)
    | infinite r => exact same_signedZero (s != r) (t != r)
    | nan => exact same_refl .nan
  · rw [isZero_signedZero] at hne
    cases hne

/-- The powers of the two zeros are the same, or there is none of either. -/
theorem pow_signedZero (s t : Bool) (n : Int) :
    (∃ x y : Binary64, (signedZero s).pow n = .ok x ∧ (signedZero t).pow n = .ok y ∧
      x.same y = true) ∨
    ∃ f, (signedZero s).pow n = .error f ∧ (signedZero t).pow n = .error f := by
  unfold pow
  cases ofInt? n with
  | none => exact .inr ⟨.tooBig, rfl, rfl⟩
  | some k =>
    simp only [Option.elim_some, powWhole, signedZero, if_true]
    split_ifs
    · exact .inl ⟨one, one, rfl, rfl, same_refl one⟩
    · exact .inr ⟨.zeroToNegative, rfl, rfl⟩
    · exact .inl ⟨_, _, rfl, rfl, same_signedZero _ _⟩

end Binary64
end Reckon
