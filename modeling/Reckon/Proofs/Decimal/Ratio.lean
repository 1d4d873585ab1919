import Mathlib.Algebra.Order.Ring.Abs
import Mathlib.Algebra.Order.Field.Basic
import Mathlib.Algebra.Ring.Parity
import Mathlib.Data.Rat.Cast.Order
import Mathlib.Tactic.FieldSimp
import Mathlib.Tactic.Linarith
import Mathlib.Tactic.Positivity
import Mathlib.Tactic.Ring
import Reckon.Decimal.Basic

/-!
# Decimal numbers as ratios

The ratio of a decimal number is its coefficient times a power of ten. What a
decimal number is made into is described by ratios: zeros are moved between the
coefficient and the exponent, digits are dropped, places are rounded.

Results:

* `toRat_eq`: the ratio as a product.
* `toRat_normalize`: taking trailing zeros off keeps the ratio.
* `sameMagnitude_iff`: numbers of one sign are compared as ratios.
* `roundsTo_toPlaces`: rounding to places is rounding half to even.
-/

namespace Reckon
namespace Decimal

/-! ## Ratios -/

/-- The sign as a factor. -/
def signFactor (negative : Bool) : Int := if negative then -1 else 1

theorem signFactor_ne_zero (s : Bool) : signFactor s ≠ 0 := by
  cases s <;> simp [signFactor]

theorem abs_signFactor_mul (s : Bool) (x : Rat) : |signFactor s * x| = |x| := by
  cases s <;> simp [signFactor]

theorem toRat_eq (d : Decimal) :
    d.toRat = signFactor d.negative * (d.coefficient * 10 ^ d.exponent) := by
  obtain ⟨s, c, e⟩ := d
  have hmagnitude : toRat ⟨false, c, e⟩ = c * 10 ^ e := by
    cases e with
    | ofNat k =>
      show ((c * 10 ^ k : Nat) : Rat) = c * 10 ^ (k : Int)
      rw [zpow_natCast, Nat.cast_mul, Nat.cast_pow, Nat.cast_ofNat]
    | negSucc k =>
      show mkRat c (10 ^ (k + 1)) = c * 10 ^ Int.negSucc k
      rw [Rat.mkRat_eq_div, zpow_negSucc, Nat.cast_pow, Nat.cast_ofNat, Int.cast_natCast,
        div_eq_mul_inv]
  cases s with
  | false => rw [hmagnitude, signFactor, if_neg Bool.false_ne_true, Int.cast_one, one_mul]
  | true =>
    show -toRat ⟨false, c, e⟩ = _
    rw [hmagnitude, signFactor, if_pos rfl, Int.cast_neg, Int.cast_one, neg_one_mul]

theorem toRat_eq_zero_iff {d : Decimal} : d.toRat = 0 ↔ d.coefficient = 0 := by
  have hten : (10 : Rat) ^ d.exponent ≠ 0 := zpow_ne_zero _ (by norm_num)
  simp [toRat_eq, signFactor_ne_zero, hten]

/-- A zero more in the coefficient for one less in the exponent. -/
theorem toRat_mul_pow (s : Bool) (c k : Nat) (e : Int) :
    (Decimal.mk s (c * 10 ^ k) e).toRat = (Decimal.mk s c (e + k)).toRat := by
  rw [toRat_eq, toRat_eq]
  dsimp only
  rw [zpow_add₀ (by norm_num), zpow_natCast, Nat.cast_mul, Nat.cast_pow, Nat.cast_ofNat]
  ring

/-- Taking trailing zeros off keeps the ratio. -/
@[simp] theorem toRat_normalize (d : Decimal) : d.normalize.toRat = d.toRat := by
  obtain ⟨s, c, e⟩ := d
  unfold normalize
  dsimp only
  split
  · rename_i hc
    rw [toRat_eq_zero_iff.2 rfl, toRat_eq_zero_iff.2 hc]
  · rw [← toRat_mul_pow, stripZeros_mul]

/-- A power of ten in a coefficient, when the exponent is at least that of the grid. -/
theorem coefficient_mul_pow {e low : Int} (h : low ≤ e) (c : Nat) :
    ((c * 10 ^ (e - low).toNat : Nat) : Rat) = c * 10 ^ e * 10 ^ (-low) := by
  have hexp : (((e - low).toNat : Nat) : Int) = e + -low := by omega
  rw [Nat.cast_mul, Nat.cast_pow, Nat.cast_ofNat, ← zpow_natCast, hexp,
    zpow_add₀ (by norm_num), mul_assoc]

/-- Numbers of one sign are compared as ratios. -/
theorem sameMagnitude_iff {a b : Decimal} (h : a.negative = b.negative) :
    a.sameMagnitude b = true ↔ a.toRat = b.toRat := by
  have hpow : (10 : Rat) ^ (-min a.exponent b.exponent) ≠ 0 := zpow_ne_zero _ (by norm_num)
  unfold sameMagnitude
  dsimp only
  rw [beq_iff_eq, ← Nat.cast_inj (R := Rat), coefficient_mul_pow (Int.min_le_left _ _),
    coefficient_mul_pow (Int.min_le_right _ _), mul_left_inj' hpow, toRat_eq, toRat_eq, h,
    mul_right_inj' (Int.cast_ne_zero.2 (signFactor_ne_zero _))]

/-! ## Rounding -/

/-- The number `r` is `q` rounded to `n` places after the point, a half to the even neighbour. -/
def RoundsTo (n : Nat) (q r : Rat) : Prop :=
  ∃ m : Int, r * 10 ^ n = m ∧ |q * 10 ^ n - m| ≤ 1 / 2 ∧ (|q * 10 ^ n - m| = 1 / 2 → Even m)

/-- A number that has no more places is its own rounding. -/
theorem roundsTo_self {n : Nat} {q : Rat} {m : Int} (h : q * 10 ^ n = m) : RoundsTo n q q := by
  refine ⟨m, h, ?_, ?_⟩
  · rw [h, sub_self, abs_zero]
    norm_num
  · rw [h, sub_self, abs_zero]
    norm_num

/-- Where the result is half a unit away, be it above or below, the quotient is half-way between two
whole numbers. -/
theorem two_mul_mod_of_half {c d : Nat} (hd : 0 < d)
    (h : 2 * c = 2 * (halfEven c d * d) + d ∨ 2 * c + d = 2 * (halfEven c d * d)) :
    2 * (c % d) = d := by
  have hdiv : d * (c / d) + c % d = c := Nat.div_add_mod c d
  have hmod : c % d < d := Nat.mod_lt c hd
  have hcomm : d * (c / d) = c / d * d := Nat.mul_comm _ _
  have hnext : (c / d + 1) * d = c / d * d + d := by rw [Nat.add_mul, Nat.one_mul]
  have hcases : halfEven c d = c / d ∨ halfEven c d = c / d + 1 := by
    have hle := div_le_halfEven c d
    have hge := halfEven_le c d
    omega
  rcases hcases with hq | hq
  · rw [hq] at h
    omega
  · rw [hq, hnext] at h
    omega

theorem abs_div_sub_halfEven_le {d : Nat} (hd : 0 < d) (c : Nat) :
    |(c / d : Rat) - halfEven c d| ≤ 1 / 2 := by
  have hpos : (0 : Rat) < d := Nat.cast_pos.2 hd
  have habove : (2 : Rat) * (halfEven c d * d) ≤ 2 * c + d := by
    exact_mod_cast two_mul_halfEven_le c d hd
  have hbelow : (2 : Rat) * c ≤ 2 * (halfEven c d * d) + d := by
    exact_mod_cast le_two_mul_halfEven c d hd
  rw [div_sub' hpos.ne', abs_div, abs_of_pos hpos, div_le_iff₀ hpos, abs_le]
  constructor <;> linarith

theorem even_halfEven {c d : Nat} (hd : 0 < d) (h : |(c / d : Rat) - halfEven c d| = 1 / 2) :
    Even (halfEven c d) := by
  have hpos : (0 : Rat) < d := Nat.cast_pos.2 hd
  rw [Nat.even_iff]
  apply halfEven_tie c d
  apply two_mul_mod_of_half hd
  rw [div_sub' hpos.ne', abs_div, abs_of_pos hpos, div_eq_iff hpos.ne', abs_eq (by linarith)] at h
  rcases h with h | h
  · left
    have : (2 : Rat) * c = 2 * (halfEven c d * d) + d := by linarith
    exact_mod_cast this
  · right
    have : (2 : Rat) * c + d = 2 * (halfEven c d * d) := by linarith
    exact_mod_cast this

@[simp] theorem dropDigits_zero (d : Decimal) : d.dropDigits 0 = d := by
  have hone := halfEven_mul d.coefficient 1 Nat.one_pos
  rw [Nat.mul_one] at hone
  simp [dropDigits, hone]

/-- Rounding to places is rounding half to even. -/
theorem roundsTo_toPlaces (n : Nat) (d : Decimal) : RoundsTo n d.toRat (d.toPlaces n).toRat := by
  obtain ⟨s, c, e⟩ := d
  unfold toPlaces
  dsimp only
  have hscale : (Decimal.mk s c e).toRat * 10 ^ n = signFactor s * (c * 10 ^ (e + n)) := by
    rw [toRat_eq, zpow_add₀ (by norm_num), zpow_natCast]
    ring
  by_cases hplaces : -(n : Int) ≤ e
  · -- there are no more than `n` places
    obtain ⟨k, hk⟩ := Int.eq_ofNat_of_zero_le (show 0 ≤ e + n by omega)
    have hzero : (-e - n).toNat = 0 := by omega
    rw [hzero, dropDigits_zero]
    apply roundsTo_self (m := signFactor s * (c * 10 ^ k : Nat))
    rw [hscale, hk, zpow_natCast]
    push_cast
    ring
  · obtain ⟨k, hk⟩ := Int.eq_ofNat_of_zero_le (show 0 ≤ -e - n by omega)
    have hten : 0 < 10 ^ k := Nat.pow_pos (by decide)
    have hexp : e + n = -k := by omega
    have hquotient : (c : Rat) * 10 ^ (e + n) = c / (10 ^ k : Nat) := by
      rw [hexp, zpow_neg, zpow_natCast, Nat.cast_pow, Nat.cast_ofNat, div_eq_mul_inv]
    have hdistance : |(Decimal.mk s c e).toRat * 10 ^ n -
        (signFactor s * (halfEven c (10 ^ k) : Nat) : Int)| =
          |(c / (10 ^ k : Nat) : Rat) - halfEven c (10 ^ k)| := by
      rw [hscale, hquotient, Int.cast_mul, Int.cast_natCast, ← mul_sub, abs_signFactor_mul]
    rw [hk, Int.toNat_natCast]
    refine ⟨signFactor s * (halfEven c (10 ^ k) : Nat), ?_, ?_, ?_⟩
    · rw [dropDigits, toRat_eq]
      dsimp only
      have hnone : e + k = -n := by omega
      rw [hnone, zpow_neg, zpow_natCast, Int.cast_mul, Int.cast_natCast, mul_assoc, mul_assoc,
        inv_mul_cancel₀ (by positivity), mul_one]
    · rw [hdistance]
      exact abs_div_sub_halfEven_le hten c
    · rw [hdistance]
      intro htie
      exact ((Int.even_coe_nat _).2 (even_halfEven hten htie)).mul_left _

end Decimal
end Reckon
