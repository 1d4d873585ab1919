import Mathlib.Tactic.Common
import Reckon.Decimal.Shortest
import Reckon.Proofs.Decimal.Digits

/-!
# The decimals around a double

The decimals of a certain number of digits form a grid around a double, whose
width is given by the place of the leading digit of the double. The double is
less than a power of ten above that place and at least the power of ten at it,
so on every grid it has the number of digits that belongs to the grid.

Results:

* `units_lt_leadingPlace`, `leadingPlace_le_units`: the place of the leading digit.
* `nearOnGrid_le`: how many digits the nearest decimal on a grid has.
* `mul_width_le`: how narrow a grid is against the double.
-/

namespace Reckon

/-- A quotient is not rounded beyond a whole number that is above it. -/
theorem halfEven_le_of_le {n d k : Nat} (hd : 0 < d) (h : n ≤ k * d) : halfEven n d ≤ k := by
  have hhalf := two_mul_halfEven_le n d hd
  by_contra hlt
  have hmul : (k + 1) * d ≤ halfEven n d * d := Nat.mul_le_mul_right d (by omega)
  rw [Nat.add_mul, Nat.one_mul] at hmul
  omega

namespace Binary64

theorem excess_mono {u v : Nat} (h : u ≤ v) : excess u ≤ excess v :=
  excess_le (Nat.lt_of_le_of_lt h (lt_two_pow_excess v))

theorem ten_pow_pos (k : Nat) : 0 < 10 ^ k := Nat.pow_pos (by decide)

/-! ## The place of the leading digit -/

/-- A double is less than the power of ten above its leading place. -/
theorem units_lt_leadingPlace {u : Nat} (hu : u ≠ 0) :
    u * 10 ^ (-(leadingPlace u + 1)).toNat < unit * 10 ^ (leadingPlace u + 1).toNat := by
  unfold leadingPlace
  split
  · set l := (Decimal.digits (u / unit)).length with hl
    have hlt : u / unit < 10 ^ l := Decimal.lt_pow_length_digits _
    have hlow : (-((l : Int) - 1 + 1)).toNat = 0 := by omega
    have hhigh : ((l : Int) - 1 + 1).toNat = l := by omega
    rw [hlow, hhigh, Nat.pow_zero, Nat.mul_one, Nat.mul_comm]
    exact (Nat.div_lt_iff_lt_mul unit_pos).1 hlt
  · rename_i hsmall
    set l := (Decimal.digits ((unit - 1) / u)).length with hl
    have hpos : 0 < (unit - 1) / u := Nat.div_pos (by omega) (Nat.pos_of_ne_zero hu)
    have hle : 10 ^ (l - 1) ≤ (unit - 1) / u := Decimal.pow_le_of_length_digits (Nat.ne_of_gt hpos)
    have hlength : 0 < l := Decimal.length_digits_pos _
    have hlow : (-(-(l : Int) + 1)).toNat = l - 1 := by omega
    have hhigh : (-(l : Int) + 1).toNat = 0 := by omega
    rw [hlow, hhigh, Nat.pow_zero, Nat.mul_one]
    calc u * 10 ^ (l - 1) ≤ u * ((unit - 1) / u) := Nat.mul_le_mul_left u hle
      _ ≤ unit - 1 := Nat.mul_div_le _ _
      _ < unit := Nat.sub_lt unit_pos Nat.one_pos

/-- A double is at least the power of ten at its leading place. -/
theorem leadingPlace_le_units {u : Nat} (hu : u ≠ 0) :
    unit * 10 ^ (leadingPlace u).toNat ≤ u * 10 ^ (-leadingPlace u).toNat := by
  unfold leadingPlace
  split
  · rename_i hlarge
    have hne : u / unit ≠ 0 := Nat.ne_of_gt (Nat.div_pos hlarge unit_pos)
    set l := (Decimal.digits (u / unit)).length with hl
    have hle : 10 ^ (l - 1) ≤ u / unit := Decimal.pow_le_of_length_digits hne
    have hlength : 0 < l := Decimal.length_digits_pos _
    have hlow : (-((l : Int) - 1)).toNat = 0 := by omega
    have hhigh : ((l : Int) - 1).toNat = l - 1 := by omega
    rw [hlow, hhigh, Nat.pow_zero, Nat.mul_one]
    calc unit * 10 ^ (l - 1) ≤ unit * (u / unit) := Nat.mul_le_mul_left unit hle
      _ ≤ u := Nat.mul_div_le _ _
  · set l := (Decimal.digits ((unit - 1) / u)).length with hl
    have hlt : (unit - 1) / u < 10 ^ l := Decimal.lt_pow_length_digits _
    have hlow : (-(-(l : Int))).toNat = l := by omega
    have hhigh : (-(l : Int)).toNat = 0 := by omega
    rw [hlow, hhigh, Nat.pow_zero, Nat.mul_one, Nat.mul_comm]
    have := (Nat.div_lt_iff_lt_mul (Nat.pos_of_ne_zero hu)).1 hlt
    omega

theorem leadingPlace_le {u : Nat} (h : u < bound) : leadingPlace u ≤ 308 := by
  unfold leadingPlace
  split
  · have hq : u / unit < 10 ^ 309 := by
      rw [Nat.div_lt_iff_lt_mul unit_pos]
      have hbound : bound ≤ 10 ^ 309 * unit := by decide +kernel
      exact Nat.lt_of_lt_of_le h hbound
    have := (Decimal.length_digits_le_iff (by decide)).2 hq
    omega
  · omega

theorem le_leadingPlace (u : Nat) : -324 ≤ leadingPlace u := by
  unfold leadingPlace
  split
  · omega
  · have hq : (unit - 1) / u < 10 ^ 324 := by
      have hunit : unit - 1 < 10 ^ 324 := by decide +kernel
      exact Nat.lt_of_le_of_lt (Nat.div_le_self _ _) hunit
    have := (Decimal.length_digits_le_iff (by decide)).2 hq
    omega

/-! ## Grids -/

theorem onGrid_eq (u : Nat) (e : Int) :
    onGrid u e = (u * 10 ^ (-e).toNat, unit * 10 ^ e.toNat) := by
  cases e with
  | ofNat k => simp [onGrid]
  | negSucc k =>
    have hzero : (Int.negSucc k).toNat = 0 := rfl
    have hsucc : (-Int.negSucc k).toNat = k + 1 := rfl
    rw [onGrid, hzero, hsucc, Nat.pow_zero, Nat.mul_one]

/-- A double is less than the power of ten that has one digit more than the grid. -/
theorem units_lt_grid {u : Nat} (hu : u ≠ 0) (k : Nat) :
    u * 10 ^ (-(leadingPlace u - k)).toNat <
      10 ^ (k + 1) * (unit * 10 ^ (leadingPlace u - k).toNat) := by
  have hplace := units_lt_leadingPlace hu
  generalize leadingPlace u = p at hplace ⊢
  generalize unit = w at hplace ⊢
  have hexp : (-(p - k)).toNat + (p + 1).toNat = (-(p + 1)).toNat + (k + 1) + (p - k).toNat := by
    omega
  apply Nat.lt_of_mul_lt_mul_right (a := 10 ^ (p + 1).toNat)
  calc u * 10 ^ (-(p - k)).toNat * 10 ^ (p + 1).toNat
      = u * 10 ^ (-(p + 1)).toNat * (10 ^ (k + 1) * 10 ^ (p - k).toNat) := by
        rw [Nat.mul_assoc, ← Nat.pow_add, hexp, Nat.pow_add, Nat.pow_add]
        ac_rfl
    _ < w * 10 ^ (p + 1).toNat * (10 ^ (k + 1) * 10 ^ (p - k).toNat) :=
        Nat.mul_lt_mul_of_pos_right hplace (Nat.mul_pos (ten_pow_pos _) (ten_pow_pos _))
    _ = 10 ^ (k + 1) * (w * 10 ^ (p - k).toNat) * 10 ^ (p + 1).toNat := by ac_rfl

/-- The nearest decimal on the grid of `k + 1` digits is not above the power of ten that has one
digit more. -/
theorem nearOnGrid_le {u : Nat} (hu : u ≠ 0) (k : Nat) :
    halfEven (u * 10 ^ (-(leadingPlace u - k)).toNat) (unit * 10 ^ (leadingPlace u - k).toNat) ≤
      10 ^ (k + 1) :=
  halfEven_le_of_le (Nat.mul_pos unit_pos (ten_pow_pos _)) (Nat.le_of_lt (units_lt_grid hu k))

/-- A double is at least as many times as wide as the grid as the power of ten of the grid says. -/
theorem mul_width_le {u : Nat} (hu : u ≠ 0) (k : Nat) :
    10 ^ k * (unit * 10 ^ (leadingPlace u - k).toNat) ≤ u * 10 ^ (-(leadingPlace u - k)).toNat := by
  have hplace := leadingPlace_le_units hu
  generalize leadingPlace u = p at hplace ⊢
  generalize unit = w at hplace ⊢
  have hexp : p.toNat + (-(p - k)).toNat = k + (p - k).toNat + (-p).toNat := by omega
  apply Nat.le_of_mul_le_mul_right _ (ten_pow_pos (-p).toNat)
  calc 10 ^ k * (w * 10 ^ (p - k).toNat) * 10 ^ (-p).toNat
      = w * 10 ^ p.toNat * 10 ^ (-(p - k)).toNat := by
        rw [Nat.mul_assoc w, ← Nat.pow_add, hexp, Nat.pow_add, Nat.pow_add]
        ac_rfl
    _ ≤ u * 10 ^ (-p).toNat * 10 ^ (-(p - k)).toNat := Nat.mul_le_mul_right _ hplace
    _ = u * 10 ^ (-(p - k)).toNat * 10 ^ (-p).toNat := by ac_rfl

end Binary64
end Reckon
