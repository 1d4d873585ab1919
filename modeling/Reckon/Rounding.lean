/-!
# Rounding a quotient to a whole number

Floating-point results, decimal places and significant digits are all rounded
by the one rule of this module: to the nearest whole number, and a quotient
half-way between two of them to the even one.

Results:

* `halfEven_mul`: an exact quotient is kept.
* `two_mul_halfEven_le`, `le_two_mul_halfEven`: the result is within half a
  unit of the quotient.
* `halfEven_tie`: at a half-way point the result is even.
-/

namespace Reckon

-- Here a power of natural numbers is the core one, whatever else is imported. A literal exponent
-- says that it is a natural number, or else the power that is found for it is another one.
attribute [scoped instance (high)] instPowNat

/-- The quotient `n / d` rounded to the nearest whole number, a half to the even neighbour. -/
def halfEven (n d : Nat) : Nat :=
  if 2 * (n % d) < d ∨ (2 * (n % d) = d ∧ n / d % 2 = 0) then n / d else n / d + 1

/-- An exact quotient is kept. -/
theorem halfEven_mul (q d : Nat) (hd : 0 < d) : halfEven (q * d) d = q := by
  simp [halfEven, Nat.mul_div_cancel _ hd, hd]

/-- The result is at most half a unit above the quotient. -/
theorem two_mul_halfEven_le (n d : Nat) (hd : 0 < d) : 2 * (halfEven n d * d) ≤ 2 * n + d := by
  have h := Nat.div_add_mod n d
  have hr := Nat.mod_lt n hd
  have hc : d * (n / d) = n / d * d := Nat.mul_comm _ _
  unfold halfEven
  split
  · omega
  · rename_i hn
    have : d ≤ 2 * (n % d) := by omega
    have : (n / d + 1) * d = n / d * d + d := by rw [Nat.add_mul, Nat.one_mul]
    omega

/-- The result is at most half a unit below the quotient. -/
theorem le_two_mul_halfEven (n d : Nat) (hd : 0 < d) : 2 * n ≤ 2 * (halfEven n d * d) + d := by
  have h := Nat.div_add_mod n d
  have hr := Nat.mod_lt n hd
  have hc : d * (n / d) = n / d * d := Nat.mul_comm _ _
  unfold halfEven
  split
  · omega
  · have : (n / d + 1) * d = n / d * d + d := by rw [Nat.add_mul, Nat.one_mul]
    omega

/-- A quotient half-way between two whole numbers goes to the even one. -/
theorem halfEven_tie (n d : Nat) (h : 2 * (n % d) = d) : halfEven n d % 2 = 0 := by
  unfold halfEven
  split <;> omega

/-- Rounding moves the whole part by at most one. -/
theorem halfEven_le (n d : Nat) : halfEven n d ≤ n / d + 1 := by
  unfold halfEven
  split <;> omega

/-- Rounding never goes below the whole part. -/
theorem div_le_halfEven (n d : Nat) : n / d ≤ halfEven n d := by
  unfold halfEven
  split <;> omega

@[simp] theorem halfEven_zero (d : Nat) : halfEven 0 d = 0 := by
  unfold halfEven
  simp
  omega

end Reckon
