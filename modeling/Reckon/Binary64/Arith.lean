import Reckon.Binary64.Basic

/-!
# Sums, differences, products and quotients of doubles

Each operation on finite numbers is its exact result rounded once by `ofRatio`.
The sign of a zero result and the results for infinities and nan are those of
IEEE 754.

Results:

* `one_mul_of_isFinite`: multiplying a finite number by one changes nothing.
* `isFinite_of_mul`: a finite product has finite factors.
-/

namespace Reckon
namespace Binary64

/-- The sum; the sum of a number and its negation is the positive zero. -/
def add : Binary64 → Binary64 → Binary64
  | .finite s a _, .finite t b _ =>
    if s = t then ofRatio s (a + b) 1
    else if a = b then zero
    else if b < a then ofRatio s (a - b) 1
    else ofRatio t (b - a) 1
  | .nan, _ => .nan
  | _, .nan => .nan
  | .infinite s, .infinite t => if s = t then .infinite s else .nan
  | .infinite s, _ => .infinite s
  | _, .infinite t => .infinite t

/-- The difference. -/
def sub (x y : Binary64) : Binary64 := x.add y.neg

/-- The product. -/
def mul : Binary64 → Binary64 → Binary64
  | .finite s a _, .finite t b _ => ofRatio (s != t) (a * b) unit
  | .nan, _ => .nan
  | _, .nan => .nan
  | .infinite s, .infinite t => .infinite (s != t)
  | .infinite s, .finite t b _ => if b = 0 then .nan else .infinite (s != t)
  | .finite s a _, .infinite t => if a = 0 then .nan else .infinite (s != t)

/-- The quotient. -/
def div : Binary64 → Binary64 → Binary64
  | .finite s a _, .finite t b _ =>
    if b = 0 then (if a = 0 then .nan else .infinite (s != t))
    else ofRatio (s != t) (a * unit) b
  | .nan, _ => .nan
  | _, .nan => .nan
  | .infinite _, .infinite _ => .nan
  | .infinite s, .finite t _ _ => .infinite (s != t)
  | .finite s _ _, .infinite t => .finite (s != t) 0 representable_zero

/-! ## A product and a sum at once -/

/-- The units of a finite number, with their sign. -/
def signedUnits : Binary64 → Int
  | .finite s u _ => if s then -u else u
  | _ => 0

/-- The double nearest to `n / d` units, where the sign is that of `n`. -/
def ofQuotient (n : Int) (d : Nat) : Binary64 := ofRatio (decide (n < 0)) n.natAbs d

/-- The sum `x * y + z`, rounded only once. -/
def mulAdd (x y z : Binary64) : Binary64 :=
  if x.isFinite && y.isFinite && z.isFinite then
    ofQuotient (x.signedUnits * y.signedUnits + z.signedUnits * unit) unit
  else (x.mul y).add z

/-! ## Laws -/

/-- Multiplying a finite number by one changes nothing. -/
theorem one_mul_of_isFinite {x : Binary64} (h : x.isFinite = true) : one.mul x = x := by
  cases x with
  | finite s u hu =>
    simp only [one, mul]
    rw [Nat.mul_comm, ofRatio_units _ hu unit_pos]
    cases s <;> rfl
  | infinite s => simp [isFinite] at h
  | nan => simp [isFinite] at h

/-- A finite product has finite factors. -/
theorem isFinite_of_mul {x y : Binary64} (h : (x.mul y).isFinite = true) :
    x.isFinite = true ∧ y.isFinite = true := by
  cases x <;> cases y <;> simp only [mul] at h <;> try split at h
  all_goals simp_all [isFinite]

end Binary64
end Reckon
