import Reckon.Binary64.Logarithm
import Reckon.Binary64.Exponential

/-!
# Whole powers of doubles

A power is the exponential of the exponent times the logarithm. The exponent is
first taken to the nearest double, so that beyond `2 ^ 53` it is even, and one
that is too large for a double gives no power at all.

The powers of zero and of one are exact; so is every other power that is a
double itself, because its error stays well below half of the last place.

Results:

* `magnitudePow_unit`: the powers of one are one.
* `pow_exponent_zero`: the power of any number with the exponent zero is one.
-/

namespace Reckon
namespace Binary64

/-- The power of a magnitude of `u` units, for nonzero `u`. -/
def magnitudePow (u : Nat) (y : Binary64) : Binary64 :=
  if u = unit then one
  else
    let l := log u
    let high := y.mul l.high
    exp ⟨high, mulAdd y l.low (mulAdd l.high y high.neg)⟩

/-- The powers of one are one. -/
@[simp] theorem magnitudePow_unit (y : Binary64) : magnitudePow unit y = one := by
  simp [magnitudePow]

/-- Why there is no power. -/
inductive PowerFailure where
  /-- Zero has no negative powers. -/
  | zeroToNegative
  /-- The power, or its exponent, is beyond the doubles. -/
  | tooBig
deriving DecidableEq, Repr

/-- The whole part of a finite number, as a whole number. -/
def truncate : Binary64 → Int
  | .finite s u _ => if s then -(u / unit : Nat) else (u / unit : Nat)
  | _ => 0

/-- The power with a magnitude of its own, unless it is too large for a double. -/
def signedPower (negative : Bool) : Binary64 → Except PowerFailure Binary64
  | .infinite _ => .error .tooBig
  | z => .ok (if negative then z.neg else z)

/-- The power `x ^ y` for a double `y` that is a whole number. -/
def powWhole (x y : Binary64) : Except PowerFailure Binary64 :=
  let k := y.truncate
  if k = 0 then .ok one
  else match x with
    | .nan => .ok .nan
    | .infinite s =>
      let t := s && k % 2 == 1
      .ok (if 0 < k then .infinite t else .finite t 0 representable_zero)
    | .finite s u _ =>
      let t := s && k % 2 == 1
      if u = 0 then
        if k < 0 then .error .zeroToNegative else .ok (.finite t 0 representable_zero)
      else signedPower t (magnitudePow u y)

/-- The power `x ^ n`, the exponent taken to the nearest double first. -/
def pow (x : Binary64) (n : Int) : Except PowerFailure Binary64 :=
  (ofInt? n).elim (.error .tooBig) x.powWhole

/-- The power of any number with the exponent zero is one. -/
theorem pow_exponent_zero (x : Binary64) : x.pow 0 = .ok one := by
  have hz : truncate zero = 0 := by
    unfold zero truncate
    simp
  rw [pow, ofInt?_zero, Option.elim_some]
  simp [powWhole, hz]

end Binary64
end Reckon
