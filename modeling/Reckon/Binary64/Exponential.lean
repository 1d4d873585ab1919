import Reckon.Binary64.Series

/-!
# The exponential of an expansion

The argument is a whole number `n` of 128ths of the logarithm of two and a
small remainder `r`. With `n = 128 * k + i` the exponential is
`2 ^ k * 2 ^ (i / 128) * exp r`, and `exp r - 1` is a polynomial in `r`.
-/

namespace Reckon
namespace Binary64
namespace Exponential

/-! ## The polynomial -/

/-- Near `1 / 2`, for the term in `r²`. Together the four coefficients make the greatest error
over all small `r` least. -/
def square : Binary64 := dyadic 0x1ffffffffffdbd 54

/-- Near `1 / 6`, for the term in `r³`. -/
def cube : Binary64 := dyadic 0x1555555555543c 55

/-- Near `1 / 24`, for the term in `r⁴`. -/
def fourth : Binary64 := dyadic 0x155555cf172b91 57

/-- Near `1 / 120`, for the term in `r⁵`. -/
def fifth : Binary64 := dyadic 0x11111167a4d017 59

/-- The exponential of `r` less one, and `extra` added to it. -/
def expMinusOne (extra r : Binary64) : Binary64 :=
  let r2 := r.mul r
  let low := mulAdd (mulAdd cube r square) r2 (r.add extra)
  mulAdd (mulAdd r fifth fourth) (r2.mul r2) low

/-! ## Reducing the argument -/

/-- A step is a 128th of the logarithm of two. -/
def step : Expansion := .ofUnits (logTwoUnits / 128)

/-- The number of steps that make up one. -/
def stepsPerOne : Binary64 := ofQuotient (128 * unit * unit) logTwoUnits.toNat

/-- The whole number nearest to the number of steps in `x`. -/
def steps (x : Binary64) : Int :=
  let n := x.signedUnits * stepsPerOne.signedUnits
  n.sign * (halfEven n.natAbs (unit * unit) : Nat)

/-- What remains of the argument without `n` steps. -/
def remainder (x : Expansion) (n : Int) : Binary64 :=
  let k := dyadic n 0
  x.low.add (mulAdd k step.low.neg (mulAdd k step.high.neg x.high))

/-- The power of two with the exponent `i / 128`. -/
def root (i : Nat) : Expansion := .relative (expSeries (i * logTwoUnits / 128)).toNat

/-- The double nearest to `2 ^ k * n / d` units. -/
def scaled (n : Int) (d : Nat) : Int → Binary64
  | .ofNat k => ofQuotient (n * 2 ^ k) d
  | .negSucc k => ofQuotient n (d * 2 ^ (k + 1))

/-- The sum `a + b` of a number below one and a much smaller one, rounded to a multiple of
`2 ^ -52`, as the numbers above one are. What the sums lose is added before the last rounding. -/
def coarseSum (a b : Binary64) : Binary64 :=
  let sum := a.add b
  let lost := (a.sub sum).add b
  let total := one.add sum
  let lost := ((one.sub total).add sum).add lost
  (total.add lost).sub one

/-- The number `h * (1 + excess) * 2 ^ k` where it is very small. It is computed `2 ^ 1022` times
as large. A number that is less than one even then has no more places in the end than a multiple
of `2 ^ -52` has now. -/
def small (h excess : Binary64) (k : Int) : Binary64 :=
  let scale := scaled h.signedUnits 1 (k + 1022)
  let product := scale.mul excess
  let sum := scale.add product
  let large := if sum.signedUnits < unit then coarseSum scale product else sum
  scaled large.signedUnits 1 (-1022)

/-- The exponential of an argument between -1024 and 1024. -/
def moderate (x : Expansion) : Binary64 :=
  let n := steps x.high
  let power := root (n % 128).toNat
  let excess := expMinusOne power.low (remainder x n)
  if x.high.signedUnits ≤ -(512 * unit : Int) then small power.high excess (n / 128)
  else
    scaled (power.high.signedUnits * (unit + excess.signedUnits)) unit (n / 128)

end Exponential

/-- The exponential. -/
def exp (x : Expansion) : Binary64 :=
  match x.high with
  | .finite s u _ =>
    if u < 1024 * unit then Exponential.moderate x
    else if s then zero else .infinite false
  | .infinite s => if s then zero else .infinite false
  | .nan => .nan

end Binary64
end Reckon
