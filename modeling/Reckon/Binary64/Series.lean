import Reckon.Binary64.Arith

/-!
# Logarithms and exponentials to two hundred bits

Real numbers are written here as whole numbers of units of `2 ^ -1074`, the
units of the doubles themselves. The series are cut off where what is left of
them is far below the last bit of any double that is taken from them.

An `Expansion` is a real number as the sum of two doubles, the second much
smaller than the first.
-/

namespace Reckon
namespace Binary64

/-! ## Series -/

/-- How many terms of a series are added. -/
def seriesLength : Nat := 64

/-- The units of `1 + t² / 3 + t⁴ / 5 + …`, for `square` units of `t²`. -/
def artanhSeries (square : Int) : Int :=
  (List.range seriesLength).foldr
    (fun (j : Nat) rest => unit / (2 * j + 1) + square * rest / unit) 0

/-- The units of the natural logarithm of `a / b`. It is twice the area tangent of
`t = (a - b) / (a + b)`; the quotient is to be near one. -/
def logRatio (a b : Nat) : Int :=
  let t : Int := (a - b) * unit / (a + b)
  2 * t * artanhSeries (t * t / unit) / unit

/-- The units of the exponential of `t` units, for a `t` near zero. -/
def expSeries (t : Int) : Int :=
  (List.range seriesLength).foldr (fun (j : Nat) rest => unit + t * rest / ((j + 1) * unit)) 0

/-! ## Expansions -/

/-- A real number as the sum of a double and a much smaller one. -/
structure Expansion where
  high : Binary64
  low : Binary64
deriving DecidableEq

namespace Expansion

/-- The units of `2 ^ -43`. A whole number below `2 ^ 11` times an expansion's `high` part, which
is a multiple of it, is exact. -/
def grain : Nat := 2 ^ (1031 : Nat)

/-- A number as its nearest multiple of `2 ^ -43` and the double nearest to what remains. -/
def ofUnits (x : Int) : Expansion :=
  let high : Int := x.sign * (halfEven x.natAbs grain * grain : Nat)
  ⟨ofQuotient high 1, ofQuotient (x - high) 1⟩

/-- A number as the double nearest to it and the double nearest to what remains, as a part of the
first. -/
def relative (x : Nat) : Expansion :=
  let high := nearestUnits x 1
  ⟨ofRatio false high 1, ofQuotient (((x : Int) - high) * unit) high⟩

end Expansion

/-- The units of the logarithm of two. -/
def logTwoUnits : Int := logRatio 2 1

/-- The logarithm of two. -/
def logTwo : Expansion := .ofUnits logTwoUnits

/-- The number `m / 2 ^ k`, rounded to a double. -/
def dyadic (m : Int) (k : Nat) : Binary64 := ofQuotient (m * unit) (2 ^ k)

end Binary64
end Reckon
