import Reckon.Binary64.Series

/-!
# The logarithm of a double

A positive double is `2 ^ k * z` with `z` between about 0.71 and 1.41. That
range is divided into 128 parts; a number `c / 256` close to the reciprocal of
the middle of the part that holds `z` makes `r = z * (c / 256) - 1` small, and

  `log x = k * log 2 - log (c / 256) + log (1 + r)`.

The last summand is a polynomial in `r`. The sum is carried to about 68 bits,
as an `Expansion`, so that a power computed from it is nearly always the double
nearest to the true one.
-/

namespace Reckon
namespace Binary64
namespace Logarithm

/-! ## Reducing the argument -/

/-- The significand of the least `z`, with 53 bits. -/
def least : Nat := 1480021 * 2 ^ (32 : Nat)

/-- A number taken apart for its logarithm: its exponent `k`, its significand `z`, and the part
of the range that holds `z`. -/
structure Reduced where
  exponent : Int
  significand : Binary64
  part : Nat

/-- Takes a nonzero number of units apart. -/
def reduce (u : Nat) : Reduced :=
  let m := u * 2 ^ (52 : Nat) / 2 ^ u.log2
  if least ≤ m then ⟨(u.log2 : Int) - 1073, dyadic m 53, (m - least) / 2 ^ (45 : Nat)⟩
  else ⟨(u.log2 : Int) - 1074, dyadic m 52, (m + 2 ^ (52 : Nat) - least) / 2 ^ (45 : Nat)⟩

/-- Where a part begins, in multiples of `2 ^ -21`. A part is `1 / 256` wide below one and twice
as wide above, as the distances between doubles are. -/
def edge (part : Nat) : Nat :=
  let p := 1480021 + 2 ^ (13 : Nat) * part
  if p ≤ 2 ^ (21 : Nat) then p else 2 * p - 2 ^ (21 : Nat)

/-- The reciprocal of the middle of a part, in multiples of `1 / 256`; for the parts below one it
is a multiple of `1 / 128`. -/
def reciprocal (part : Nat) : Nat :=
  let twiceMiddle := edge part + edge (part + 1)
  if edge (part + 1) ≤ 2 ^ (21 : Nat) then 2 * halfEven (2 ^ (29 : Nat)) twiceMiddle
  else halfEven (2 ^ (30 : Nat)) twiceMiddle

/-! ## The terms from the cube on -/

/-- Near `-2 / 3`, for the term in `r³`. Together the six coefficients make the greatest error
over all small `r` least. -/
def cube : Binary64 := dyadic (-0x15555555555560) 53

/-- Near `1 / 2`, for the term in `r⁴`. -/
def fourth : Binary64 := dyadic 0x10000000000006 53

/-- Near `4 / 5`, for the term in `r⁵`. -/
def fifth : Binary64 := dyadic 0x1999999959554e 53

/-- Near `-2 / 3`, for the term in `r⁶`. -/
def sixth : Binary64 := dyadic (-0x1555555529a47a) 53

/-- Near `-8 / 7`, for the term in `r⁷`. -/
def seventh : Binary64 := dyadic (-0x12495b9b4845e9) 52

/-- Near `1`, for the term in `r⁸`. -/
def eighth : Binary64 := dyadic 0x10002b8b263fc3 52

/-- The terms of `log (1 + r)` from the cube on, divided by `-r³ / 2`; `square` is `-r² / 2`. -/
def higherTerms (r square : Binary64) : Binary64 :=
  mulAdd (mulAdd (mulAdd r eighth seventh) square (mulAdd r sixth fifth)) square
    (mulAdd r fourth cube)

/-- Adds `log (1 + r)`. What the sums and the square lose in rounding is added to the low
part. -/
def addLogOnePlus (start : Expansion) (r : Binary64) : Expansion :=
  let sum := start.high.add r
  let sumLost := (start.high.sub sum).add r
  let half := (dyadic (-1) 1).mul r
  let square := r.mul half
  let squareLost := mulAdd half r square.neg
  let high := sum.add square
  let highLost := (sum.sub high).add square
  let lost := ((start.low.add sumLost).add squareLost).add highLost
  let low := mulAdd (r.mul square) (higherTerms r square) lost
  let total := high.add low
  ⟨total, (high.sub total).add low⟩

end Logarithm

/-- The natural logarithm of a nonzero number of units. -/
def log (u : Nat) : Expansion :=
  let x := Logarithm.reduce u
  let c := Logarithm.reciprocal x.part
  let remainder := mulAdd x.significand (dyadic c 8) one.neg
  let k := dyadic x.exponent 0
  let logMiddle := Expansion.ofUnits (logRatio 256 c)
  Logarithm.addLogOnePlus
    ⟨mulAdd k logTwo.high logMiddle.high, mulAdd k logTwo.low logMiddle.low⟩ remainder

end Binary64
end Reckon
