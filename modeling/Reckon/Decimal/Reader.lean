import Reckon.Decimal.Basic
import Reckon.Binary64.Basic

/-!
# The double that a decimal number stands for

A decimal number is read as the double nearest to it. Numbers that are far out
of range are decided by the place of their leading digit, before any power of
ten is computed.
-/

namespace Reckon
namespace Decimal

/-- One more than the exponent of the leading digit of a nonzero number. -/
def magnitudePlace (d : Decimal) : Int := (digits d.coefficient).length + d.exponent

/-- The nearest double, ties to even; a magnitude from `2 ^ 1024` on is infinite. -/
def toBinary64 (d : Decimal) : Binary64 :=
  if d.coefficient = 0 ∨ d.magnitudePlace < -400 then
    .finite d.negative 0 Binary64.representable_zero
  else if 400 < d.magnitudePlace then .infinite d.negative
  else match d.exponent with
    | .ofNat k => .ofRatio d.negative (d.coefficient * 10 ^ k * Binary64.unit) 1
    | .negSucc k => .ofRatio d.negative (d.coefficient * Binary64.unit) (10 ^ (k + 1))

/-- The number that a numeral of digits with at most one point stands for. -/
def ofNumeral (cs : List Char) : Decimal :=
  let whole := cs.takeWhile (· != '.')
  let places := (cs.dropWhile (· != '.')).drop 1
  ⟨false, ofDigits (whole ++ places), -places.length⟩

end Decimal
end Reckon
