import Reckon.Decimal.Basic

/-!
# Numerals with a power of ten

A numeral is positional while the exponent of its leading digit is in a range
that the layout gives, and has a power of ten otherwise. Exponents are written
with a sign and at least two digits.
-/

namespace Reckon
namespace Decimal

/-- Where a kind of numeral turns to powers of ten, and whether its whole numbers keep a point. -/
structure Layout where
  /-- The first exponent of a leading digit that is no longer written positionally. -/
  positionalBelow : Int
  /-- Whether a positional whole number ends in a point and a zero. -/
  wholePoint : Bool

namespace Layout

/-- The numerals that stand for doubles: positional below `10 ^ 16`, always with a point. -/
def exact : Layout := ⟨16, true⟩

/-- The numerals of six significant digits: positional below `10 ^ 6`, without a final point. -/
def general : Layout := ⟨6, false⟩

end Layout

/-- The exponent of the leading digit. -/
def leadingExponent (d : Decimal) : Int := (digits d.coefficient).length - 1 + d.exponent

/-- An exponent with its sign and at least two digits. -/
def exponentText (e : Int) : List Char :=
  let ds := digits e.natAbs
  (if e < 0 then '-' else '+') :: (List.replicate (2 - ds.length) '0' ++ ds)

/-- The numeral of a number without trailing zeros. -/
def written (l : Layout) (d : Decimal) : List Char :=
  let e := d.leadingExponent
  if -4 ≤ e ∧ e < l.positionalBelow then
    plain d ++ (if l.wholePoint ∧ 0 ≤ d.exponent then ['.', '0'] else [])
  else
    let mantissa := match digits d.coefficient with
      | first :: second :: rest => first :: '.' :: second :: rest
      | short => short
    sign d.negative ++ mantissa ++ 'e' :: exponentText e

end Decimal
end Reckon
