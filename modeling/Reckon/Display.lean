import Reckon.Decimal.Shortest
import Reckon.Outcome
import Reckon.Ratio.Nearest

/-!
# How a value is shown

A value is shown as a decimal number or as a fraction, with a flag that tells
whether the text is exact. What is exact is the decimal number that stands for
the double, not the double itself. Whole values have no places; other values
are rounded to the places asked for, a half to the even neighbour. Either is
shown in a bounded number of significant digits, without trailing zeros. A
fraction has a denominator of at most 100000, and shows its whole part first.

Some values cannot be shown, and some requests for places are none
(`Unshowable`). These are the two ways of `format_result`, a decimal number that is
quantized and normalized with 28 digits, and a fraction with a limited denominator.
-/

namespace Reckon

/-- How the user wants values to be shown. -/
structure DisplayOptions where
  /-- Places after the point; nothing if the setting is no whole number. -/
  places : Option Int
  fractions : Bool
deriving DecidableEq, Repr

/-- Why a value cannot be shown. -/
inductive Unshowable where
  /-- Nan is no fraction. -/
  | nanFraction
  /-- Infinity is no fraction. -/
  | infiniteFraction
  /-- There is no room for the digits before the point, as in infinity. -/
  | infiniteDecimal
  /-- A whole number that is too large for a double. -/
  | integerTooBig
  /-- The number of places is no whole number. -/
  | placesNotWhole
  /-- There is no room for so many places. -/
  | tooManyPlaces
  /-- The number of places is beyond any count. -/
  | placesUncountable
deriving DecidableEq, Repr

/-- A value as it is shown. -/
structure Shown where
  text : List Char
  /-- The text stands for another number than the value. -/
  rounded : Bool
deriving DecidableEq, Repr

namespace Display

/-- The significant digits of a decimal number that is shown; the rest is rounded away. -/
def significantDigits : Nat := 28

/-- The digits that are kept before the point and in reserve when places are rounded. -/
def reserveDigits : Nat := 64

/-- The greatest number of digits that can be asked for. -/
def digitLimit : Nat := 999999999999999999

/-- The greatest denominator of a fraction. -/
def denominatorLimit : Nat := 100000

/-- The places to round to; a negative number of places counts as none. -/
def roundingPlaces (places : Option Int) : Except Unshowable Nat :=
  match places with
  | none => .error .placesNotWhole
  | some n =>
    if (2 : Int) ^ (63 : Nat) ≤ n.toNat + reserveDigits then .error .placesUncountable
    else if digitLimit < n.toNat + reserveDigits then .error .tooManyPlaces
    else .ok n.toNat

/-- A decimal number with its trailing zeros taken off; zero has no sign. -/
def plainText (d : Decimal) : List Char :=
  let r := d.toPrecision significantDigits
  if r.coefficient = 0 then ['0'] else r.normalize.plain

/-- A decimal number rounded to some places, if there is room for its digits before the point. -/
def atPlaces (n : Nat) (d : Decimal) : Except Unshowable Shown :=
  let r := d.toPlaces n
  if reserveDigits < r.magnitudePlace then .error .infiniteDecimal
  else .ok ⟨plainText r, !r.sameMagnitude d⟩

/-- A value as a decimal number. -/
def asDecimal (places : Option Int) : Number → Except Unshowable Shown
  | .integer n =>
    match Binary64.ofInt? n with
    | none => .error .integerTooBig
    | some _ => .ok ⟨plainText ⟨n < 0, n.natAbs, 0⟩, false⟩
  | .double x =>
    match x.toDecimal? with
    | some d =>
      if x.isWhole then .ok ⟨plainText d, false⟩
      else (roundingPlaces places).bind fun n => atPlaces n d
    | none => do
      let _ ← roundingPlaces places
      if x = .nan then return ⟨"NaN".toList, true⟩
      else .error .infiniteDecimal

/-- A fraction with its whole part first. -/
def fractionText (r : Rat) : List Char :=
  if r.den = 1 then Decimal.ofInt r.num
  else
    let n := r.num.natAbs
    let proper (m : Nat) : List Char := Decimal.digits m ++ '/' :: Decimal.digits r.den
    Decimal.sign (r.num < 0) ++
      if r.den < n then Decimal.digits (n / r.den) ++ ' ' :: proper (n % r.den) else proper n

/-- The fraction nearest to a number. -/
def nearestFraction (x : Rat) : Shown :=
  let r := Ratio.nearest denominatorLimit x
  ⟨fractionText r, r != x⟩

/-- A value as a fraction. -/
def asFraction : Number → Except Unshowable Shown
  | .integer n => .ok ⟨Decimal.ofInt n, false⟩
  | .double x =>
    match x.toDecimal? with
    | some d => .ok (nearestFraction d.toRat)
    | none => .error (if x = .nan then .nanFraction else .infiniteFraction)

/-- A value as the user wants it shown (`format_result`). -/
def value (options : DisplayOptions) (n : Number) : Except Unshowable Shown :=
  if options.fractions then asFraction n else asDecimal options.places n

/-- The text that is shown for an outcome: an exact value after an equals sign, a rounded one
after a sign of its own, and no more than a word for a fault (`display_result`). -/
def outcome (options : DisplayOptions) : Outcome → Except Unshowable (List Char)
  | .blank => .ok Outcome.prompt.toList
  | .fault _ _ => .ok "Error".toList
  | .value x => (value options (.double x)).map fun shown =>
    (if shown.rounded then '≈' else '=') :: ' ' :: shown.text

end Display
end Reckon
