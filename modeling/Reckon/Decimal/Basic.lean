import Reckon.Rounding

/-!
# Decimal numbers

A decimal number is a sign, a whole coefficient and a power of ten. The same
value has many of them; `normalize` gives the one without trailing zeros.
Rounding to places and to significant digits goes half to even, and the plain
numeral has no power of ten in it.

Results:

* `stripZeros_mul`: taking trailing zeros off keeps the value.
* `stripZeros_mod`: a nonzero coefficient then ends in another digit.
-/

namespace Reckon

/-- The number `± coefficient * 10 ^ exponent`. -/
structure Decimal where
  negative : Bool
  coefficient : Nat
  exponent : Int
deriving DecidableEq, Repr

namespace Decimal

/-- The digits of a whole number. -/
def digits (n : Nat) : List Char := Nat.toDigits 10 n

/-- The number that a run of decimal digits stands for. -/
def ofDigits (cs : List Char) : Nat := Nat.ofDigitChars 10 cs 0

/-- The value as a ratio. -/
def toRat (d : Decimal) : Rat :=
  let magnitude : Rat :=
    match d.exponent with
    | .ofNat k => (d.coefficient * 10 ^ k : Nat)
    | .negSucc k => mkRat d.coefficient (10 ^ (k + 1))
  if d.negative then -magnitude else magnitude

/-- Takes the trailing zeros off a coefficient and counts them. -/
def stripZeros (c : Nat) : Nat × Nat :=
  if c ≠ 0 ∧ c % 10 = 0 then
    let (rest, k) := stripZeros (c / 10)
    (rest, k + 1)
  else (c, 0)
termination_by c
decreasing_by omega

/-- Taking trailing zeros off keeps the value. -/
theorem stripZeros_mul (c : Nat) : (stripZeros c).1 * 10 ^ (stripZeros c).2 = c := by
  fun_induction stripZeros c with
  | case1 c h rest k heq ih =>
    rw [heq] at ih
    simp only at ih ⊢
    rw [Nat.pow_succ, ← Nat.mul_assoc, ih]
    omega
  | case2 c h => simp

/-- What is left of a nonzero coefficient does not end in zero. -/
theorem stripZeros_mod {c : Nat} (hc : c ≠ 0) : (stripZeros c).1 % 10 ≠ 0 := by
  fun_induction stripZeros c with
  | case1 c h rest k heq ih =>
    rw [heq] at ih
    exact ih (by omega)
  | case2 c h => simp_all

/-- The same value without trailing zeros; zero has exponent zero. -/
def normalize (d : Decimal) : Decimal :=
  if d.coefficient = 0 then ⟨d.negative, 0, 0⟩
  else
    let (c, k) := stripZeros d.coefficient
    ⟨d.negative, c, d.exponent + k⟩

/-- The number with the last `k` digits of its coefficient rounded away, a half to even. -/
def dropDigits (k : Nat) (d : Decimal) : Decimal :=
  ⟨d.negative, halfEven d.coefficient (10 ^ k), d.exponent + k⟩

/-- The number rounded to `n` places after the point. -/
def toPlaces (n : Nat) (d : Decimal) : Decimal :=
  dropDigits (-d.exponent - n).toNat d

/-- The number rounded to `n` significant digits. -/
def toPrecision (n : Nat) (d : Decimal) : Decimal :=
  dropDigits ((digits d.coefficient).length - n) d

/-- Whether two numbers of the same sign have the same value. -/
def sameMagnitude (a b : Decimal) : Bool :=
  let low := min a.exponent b.exponent
  a.coefficient * 10 ^ (a.exponent - low).toNat == b.coefficient * 10 ^ (b.exponent - low).toNat

/-- The sign of a numeral. -/
def sign (negative : Bool) : List Char := if negative then ['-'] else []

/-- The numeral of a whole number. -/
def ofInt (n : Int) : List Char := sign (n < 0) ++ digits n.natAbs

/-- The digits with a point before the last `k` of them, and a zero before the point if there
is no other digit. -/
def withPoint (k : Nat) (ds : List Char) : List Char :=
  let padded := List.replicate (k + 1 - ds.length) '0' ++ ds
  if k = 0 then padded
  else padded.take (padded.length - k) ++ '.' :: padded.drop (padded.length - k)

/-- The numeral without a power of ten. -/
def plain (d : Decimal) : List Char :=
  sign d.negative ++
    match d.exponent with
    | .ofNat k => if d.coefficient = 0 then ['0'] else digits d.coefficient ++ List.replicate k '0'
    | .negSucc k => withPoint (k + 1) (digits d.coefficient)

end Decimal
end Reckon
