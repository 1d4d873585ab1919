import Reckon.Decimal.Layout
import Reckon.Decimal.Reader

/-!
# The shortest decimal that reads back

Of all decimal numbers that are read as a given double, the one written for it
has the fewest digits, and of those it is the nearest. It is found by looking
at the two neighbours of the double among the decimals of one digit, of two
digits, and so on; seventeen digits always suffice.

The numeral of six significant digits is a rounding of the exact value, and
need not read back.
-/

namespace Reckon
namespace Binary64

/-- The decimal exponent of the leading digit of a nonzero number of units. -/
def leadingPlace (u : Nat) : Int :=
  if unit ≤ u then (Decimal.digits (u / unit)).length - 1
  else -((Decimal.digits ((unit - 1) / u)).length : Int)

/-- The exact quotient of `u` units by `10 ^ e`. -/
def onGrid (u : Nat) (e : Int) : Nat × Nat :=
  match e with
  | .ofNat k => (u, unit * 10 ^ k)
  | .negSucc k => (u * 10 ^ (k + 1), unit)

/-- Whether `c * 10 ^ e` is read as `u` units. -/
def readsBack (u c : Nat) (e : Int) : Bool :=
  match (Decimal.mk false c e).toBinary64 with
  | .finite false v _ => v == u
  | _ => false

/-- The multiple of `10 ^ e` nearest to `u` units, or else its neighbour on the other side, if
it reads back. -/
def neighbour? (u : Nat) (e : Int) : Option Decimal :=
  let (n, d) := onGrid u e
  let near := halfEven n d
  let far := if near = n / d then near + 1 else n / d
  if readsBack u near e then some ⟨false, near, e⟩
  else if readsBack u far e then some ⟨false, far, e⟩
  else none

/-- All digits of `u` units. -/
def allDigits (u : Nat) : Decimal := ⟨false, u * 5 ^ (1074 : Nat), -1074⟩

/-- The shortest decimal that is read as `u` units. -/
def shortest (u : Nat) : Decimal :=
  if u = 0 then ⟨false, 0, 0⟩
  else
    let found := (List.range 17).findSome? fun k : Nat => neighbour? u (leadingPlace u - k)
    (found.getD (allDigits u)).normalize

/-- The shortest decimal that is read as a finite double. -/
def toDecimal? : Binary64 → Option Decimal
  | .finite s u _ => some { shortest u with negative := s }
  | _ => none

/-- The numeral of a double: the shortest that reads back. -/
def written : Binary64 → List Char
  | .finite s u _ => Decimal.written .exact { shortest u with negative := s }
  | .infinite s => Decimal.sign s ++ "inf".toList
  | .nan => "nan".toList

/-- The nearest decimal of six significant digits, ties to even. -/
def toSixDigits (u : Nat) : Decimal :=
  if u = 0 then ⟨false, 0, 0⟩
  else
    let e := leadingPlace u - 5
    let (n, d) := onGrid u e
    (Decimal.mk false (halfEven n d) e).normalize

/-- The numeral of six significant digits. -/
def writtenShort : Binary64 → List Char
  | .finite s u _ => Decimal.written .general { toSixDigits u with negative := s }
  | .infinite s => Decimal.sign s ++ "inf".toList
  | .nan => "nan".toList

end Binary64
end Reckon
