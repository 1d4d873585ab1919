import Reckon.Decimal.Reader
import Reckon.Text.Blank
import Reckon.Text.DecimalDigit
import Reckon.Text.Quoted

/-!
# Numbers as they are typed

A field takes a number in digits of any script, with blanks around it, with an
optional sign, point and power of ten, and with single underscores between
digits. A field of a variable never refuses: what is not a finite number counts
as zero. A field for a whole number says what is wrong.

Results:

* `isFinite_number`: a variable never gets an infinity or nan from its field.
-/

namespace Reckon
namespace Entry

/-- The same digit in the ASCII script; other characters stay. -/
def asciiDigit (c : Char) : Char :=
  match Text.digitValue? c with
  | some n => Nat.digitChar n
  | none => c

/-- Takes out the underscores, each of which must stand between two digits. -/
def dropSeparators (afterDigit : Bool) : List Char → Option (List Char)
  | [] => some []
  | '_' :: d :: cs =>
    if afterDigit && Text.isAsciiDigit d then (dropSeparators true cs).map (d :: ·) else none
  | c :: cs =>
    if c = '_' then none else (dropSeparators (Text.isAsciiDigit c) cs).map (c :: ·)

/-- Splits off a sign; without one the number is positive. -/
def splitSign : List Char → Bool × List Char
  | '-' :: cs => (true, cs)
  | '+' :: cs => (false, cs)
  | cs => (false, cs)

/-- A power of ten: a sign and at least one digit, and nothing else. -/
def exponent? (cs : List Char) : Option Int :=
  let (negative, ds) := splitSign cs
  if ds ≠ [] ∧ ds.all Text.isAsciiDigit then
    some (if negative then -(Decimal.ofDigits ds : Int) else Decimal.ofDigits ds)
  else none

/-- An unsigned decimal number: digits with at most one point, and perhaps a power of ten. -/
def magnitude? (cs : List Char) : Option Decimal :=
  let whole := cs.takeWhile Text.isAsciiDigit
  let rest := cs.dropWhile Text.isAsciiDigit
  let (places, rest) := match rest with
    | '.' :: after => (after.takeWhile Text.isAsciiDigit, after.dropWhile Text.isAsciiDigit)
    | _ => ([], rest)
  let scaled (e : Int) : Decimal :=
    ⟨false, Decimal.ofDigits (whole ++ places), e - places.length⟩
  if whole ++ places = [] then none
  else match rest with
    | [] => some (scaled 0)
    | e :: power => if e = 'e' ∨ e = 'E' then (exponent? power).map scaled else none

/-- The double that a text stands for: a decimal number, or a word for infinity or nan. -/
def binary64? (text : List Char) : Option Binary64 := do
  let cs ← dropSeparators false ((Text.trim text).map asciiDigit)
  let (negative, cs) := splitSign cs
  let word := String.ofList (cs.map Char.toLower)
  if word = "inf" ∨ word = "infinity" then return .infinite negative
  else if word = "nan" then return .nan
  else
    let d ← magnitude? cs
    return Decimal.toBinary64 { d with negative }

/-- The value of a variable whose field holds the text: zero unless it is a finite number
(`parse_variable_input`). -/
def number (text : List Char) : Binary64 :=
  match binary64? text with
  | some (.finite s u h) => .finite s u h
  | _ => .zero

/-- A variable never gets an infinity or nan from its field. -/
theorem isFinite_number (text : List Char) : (number text).isFinite = true := by
  unfold number
  split <;> rfl

/-! ## Whole numbers -/

/-- The greatest number of digits that a whole number is read from. -/
def maxDigits : Nat := 4300

/-- Why a text is not taken as a whole number. -/
inductive IntegerFault where
  /-- It is not a sign and digits. -/
  | notWhole (text : List Char)
  /-- It has too many digits. -/
  | tooLong (digits : Nat)
deriving DecidableEq, Repr

/-- At most this many characters of a refused entry, in its quotes, are shown. -/
def shownLength : Nat := 200

/-- The text that tells the user. -/
def IntegerFault.message : IntegerFault → String
  | .notWhole text =>
    "invalid literal for int() with base 10: " ++
      String.ofList ((Text.quoted text).take shownLength)
  | .tooLong digits =>
    "Exceeds the limit (" ++ toString maxDigits ++
      " digits) for integer string conversion: value has " ++ toString digits ++
      " digits; use sys.set_int_max_str_digits() to increase the limit"

/-- The whole number that a text without blanks around it stands for. -/
def integer (text : List Char) : Except IntegerFault Int :=
  let (negative, cs) := splitSign (text.map asciiDigit)
  let inNumber (c : Char) : Bool := Text.isAsciiDigit c || c == '_'
  match dropSeparators false (cs.takeWhile inNumber) with
  | none => .error (.notWhole text)
  | some ds =>
    if maxDigits < ds.length then .error (.tooLong ds.length)
    else if ds = [] ∨ cs.dropWhile inNumber ≠ [] then .error (.notWhole text)
    else .ok (if negative then -(Decimal.ofDigits ds : Int) else Decimal.ofDigits ds)

end Entry
end Reckon
