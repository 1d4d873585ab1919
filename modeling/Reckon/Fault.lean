import Reckon.Decimal.Shortest

/-!
# Why a formula has no value

A formula is malformed, names something that has no value, or has a value that
is not a finite number. Each cause has a code of four digits and a message. The
first digit of a code is always 3; the second tells the three kinds of causes
apart.

A fault is a `MathError`, and its kind tells the classes apart that are raised. What
no formula is told about has no code (`Breakdown`).
-/

namespace Reckon

/-- What is wrong with a formula or with its evaluation. -/
inductive Fault where
  /-- A character that begins no token. -/
  | unexpectedCharacter (c : Char)
  /-- A number at this position goes on with a second point. -/
  | secondPoint (position : Nat)
  /-- An open parenthesis is not closed where it must be. -/
  | missingClose
  /-- A parenthesis is closed that was not opened. -/
  | missingOpen
  /-- A token that cannot stand where it stands. -/
  | unexpectedToken (text : List Char)
  /-- The formula ends, or a parenthesis closes, where an operand must be. -/
  | missingOperand
  /-- A caret without a whole number after it. -/
  | badExponent
  /-- A caret after something other than a name or a group, or after an exponent. -/
  | badBase
  /-- An operator that has no meaning. -/
  | unknownOperator (text : List Char)
  /-- A name without a value that is no product of names with values. -/
  | undefinedVariable (name : List Char)
  /-- The divisor is zero. -/
  | divisionByZero
  /-- A value on the way is infinite or nan. -/
  | notFinite (value : Binary64)
  /-- A power is too large, or its exponent. -/
  | powerTooBig
  /-- A variable has a whole number as its value that is too large for a double. -/
  | integerTooBig
deriving DecidableEq

namespace Fault

/-- The kinds of faults. -/
inductive Kind where
  | malformed
  | undefined
  | division
  | nonFinite
deriving DecidableEq, Repr

/-- The kind of a fault. -/
def kind : Fault → Kind
  | undefinedVariable _ => .undefined
  | divisionByZero => .division
  | notFinite _ | powerTooBig | integerTooBig => .nonFinite
  | _ => .malformed

/-- Faults of the calculation, as opposed to faults of the formula. -/
def Kind.isCalculation : Kind → Bool
  | .division | .nonFinite => true
  | _ => false

/-- The code of a fault. -/
def code : Fault → String
  | unexpectedCharacter _ => "3000"
  | secondPoint _ => "3001"
  | missingClose => "3002"
  | missingOpen => "3003"
  | unexpectedToken _ => "3004"
  | missingOperand => "3005"
  | badExponent => "3006"
  | badBase => "3007"
  | unknownOperator _ => "3008"
  | undefinedVariable _ => "3100"
  | divisionByZero => "3200"
  | notFinite _ => "3201"
  | powerTooBig => "3202"
  | integerTooBig => "3202"

/-- The message of a fault. -/
def message : Fault → String
  | unexpectedCharacter c => "Unexpected character: '" ++ String.singleton c ++ "'"
  | secondPoint position =>
    "More than one '.' in number at position " ++ toString position ++ "."
  | missingClose => "Missing closing parenthesis ')'"
  | missingOpen => "Missing opening parenthesis '('"
  | unexpectedToken text => "Unexpected token: " ++ String.ofList text
  | missingOperand => "Missing operand."
  | badExponent => "Exponent must be a non-negative integer."
  | badBase => "Only identifiers and groups can be raised to a power."
  | unknownOperator text => "Unknown operator: " ++ String.ofList text
  | undefinedVariable name => "Variable \"" ++ String.ofList name ++ "\" is not defined."
  | divisionByZero => "Division by zero"
  | notFinite value => "Result is not a finite number: " ++ String.ofList value.written
  | powerTooBig => "Number too big."
  | integerTooBig => "Number too large (Arithmetic overflow)."

/-- The general description of a code, without the particulars of one formula (`ERROR_MESSAGES`). -/
def description? (code : String) : Option String :=
  [ ("3000", "Unexpected character: "),
    ("3001", "More than one '.' in one number."),
    ("3002", "Missing ')'."),
    ("3003", "Missing '('."),
    ("3004", "Unexpected token: "),
    ("3005", "Missing operand."),
    ("3006", "Exponent must be a non-negative integer."),
    ("3007", "Only identifiers and parenthesized groups can be raised to a power."),
    ("3008", "Invalid operator: "),
    ("3100", "Undefined variable: "),
    ("3200", "Division by Zero"),
    ("3201", "Result is not a finite number."),
    ("3202", "Number too big."),
    ("5001", "Settings could not be saved."),
    ("9999", "Unexpected Error: ") ].lookup code

/-- Every code that a fault has is described. -/
theorem isSome_description (f : Fault) : (description? f.code).isSome = true := by
  cases f <;> rfl

end Fault

/-- A breakdown of the calculation, which is no fault of a formula with a code. -/
inductive Breakdown where
  /-- An exponent has more digits than a whole number is read from. -/
  | exponentTooLong
  /-- Zero has no negative powers. -/
  | zeroToNegative
  /-- A power of a name that is a product of no names at all. -/
  | noFactors
  /-- A place in an expression where nothing has been written. -/
  | unwritten
deriving DecidableEq, Repr

/-- Everything that can end the reading or the evaluation of a formula. -/
inductive Failure where
  | fault (cause : Fault)
  | breakdown (cause : Breakdown)
deriving DecidableEq

end Reckon
