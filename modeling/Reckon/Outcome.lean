import Reckon.Expr.Parser
import Reckon.Expr.Value

/-!
# The outcome of a formula

A formula that is blank has no outcome to speak of, only a prompt. Any other
formula has a value or a fault, and the fault keeps the formula it came from.
-/

namespace Reckon

/-- What a formula comes to. -/
inductive Outcome where
  | value (x : Binary64)
  /-- Nothing has been entered. -/
  | blank
  /-- There is no value; the equation is the formula, where there is one. -/
  | fault (cause : Fault) (equation : Option (List Char))
deriving DecidableEq

namespace Outcome

/-- What the user is asked as long as there is no formula. -/
def prompt : String := "Please enter a formula above"

/-- Whether there is a fault. -/
def isFault : Outcome → Bool
  | fault _ _ => true
  | _ => false

/-- The outcome of an evaluation that ended; a breakdown has none. -/
def ofResult (equation : Option (List Char)) : Except Failure Binary64 → Except Breakdown Outcome
  | .ok x => .ok (.value x)
  | .error (.fault cause) => .ok (.fault cause equation)
  | .error (.breakdown cause) => .error cause

/-- The outcome of an expression, which no formula is known for (`evaluate_expression`). -/
def ofExpr (e : Expr) (b : Bindings) : Except Breakdown Outcome := ofResult none (e.value b)

/-- Whether there is no formula, or one of blanks only (`is_empty`). -/
def isBlankFormula (formula : Option (List Char)) : Bool :=
  match formula with
  | none => true
  | some cs => Text.trim cs == []

/-- The value of a formula, or the failure that is raised (`calculate`). -/
def evaluate (formula : List Char) (b : Bindings) : Except Failure Binary64 := do
  (← Expr.parse formula).value b

/-- The outcome of a formula, with a fault as its result (`evaluate`). -/
def ofFormula (formula : Option (List Char)) (b : Bindings) : Except Breakdown Outcome :=
  match formula with
  | none => .ok .blank
  | some cs => if isBlankFormula cs then .ok .blank else ofResult cs (evaluate cs b)

/-! ## Diagnostics -/

/-- The line that tells of a failed calculation. A whole number that is too large for a double
goes without one. -/
def failureLine : Failure → String
  | .fault .integerTooBig => ""
  | .fault cause => "Calculation error " ++ cause.code ++ ": " ++ cause.message ++ "\n"
  | .breakdown _ => ""

/-- What is told of the evaluation of a formula when diagnostics are on. -/
def diagnostics (formula : Option (List Char)) (b : Bindings) : String :=
  match formula with
  | none => ""
  | some cs =>
    if isBlankFormula cs then ""
    else match Expr.parse cs with
      | .error failure => failureLine failure
      | .ok e =>
        "Evaluating expression: " ++ String.ofList e.written ++ "\n" ++
          match e.value b with
          | .ok x => "Computed result: " ++ String.ofList x.written ++ "\n"
          | .error failure => failureLine failure

/-! ## Listing -/

/-- The name of a kind of fault in listings. -/
def kindName : Fault.Kind → String
  | .malformed => "MalformedExpression"
  | .undefined => "UndefinedVariable"
  | .division => "DivisionByZero"
  | .nonFinite => "NonFiniteResult"

/-- The listing of an outcome. -/
def written : Outcome → List Char
  | value x => x.written
  | blank => "EmptyFormula()".toList
  | fault cause _ =>
    (kindName cause.kind).toList ++ '(' :: Text.quoted cause.message.toList ++
      ", code=".toList ++ Text.quoted cause.code.toList ++ [')']

end Outcome
end Reckon
