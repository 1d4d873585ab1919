import Reckon.Bindings
import Reckon.Binary64.Power
import Reckon.Expr.Basic
import Reckon.Fault

/-!
# The value of an expression

This is what `evaluate` does at each kind of node. Operands are evaluated from left
to right, and the first failure is the result. Literals, variables and the results
of operators and powers must be finite. The factors before the last one of a run of
names are the coefficient of its power, because an exponent binds tighter than
multiplication.
-/

namespace Reckon
namespace Expr

/-- Refuses infinities and nan (`check_finite`). -/
def finite (x : Binary64) : Except Failure Binary64 :=
  if x.isFinite then .ok x else .error (.fault (.notFinite x))

/-- The double that a number for a variable stands for. -/
def valueOf (n : Number) : Except Failure Binary64 :=
  match n.toBinary64? with
  | some x => finite x
  | none => .error (.fault .integerTooBig)

/-- The values that a name stands for: its own, or those of the names that it is a run of
(`factor_values`). -/
def factors (b : Bindings) (name : List Char) : Except Failure (List Binary64) :=
  match b.lookup name with
  | some n => (valueOf n).map ([·])
  | none =>
    match Name.split b.names name with
    | none => .error (.fault (.undefinedVariable name))
    | some parts => parts.mapM fun part =>
      match b.lookup part with
      | some n => valueOf n
      | none => .error (.fault (.undefinedVariable part))

/-- The product of values from left to right. -/
def product (xs : List Binary64) : Binary64 := xs.foldl .mul .one

/-- The result of an operator. -/
def combine (op : Operator) (x y : Binary64) : Except Failure Binary64 :=
  match op with
  | .plus => finite (x.add y)
  | .minus => finite (x.sub y)
  | .times => finite (x.mul y)
  | .dividedBy => if y.isZero then .error (.fault .divisionByZero) else finite (x.div y)
  | .unknown text => .error (.fault (.unknownOperator text))

/-- What a power that does not exist means for the expression. -/
def failureOf : Binary64.PowerFailure → Failure
  | .tooBig => .fault .powerTooBig
  | .zeroToNegative => .breakdown .zeroToNegative

/-- The coefficient times a power. -/
def raise (coefficient base : Binary64) (exponent : Int) : Except Failure Binary64 := do
  let y ← (base.pow exponent).mapError failureOf
  finite (coefficient.mul y)

/-- The value of an expression. -/
def value (b : Bindings) : Expr → Except Failure Binary64
  | literal x => finite x
  | var name => do finite (product (← factors b name))
  | binary op left right => do
    let x ← value b left
    let y ← value b right
    combine op x y
  | power (var name) exponent => do
    let xs ← factors b name
    match xs.getLast? with
    | none => .error (.breakdown .noFactors)
    | some base => raise (product xs.dropLast) base exponent
  | power base exponent => do raise .one (← value b base) exponent
  | group inner => value b inner
  | hole => .error (.breakdown .unwritten)

end Expr
end Reckon
