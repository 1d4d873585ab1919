import Reckon.Expr.Basic
import Reckon.Expr.Symbol
import Reckon.Token.Lexer
import Reckon.Entry

/-!
# From formulas to expressions

The levels of the grammar, from the loosest to the tightest:

* a sum of terms,
* a term of signed operands with `*` and `/`, where an identifier that is
  written directly after a number is a further factor,
* an operand with any number of signs,
* a name or a group with an exponent,
* a number, a name, or a sum in parentheses.

Operators of one level associate to the left. What the grammar leaves open is
settled by conventions: by the standard ones a minus before a number makes a
negative number, and before anything else it is a subtraction from zero.

The levels are the local functions of `parse`, from `parse_sum` down to
`parse_factor`. Where these move a position along the list of tokens, each level
here takes what belongs to it from the front of the symbols, and its result says
that fewer symbols are left, which is why reading ends. Their loops are
`readFactors`, `readTerms` and the recursion of `readUnary`.
-/

namespace Reckon

/-- What a level of the grammar has read, with fewer than `n` symbols left. -/
structure Parsed (n : Nat) where
  expr : Expr
  rest : List Symbol
  shorter : rest.length < n

namespace Parsed

/-- The same result under a weaker bound. -/
def weaken {n m : Nat} (h : n ≤ m) (p : Parsed n) : Parsed m :=
  ⟨p.expr, p.rest, Nat.lt_of_lt_of_le p.shorter h⟩

end Parsed

namespace Expr

/-- The expression that a unary minus makes of its operand. -/
def negated : Expr → Expr
  | literal value => literal value.neg
  | e => binary .minus (literal .zero) e

/-- What the grammar leaves open. -/
structure Conventions where
  /-- The greatest number of digits that an exponent is read from. -/
  maxDigits : Nat
  /-- The expression that a unary minus makes of its operand. -/
  minus : Expr → Expr

/-- The conventions of formulas. -/
def Conventions.standard : Conventions := ⟨Entry.maxDigits, negated⟩

/-- An expression that can have an exponent: a name or a group. -/
def isBase : Expr → Bool
  | var _ | group _ => true
  | _ => false

variable (c : Conventions)

/-- The exponent that a run of digits stands for. -/
def exponentOf (text : List Char) : Except Failure Int :=
  if c.maxDigits < text.length then .error (.breakdown .exponentTooLong)
  else .ok (Decimal.ofDigits text)

/-- What follows the base of a power, if it begins with a caret. -/
def readExponent (base : Expr) : (ts : List Symbol) → Except Failure (Parsed (ts.length + 1))
  | [] => .ok ⟨base, [], by simp⟩
  | s :: ss =>
    if s.kind ≠ .caret then .ok ⟨base, s :: ss, by simp⟩
    else if !base.isBase then .error (.fault .badBase)
    else match ss with
      | [] => .error (.fault .badExponent)
      | e :: es =>
        if !e.isExponent then .error (.fault .badExponent)
        else if (es.head?.map Symbol.kind) = some .caret then .error (.fault .badBase)
        else (exponentOf c e.text).map fun n => ⟨power base n, es, by simp; omega⟩

mutual

/-- A number, a name, or a sum in parentheses (`parse_factor`). -/
def readFactor : (ts : List Symbol) → Except Failure (Parsed ts.length)
  | [] => .error (.fault .missingOperand)
  | s :: ss =>
    match s.kind with
    | .number => .ok ⟨literal (Decimal.ofNumeral s.text).toBinary64, ss, by simp⟩
    | .identifier => .ok ⟨var s.text, ss, by simp⟩
    | .openParen => do
      let ⟨inner, rest, h⟩ ← readSum ss
      match rest, h with
      | [], _ => .error (.fault .missingClose)
      | r :: rs, h =>
        if r.kind = .closeParen then .ok ⟨group inner, rs, by simp at h ⊢; omega⟩
        else .error (.fault .missingClose)
    | .closeParen => .error (.fault .missingOperand)
    | _ => .error (.fault (.unexpectedToken s.text))
termination_by ts => (ts.length, 0)

/-- A factor, perhaps with an exponent (`parse_power`). -/
def readPower (ts : List Symbol) : Except Failure (Parsed ts.length) := do
  let ⟨base, rest, h⟩ ← readFactor ts
  let p ← readExponent c base rest
  return p.weaken (by omega)
termination_by (ts.length, 1)

/-- A power after any number of signs (`parse_unary`). -/
def readUnary : (ts : List Symbol) → Except Failure (Parsed ts.length)
  | [] => readPower []
  | s :: ss =>
    if s.isSign then do
      let ⟨operand, rest, h⟩ ← readUnary ss
      let value := if s.text = ['-'] then c.minus operand else operand
      return ⟨value, rest, by simp; omega⟩
    else readPower (s :: ss)
termination_by ts => (ts.length, 2)

/-- The further factors of a term: the loop of `parse_term`. -/
def readFactors (current : Expr) : (ts : List Symbol) → Except Failure (Parsed (ts.length + 1))
  | [] => .ok ⟨current, [], by simp⟩
  | s :: ss =>
    if s.isFactorOperator then do
      let ⟨right, rest, h⟩ ← readUnary ss
      let p ← readFactors (binary (.ofText s.text) current right) rest
      return p.weaken (by simp; omega)
    else if s.joined then do
      let ⟨right, rest, h⟩ ← readPower (s :: ss)
      let p ← readFactors (binary .times current right) rest
      return p.weaken (by simp at h ⊢; omega)
    else .ok ⟨current, s :: ss, by simp⟩
termination_by ts => (ts.length, 3)

/-- A term (`parse_term`). -/
def readTerm (ts : List Symbol) : Except Failure (Parsed ts.length) := do
  let ⟨first, rest, h⟩ ← readUnary ts
  let p ← readFactors first rest
  return p.weaken (by omega)
termination_by (ts.length, 4)

/-- The further terms of a sum: the loop of `parse_sum`. -/
def readTerms (current : Expr) : (ts : List Symbol) → Except Failure (Parsed (ts.length + 1))
  | [] => .ok ⟨current, [], by simp⟩
  | s :: ss =>
    if s.isSign then do
      let ⟨right, rest, h⟩ ← readTerm ss
      let p ← readTerms (binary (.ofText s.text) current right) rest
      return p.weaken (by simp; omega)
    else .ok ⟨current, s :: ss, by simp⟩
termination_by ts => (ts.length, 5)

/-- A sum (`parse_sum`). -/
def readSum (ts : List Symbol) : Except Failure (Parsed ts.length) := do
  let ⟨first, rest, h⟩ ← readTerm ts
  let p ← readTerms first rest
  return p.weaken (by omega)
termination_by (ts.length, 6)

end

/-- The expression that symbols stand for when all of them belong to it. -/
def ofSymbols (ts : List Symbol) : Except Failure Expr := do
  let ⟨e, rest, _⟩ ← readSum c ts
  match rest with
  | [] => .ok e
  | s :: _ =>
    if s.kind = .closeParen then .error (.fault .missingOpen)
    else .error (.fault (.unexpectedToken s.text))

/-- The expression that a formula stands for (`parse`). -/
def parse (formula : List Char) : Except Failure Expr := do
  let ts ← (Token.check formula).mapError .fault
  ofSymbols .standard (Symbol.ofTokens ts)

end Expr
end Reckon
