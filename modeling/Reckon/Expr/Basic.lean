import Reckon.Decimal.Shortest
import Reckon.Text.Quoted

/-!
# Expressions

The tree that a formula stands for, and its listing for diagnostics. Its nodes are
`Literal`, `Variable`, `BinOp`, `Power` and `Group`.
-/

namespace Reckon

/-- A binary operator; one that has no meaning keeps its text. -/
inductive Operator where
  | plus
  | minus
  | times
  | dividedBy
  | unknown (text : List Char)
deriving DecidableEq, Repr

namespace Operator

/-- The operator with a given text. -/
def ofText (text : List Char) : Operator :=
  if text = ['+'] then plus
  else if text = ['-'] then minus
  else if text = ['*'] then times
  else if text = ['/'] then dividedBy
  else unknown text

/-- The text of an operator. -/
def text : Operator → List Char
  | plus => ['+']
  | minus => ['-']
  | times => ['*']
  | dividedBy => ['/']
  | unknown text => text

/-- Every text is the text of the operator it gives. -/
theorem text_ofText (cs : List Char) : (ofText cs).text = cs := by
  unfold ofText
  repeat' split
  all_goals simp_all [text]

end Operator

/-- An arithmetic expression. -/
inductive Expr where
  | literal (value : Binary64)
  /-- A name, which may stand for a product of names. -/
  | var (name : List Char)
  | binary (op : Operator) (left right : Expr)
  | power (base : Expr) (exponent : Int)
  /-- An expression in parentheses. -/
  | group (inner : Expr)
  /-- A place where nothing has been written. -/
  | hole
deriving DecidableEq

namespace Expr

/-- The listing of an expression. -/
def written : Expr → List Char
  | literal value => "Literal(".toList ++ value.written ++ [')']
  | var name => "Variable(".toList ++ Text.quoted name ++ [')']
  | binary op left right =>
    "BinOp(".toList ++ Text.quoted op.text ++ ", left=".toList ++ left.written ++
      ", right=".toList ++ right.written ++ [')']
  | power base exponent =>
    "Power(base=".toList ++ base.written ++ ", exponent=".toList ++ Decimal.ofInt exponent ++ [')']
  | group inner => "Group(".toList ++ inner.written ++ [')']
  | hole => "Expression()".toList

end Expr
end Reckon
