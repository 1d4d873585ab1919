import Reckon.Text.Quoted

/-!
# Tokens

A token (`Token`) is a run of characters of a formula with its kind and its
position.
-/

namespace Reckon

/-- What a token can be. -/
inductive Token.Kind where
  | number
  | identifier
  | operator
  | caret
  | openParen
  | closeParen
  /-- A character that is part of no formula. -/
  | other
deriving DecidableEq, Repr

/-- The name of a kind in listings. -/
def Token.Kind.name : Token.Kind → String
  | number => "number"
  | identifier => "ident"
  | operator => "op"
  | caret => "^"
  | openParen => "("
  | closeParen => ")"
  | other => "other"

/-- A lexical unit of a formula. -/
structure Token where
  kind : Token.Kind
  text : List Char
  /-- The position of the first character. -/
  start : Nat
deriving DecidableEq, Repr

namespace Token

/-- The position after the last character. -/
def stop (t : Token) : Nat := t.start + t.text.length

/-- The second token follows the first without anything between them. -/
def touches (t u : Token) : Bool := u.start == t.stop

/-- A token in a listing: its kind and its text. -/
def written (t : Token) : List Char :=
  "Token(".toList ++ Text.quoted t.kind.name.toList ++ ", ".toList ++ Text.quoted t.text ++ [')']

/-- A listing of tokens. -/
def listing (ts : List Token) : List Char :=
  '[' :: (", ".toList.intercalate (ts.map written) ++ [']'])

end Token
end Reckon
