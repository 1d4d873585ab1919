import Reckon.Token.Basic

/-!
# What the grammar sees of a token

The grammar does not look at positions. It sees the kind and the text of a
token, and whether the token is an identifier written directly after a number,
which multiplies the number by it.
-/

namespace Reckon

/-- A token as the grammar sees it. -/
structure Symbol where
  kind : Token.Kind
  text : List Char
  /-- An identifier that begins where a number ends. -/
  joined : Bool
deriving DecidableEq, Repr

namespace Symbol

/-- Whether a token is an identifier that begins where the token before it, a number, ends. -/
def isJoined (previous : Option Token) (t : Token) : Bool :=
  previous.any fun p => p.kind == .number && t.kind == .identifier && p.touches t

/-- The symbols of tokens that come after another token. -/
def ofTokensAfter (previous : Option Token) : List Token → List Symbol
  | [] => []
  | t :: ts => ⟨t.kind, t.text, isJoined previous t⟩ :: ofTokensAfter (some t) ts

/-- The symbols of the tokens of a formula. -/
def ofTokens (ts : List Token) : List Symbol := ofTokensAfter none ts

/-- A sign of a number or a sum. -/
def isSign (s : Symbol) : Bool := s.kind == .operator && (s.text == ['+'] || s.text == ['-'])

/-- An operator of a product. -/
def isFactorOperator (s : Symbol) : Bool :=
  s.kind == .operator && (s.text == ['*'] || s.text == ['/'])

/-- A number of digits only, as an exponent is written. -/
def isExponent (s : Symbol) : Bool := s.kind == .number && s.text.all (· != '.')

end Symbol
end Reckon
