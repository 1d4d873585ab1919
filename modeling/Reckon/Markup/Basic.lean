/-!
# Markup

A rendered formula is a sequence of pieces: text as it was typed, raised digits
and lowered digits. A markup says how each kind of piece is written.
-/

namespace Reckon

/-- A piece of a rendered formula. -/
inductive Piece where
  | plain (text : List Char)
  | superscript (digits : List Char)
  | subscript (digits : List Char)
deriving DecidableEq, Repr

/-- A way to write pieces. -/
inductive Markup where
  /-- Raised and lowered digits stand between tags. -/
  | html
  /-- Raised and lowered digits are characters of their own. -/
  | unicode
deriving DecidableEq, Repr

namespace Markup

/-- The markup with a given name. -/
def ofName? (name : String) : Option Markup :=
  if name = "html" then some html
  else if name = "unicode" then some unicode
  else none

/-- A character of plain text between tags (`html_escape`). -/
def escapeChar (c : Char) : List Char :=
  if c = '&' then "&amp;".toList
  else if c = '<' then "&lt;".toList
  else if c = '>' then "&gt;".toList
  else [c]

/-- The raised form of a digit (`SUPERSCRIPT_DIGITS`). -/
def raisedDigit (c : Char) : Char :=
  match c with
  | '0' => '⁰' | '1' => '¹' | '2' => '²' | '3' => '³' | '4' => '⁴'
  | '5' => '⁵' | '6' => '⁶' | '7' => '⁷' | '8' => '⁸' | '9' => '⁹'
  | c => c

/-- The lowered form of a digit (`SUBSCRIPT_DIGITS`). -/
def loweredDigit (c : Char) : Char :=
  match c with
  | '0' => '₀' | '1' => '₁' | '2' => '₂' | '3' => '₃' | '4' => '₄'
  | '5' => '₅' | '6' => '₆' | '7' => '₇' | '8' => '₈' | '9' => '₉'
  | c => c

/-- A piece as it is written: the functions of a markup in `MARKUPS`. -/
def piece : Markup → Piece → List Char
  | html, .plain text => text.flatMap escapeChar
  | html, .superscript digits => "<sup>".toList ++ digits ++ "</sup>".toList
  | html, .subscript digits => "<sub>".toList ++ digits ++ "</sub>".toList
  | unicode, .plain text => text
  | unicode, .superscript digits => digits.map raisedDigit
  | unicode, .subscript digits => digits.map loweredDigit

/-- Pieces as they are written. -/
def pieces (m : Markup) (ps : List Piece) : List Char := ps.flatMap m.piece

end Markup
end Reckon
