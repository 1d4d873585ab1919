import Reckon.Markup.Basic
import Reckon.Token.Lexer

/-!
# Rendering formulas

An exponent that is written directly after a name or a closed group, with no
blank around its caret, is raised. Digits after an underscore inside a name are
lowered. All else stays as it was typed, so that any text can be rendered,
whether it is a formula or not.
-/

namespace Reckon
namespace Piece

/-- The pieces of a name: digits after an underscore that follows a letter, a digit or another
underscore are lowered, and the underscore is dropped (`SUBSCRIPT_PATTERN`). -/
def ofName : List Char → List Piece
  | [] => []
  | [c] => [plain [c]]
  | [c, d] => [plain [c], plain [d]]
  | c :: u :: d :: rest =>
    if Token.isWordChar c && u == '_' && Text.isAsciiDigit d then
      plain [c] :: subscript (d :: rest.takeWhile Text.isAsciiDigit) ::
        ofName (rest.dropWhile Text.isAsciiDigit)
    else plain [c] :: ofName (u :: d :: rest)
termination_by name => name.length
decreasing_by
  · have := (List.dropWhile_suffix (l := rest) Text.isAsciiDigit).length_le
    simp only [List.length_cons]
    omega
  · simp

/-- What is known of the text before a token. -/
structure Context where
  /-- The position that rendering has come to. -/
  position : Nat
  /-- How many groups are open. -/
  openGroups : Nat
  /-- Where a caret would have a base directly before it. -/
  anchor : Option Nat

/-- The context after a token that is no raised exponent. -/
def Context.after (context : Context) (t : Token) : Context :=
  match t.kind with
  | .identifier => { context with position := t.stop, anchor := some t.stop }
  | .openParen => ⟨t.stop, context.openGroups + 1, none⟩
  | .closeParen =>
    ⟨t.stop, context.openGroups - 1, if 0 < context.openGroups then some t.stop else none⟩
  | _ => { context with position := t.stop, anchor := none }

/-- The pieces of a token that is no raised exponent. -/
def ofToken (t : Token) : List Piece :=
  if t.kind = .identifier then ofName t.text else [plain t.text]

/-- Whether a caret and the token after it are a raised exponent. -/
def isRaised (context : Context) (caret exponent : Token) : Bool :=
  caret.kind == .caret && context.anchor == some caret.start && exponent.kind == .number &&
    exponent.text.all (· != '.') && caret.touches exponent

/-- The pieces of the text from a position on, given its tokens. -/
def ofTokens (context : Context) (text : List Char) : List Token → List Piece
  | [] => [plain text]
  | t :: ts =>
    let gap := plain (text.take (t.start - context.position))
    let rest := text.drop (t.stop - context.position)
    match ts with
    | [] => gap :: ofToken t ++ [plain rest]
    | e :: es =>
      if isRaised context t e then
        gap :: superscript e.text ::
          ofTokens ⟨e.stop, context.openGroups, none⟩ (rest.drop (e.stop - t.stop)) es
      else gap :: ofToken t ++ ofTokens (context.after t) rest (e :: es)

/-- The pieces of a formula. -/
def ofFormula (formula : List Char) : List Piece :=
  ofTokens ⟨0, 0, none⟩ formula (Token.scan formula)

end Piece

namespace Markup

/-- A rendered name (`render_identifier`). -/
def name (m : Markup) (cs : List Char) : List Char := m.pieces (Piece.ofName cs)

/-- A rendered formula (`render`). -/
def formula (m : Markup) (cs : List Char) : List Char := m.pieces (Piece.ofFormula cs)

end Markup
end Reckon
