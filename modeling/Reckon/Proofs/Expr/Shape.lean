import Reckon.Proofs.Grammar.Parse

/-!
# What the expressions of formulas look like

An expression can have operators without a meaning, names without a letter,
negative exponents, powers of anything and places where nothing is written. The
grammar derives none of these (`Proper`), and the names of an expression are the
identifiers of its tokens.

Results:

* `proper_of_parse`: what a formula stands for is proper.
* `names_of_parse`: its names are the identifiers of the formula.
* `identifiers_of_parse`: the list of the identifiers is that of the names.
-/

namespace Reckon

namespace Expr

/-- The names in an expression from left to right. -/
def names : Expr → List (List Char)
  | var name => [name]
  | binary _ left right => left.names ++ right.names
  | power base _ => base.names
  | group inner => inner.names
  | literal _ | hole => []

/-- An expression with nothing in it that no formula can say. -/
inductive Proper : Expr → Prop
  | literal (x : Binary64) : Proper (.literal x)
  | var {name : List Char} (ne_nil : name ≠ []) : Proper (.var name)
  | binary {op : Operator} {left right : Expr} (known : ∀ text, op ≠ .unknown text)
      (hleft : Proper left) (hright : Proper right) : Proper (.binary op left right)
  | power {base : Expr} {exponent : Int} (isBase : base.isBase = true)
      (nonneg : 0 ≤ exponent) (hbase : Proper base) : Proper (.power base exponent)
  | group {inner : Expr} (hinner : Proper inner) : Proper (.group inner)

end Expr

namespace Grammar

open Reckon.Expr (Proper)

/-! ## Derived expressions -/

/-- Of tokens of a scan only proper expressions are derived. -/
theorem proper_of_derives {L : Level} {ts : List Token} {e : Expr} (h : Derives L ts e)
    (hlex : ∀ t ∈ ts, t.Lexical) : e.Proper := by
  induction h with
  | number => exact .literal _
  | @name t kind => exact .var (hlex t (by simp)).ne_nil
  | group opens closes inner ih => exact .group (ih fun t ht => hlex t (by simp [ht]))
  | power base isBase caret whole ih =>
    exact .power isBase (Int.natCast_nonneg _) (ih fun t ht => hlex t (by simp [ht]))
  | factor base ih | unsigned base ih | operand base ih | term base ih => exact ih hlex
  | plus sign operand ih => exact ih fun t ht => hlex t (by simp [ht])
  | minusNumber => exact .literal _
  | minus sign operand notNumber ih =>
    exact .binary (by simp) (.literal _) (ih fun t ht => hlex t (by simp [ht]))
  | product left sign isFactor right ihl ihr =>
    exact .binary (ne_unknown_of_factor isFactor) (ihl fun t ht => hlex t (by simp [ht]))
      (ihr fun t ht => hlex t (by simp [ht]))
  | joined left joins right ihl ihr =>
    exact .binary (by simp) (ihl fun t ht => hlex t (by simp [ht]))
      (ihr fun t ht => hlex t (List.mem_append_right _ ht))
  | sum left sign isTerm right ihl ihr =>
    exact .binary (ne_unknown_of_term isTerm) (ihl fun t ht => hlex t (by simp [ht]))
      (ihr fun t ht => hlex t (by simp [ht]))

/-- The names are the identifiers of the tokens, in their order. -/
theorem names_of_derives {L : Level} {ts : List Token} {e : Expr} (h : Derives L ts e) :
    e.names = (ts.filter (·.kind == .identifier)).map Token.text := by
  induction h with
  | number kind | name kind => simp [Expr.names, kind]
  | group opens closes inner ih => simp [Expr.names, opens, closes, ih]
  | power base isBase caret whole ih => simp [Expr.names, caret, whole.1, ih]
  | factor base ih | unsigned base ih | operand base ih | term base ih => exact ih
  | plus sign operand ih => simp [sign.1, ih]
  | minusNumber sign operand ih | minus sign operand _ ih =>
    rw [List.filter_cons_of_neg (by simp [sign.1]), ← ih]
    rfl
  | product left sign _ right ihl ihr | sum left sign _ right ihl ihr =>
    simp [Expr.names, sign.1, ihl, ihr]
  | joined left joins right ihl ihr =>
    rw [Expr.names, ihl, ihr, List.filter_append, List.map_append]

/-! ## Expressions of formulas -/

/-- What a formula stands for is proper. -/
theorem proper_of_parse {formula : List Char} {e : Expr} (h : Expr.parse formula = .ok e) :
    e.Proper := by
  obtain ⟨ts, hts, -, derives⟩ := derives_of_parse h
  exact proper_of_derives derives (Token.lexical_of_check hts)

/-- The names of what a formula stands for are the identifiers of the formula. -/
theorem names_of_parse {formula : List Char} {e : Expr} (h : Expr.parse formula = .ok e) :
    e.names = ((Token.scan formula).filter (·.kind == .identifier)).map Token.text := by
  obtain ⟨ts, hts, -, derives⟩ := derives_of_parse h
  rw [Token.scan_of_check hts, names_of_derives derives]

/-- The list of the identifiers of a formula is that of the names in what it stands for, in their
order and without repetitions. -/
theorem identifiers_of_parse {formula : List Char} {e : Expr} (h : Expr.parse formula = .ok e) :
    Token.identifiers formula = e.names.eraseDups := by
  rw [Token.identifiers, Token.firstAppearances_eq_eraseDups, names_of_parse h]

/-- A base counts, and so does what is in a group. -/
theorem identifiers_of_parse_group :
    Expr.parse "b^2+(a_1-b)*a_1".toList = .ok
        (.binary .plus (.power (.var ['b']) 2)
          (.binary .times (.group (.binary .minus (.var ['a', '_', '1']) (.var ['b'])))
            (.var ['a', '_', '1']))) ∧
      Token.identifiers "b^2+(a_1-b)*a_1".toList =
        [['b'], ['a', '_', '1'], ['b'], ['a', '_', '1']].eraseDups := by
  have hcheck : Token.check "b^2+(a_1-b)*a_1".toList = .ok
      [⟨.identifier, ['b'], 0⟩, ⟨.caret, ['^'], 1⟩, ⟨.number, ['2'], 2⟩, ⟨.operator, ['+'], 3⟩,
        ⟨.openParen, ['('], 4⟩, ⟨.identifier, ['a', '_', '1'], 5⟩, ⟨.operator, ['-'], 8⟩,
        ⟨.identifier, ['b'], 9⟩, ⟨.closeParen, [')'], 10⟩, ⟨.operator, ['*'], 11⟩,
        ⟨.identifier, ['a', '_', '1'], 12⟩] := by
    decide +kernel
  have hparse : Expr.parse "b^2+(a_1-b)*a_1".toList = .ok
      (.binary .plus (.power (.var ['b']) 2)
        (.binary .times (.group (.binary .minus (.var ['a', '_', '1']) (.var ['b'])))
          (.var ['a', '_', '1']))) := by
    rw [parse_of_check hcheck]
    cbv
  exact ⟨hparse, identifiers_of_parse hparse⟩

end Grammar
end Reckon
