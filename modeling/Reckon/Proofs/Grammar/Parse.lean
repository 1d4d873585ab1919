import Mathlib.Data.Set.Subsingleton
import Reckon.Proofs.Grammar.Overlong
import Reckon.Proofs.Grammar.Soundness

/-!
# The parser and the grammar

A formula stands for an expression exactly if its tokens are a sum of the
grammar, and then for the one expression that they derive.

Results:

* `parse_eq_ok_iff_derives`: parsing accepts the grammar and nothing else.
* `parse_cases`: what parsing a formula can come to.
* `parse_eq_breakdown_iff`: it breaks down at exponents of too many digits only.
-/

namespace Reckon
namespace Grammar

theorem parse_of_check {formula : List Char} {ts : List Token}
    (h : Token.check formula = .ok ts) :
    Expr.parse formula = Expr.ofSymbols .standard (Symbol.ofTokens ts) := by
  rw [Expr.parse, h]
  rfl

theorem parse_of_check_error {formula : List Char} {f : Fault}
    (h : Token.check formula = .error f) : Expr.parse formula = .error (.fault f) := by
  rw [Expr.parse, h]
  rfl

/-- The tokens of a formula come to an exponent of too many digits before anything is wrong with
them. -/
def OverlongFormula (formula : List Char) : Prop :=
  ∃ ts, Token.check formula = .ok ts ∧ Overlong Entry.maxDigits .sum ts

theorem parse_of_overlong {formula : List Char} (h : OverlongFormula formula) :
    Expr.parse formula = .error (.breakdown .exponentTooLong) := by
  obtain ⟨ts, hts, hover⟩ := h
  rw [parse_of_check hts]
  exact ofSymbols_of_overlong rfl hover

/-- What parsing a formula can come to. -/
theorem parse_cases (formula : List Char) :
    (∃ ts e, Token.check formula = .ok ts ∧ Expr.parse formula = .ok e ∧ Derives .sum ts e ∧
      ExponentsWithin Entry.maxDigits ts) ∨
    (Expr.parse formula = .error (.breakdown .exponentTooLong) ∧ OverlongFormula formula) ∨
    ∃ f : Fault, Expr.parse formula = .error (.fault f) ∧ f.IsSyntax := by
  cases hts : Token.check formula with
  | error f =>
    exact .inr (.inr ⟨f, parse_of_check_error hts, Token.syntaxFault_of_check hts⟩)
  | ok ts =>
    rw [parse_of_check hts]
    rcases ofSymbols_cases (c := .standard) rfl (Token.lexical_of_check hts) with
      ⟨e, hok, derives, within⟩ | ⟨herror, hover⟩ | ⟨f, herror, hf⟩
    · exact .inl ⟨ts, e, rfl, hok, derives, within⟩
    · exact .inr (.inl ⟨herror, ts, hts, hover⟩)
    · exact .inr (.inr ⟨f, herror, hf⟩)

/-- An expression that a formula stands for is derived from its tokens. -/
theorem derives_of_parse {formula : List Char} {e : Expr} (h : Expr.parse formula = .ok e) :
    ∃ ts, Token.check formula = .ok ts ∧ ExponentsWithin Entry.maxDigits ts ∧
      Derives .sum ts e := by
  rcases parse_cases formula with ⟨ts, d, hts, hd, derives, within⟩ | ⟨herror, _⟩ | ⟨f, herror, _⟩
  · rw [hd] at h
    cases h
    exact ⟨ts, hts, within, derives⟩
  · rw [herror] at h
    cases h
  · rw [herror] at h
    cases h

/-- Parsing breaks down at exponents of too many digits only. -/
theorem parse_eq_breakdown_iff {formula : List Char} {d : Breakdown} :
    Expr.parse formula = .error (.breakdown d) ↔ d = .exponentTooLong ∧ OverlongFormula formula := by
  constructor
  · intro h
    rcases parse_cases formula with ⟨_, _, _, hok, _⟩ | ⟨herror, hover⟩ | ⟨f, herror, _⟩
    · rw [hok] at h
      cases h
    · rw [herror] at h
      cases h
      exact ⟨rfl, hover⟩
    · rw [herror] at h
      cases h
  · rintro ⟨rfl, hover⟩
    exact parse_of_overlong hover

/-- Parsing accepts the formulas whose tokens are a sum of the grammar, with exponents that a whole
number can be read from, and it gives the expression that they derive. No tokens derive two. -/
theorem parse_eq_ok_iff_derives :
    (∀ (formula : List Char) (e : Expr), Expr.parse formula = .ok e ↔
      ∃ ts, Token.check formula = .ok ts ∧ ExponentsWithin Entry.maxDigits ts ∧
        Derives .sum ts e) ∧
    ∀ ts : List Token, {e | Derives .sum ts e}.Subsingleton := by
  constructor
  · intro formula e
    constructor
    · exact derives_of_parse
    · rintro ⟨ts, hts, within, derives⟩
      rw [parse_of_check hts]
      exact ofSymbols_of_derives rfl derives within
  · intro ts d hd e he
    exact Derives.unique hd he

example : Expr.parse "a-b-c".toList = .ok (.binary .minus (.binary .minus (.var ['a'])
    (.var ['b'])) (.var ['c'])) := by
  cbv

end Grammar
end Reckon
