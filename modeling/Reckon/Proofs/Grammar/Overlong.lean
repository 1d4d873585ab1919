import Reckon.Proofs.Grammar.Completeness

/-!
# Exponents with too many digits

Where the tokens begin as a phrase and come to an exponent of too many digits,
every level of the grammar breaks down there, whatever the tokens after it are.
The proof follows the derivation of the phrase: an operator of the phrase stands
before the exponent, because after it only parentheses are closed, so what is
left of the operator is read in full and what is right of it breaks down.

Results:

* `read_of_overlong`: every level breaks down at such an exponent.
* `ofSymbols_of_overlong`: so does reading a whole formula.
-/

namespace Reckon
namespace Grammar

open Reckon.Expr (Conventions)
open Reckon.Symbol (ofTokensAfter)

/-! ## Where the exponent is -/

variable {cr n : Token} {k : Nat}

/-- Whatever comes after the caret is the exponent or closes a parenthesis. -/
theorem kind_of_mem_tail (hc : cr.kind = .caret) (hn : n.kind = .number) {t : Token}
    (h : t ∈ cr :: n :: List.replicate k closing) :
    t.kind = .caret ∨ t.kind = .number ∨ t.kind = .closeParen := by
  rcases List.mem_cons.1 h with rfl | h
  · exact .inl hc
  rcases List.mem_cons.1 h with rfl | h
  · exact .inr (.inl hn)
  rw [List.eq_of_mem_replicate h]
  exact .inr (.inr rfl)

/-- A token of another kind stands before the caret. -/
theorem split_before {ts ws us : List Token} {t : Token} (hc : cr.kind = .caret)
    (hn : n.kind = .number) (ht : t.kind = .operator ∨ t.kind = .identifier)
    (h : ts ++ t :: ws = us ++ cr :: n :: List.replicate k closing) :
    ∃ vs, us = ts ++ t :: vs ∧ ws = vs ++ cr :: n :: List.replicate k closing := by
  refine split_of_not_mem h fun hmem => ?_
  rcases kind_of_mem_tail hc hn hmem with hk | hk | hk
  all_goals
    rw [hk] at ht
    simp at ht

/-- The first token of a phrase is not the caret, if it is no caret. -/
theorem split_head {ws us : List Token} {t : Token} (hc : cr.kind = .caret) (ht : t.kind ≠ .caret)
    (h : t :: ws = us ++ cr :: n :: List.replicate k closing) :
    ∃ vs, us = t :: vs ∧ ws = vs ++ cr :: n :: List.replicate k closing := by
  cases us with
  | nil =>
    obtain ⟨rfl, -⟩ := List.cons.inj h
    exact absurd hc ht
  | cons u us =>
    obtain ⟨rfl, hws⟩ := List.cons.inj h
    exact ⟨us, rfl, hws⟩

theorem tail_succ (us : List Token) :
    us ++ cr :: n :: List.replicate (k + 1) closing =
      us ++ cr :: n :: List.replicate k closing ++ [closing] := by
  simp [List.replicate_succ']

/-- A closing parenthesis at the end is one of those after the exponent. -/
theorem split_close {ts us : List Token} {z : Token} (hn : n.kind = .number)
    (hz : z.kind = .closeParen) (h : ts ++ [z] = us ++ cr :: n :: List.replicate k closing) :
    ∃ j, ts = us ++ cr :: n :: List.replicate j closing := by
  cases k with
  | zero =>
    have hlast := congrArg List.getLast? h
    simp at hlast
    rw [hlast, hn] at hz
    cases hz
  | succ k =>
    rw [tail_succ] at h
    exact ⟨k, (List.append_inj' h rfl).1⟩

/-- A number at the end is the exponent. -/
theorem split_exponent {ts us : List Token} {d m : Token} (hm : m.kind = .number)
    (h : ts ++ [d, m] = us ++ cr :: n :: List.replicate k closing) : ts = us := by
  cases k with
  | zero => exact (List.append_inj' h rfl).1
  | succ k =>
    rw [tail_succ, List.append_cons] at h
    obtain ⟨-, hlast⟩ := List.append_inj' h rfl
    rw [List.singleton_inj.1 hlast] at hm
    cases hm

/-! ## Breaking down -/

variable {c : Conventions}

/-- A phrase that comes to an exponent of too many digits breaks down there, whatever tokens there
are after the exponent. -/
theorem read_of_derives_overlong (hc : c.minus = Expr.negated) (caret : cr.kind = .caret)
    (whole : n.IsWhole) (tooLong : c.maxDigits < n.text.length) {vs : List Token}
    (noCaret : vs.head?.map Token.kind ≠ some .caret) {L : Level} {ws : List Token} {e : Expr}
    (h : Derives L ws e) {us : List Token}
    (hws : ws = us ++ cr :: n :: List.replicate k closing)
    (within : ExponentsWithin c.maxDigits us) (p : Option Token) :
    read c L (ofTokensAfter p (us ++ cr :: n :: vs)) = .error (.breakdown .exponentTooLong) := by
  -- the exponent is in the part of the phrase that is read last, which has it at its end too
  induction h generalizing us k p with
  | number | name =>
    have := congrArg List.length hws
    simp at this
    omega
  | @group a z ts e opens closes inner ih =>
    obtain ⟨rest, rfl, hrest⟩ := split_head caret (by simp [opens]) hws
    obtain ⟨j, rfl⟩ := split_close whole.1 closes hrest
    rw [List.cons_append, ofTokensAfter_cons, read_factor_cons, opens]
    dsimp only
    rw [ih rfl within.tail]
    rfl
  | factor base ih =>
    rw [read_power, ih hws within]
    rfl
  | @power ts e d m base isBase _ wholeLast _ =>
    obtain rfl := split_exponent wholeLast.1 hws
    rw [read_power, read_of_derives hc base within p (cr :: n :: vs) trivial]
    simp only [more, ok_bind, ofTokensAfter_cons]
    rw [exponent_of_caret c isBase caret (isExponent_of_isWhole whole)
      (by rwa [head?_kind_ofTokensAfter])]
    rw [Expr.exponentOf, if_pos tooLong]
    rfl
  | @unsigned ts e operand ih =>
    rw [read_unary_of_head_ne_sign, ih hws within]
    intro t ht
    refine operand.head_ne_operator (.inr rfl) ?_
    rw [hws]
    cases us <;> simpa using ht
  | @plus s ts e sign operand ih =>
    obtain ⟨rest, rfl, hrest⟩ := split_head caret (by simp [sign.1]) hws
    exact read_signed_of_error (.inl sign) (ih hrest within.tail _)
  | @minusNumber s ts x sign operand ih | @minus s ts x sign operand _ ih =>
    obtain ⟨rest, rfl, hrest⟩ := split_head caret (by simp [sign.1]) hws
    exact read_signed_of_error (.inr sign) (ih hrest within.tail _)
  | operand first ih =>
    rw [read_term, ih hws within]
    rfl
  | @product ts _ l r s op left sign isFactor right _ ih =>
    obtain ⟨rest, rfl, hrest⟩ := split_before caret whole.1 (.inl sign.1) hws
    rw [List.append_assoc, List.cons_append]
    exact read_product_of_error hc left within.left sign isFactor (ih hrest within.right.tail _)
  | @joined ts _ l r t left joins right _ ih =>
    obtain ⟨rest, rfl, hrest⟩ := split_before caret whole.1 (.inr joins.kind) hws
    rw [List.append_assoc, List.cons_append]
    exact read_joined_of_error hc left within.left joins
      (ih (congrArg (t :: ·) hrest) within.right _)
  | term first ih =>
    rw [read_sum, ih hws within]
    rfl
  | @sum ts _ l r s op left sign isTerm right _ ih =>
    obtain ⟨rest, rfl, hrest⟩ := split_before caret whole.1 (.inl sign.1) hws
    rw [List.append_assoc, List.cons_append]
    exact read_sum_of_error hc left within.left sign isTerm (ih hrest within.right.tail _)

/-- Every level breaks down at an exponent of too many digits. -/
theorem read_of_overlong (hc : c.minus = Expr.negated) {L : Level} {ts : List Token}
    (h : Overlong c.maxDigits L ts) (p : Option Token) :
    read c L (ofTokensAfter p ts) = .error (.breakdown .exponentTooLong) := by
  obtain ⟨caret, whole, tooLong, within, noCaret, derives⟩ := h
  exact read_of_derives_overlong hc caret whole tooLong noCaret derives rfl within p

theorem ofSymbols_of_overlong (hc : c.minus = Expr.negated) {ts : List Token}
    (h : Overlong c.maxDigits .sum ts) :
    Expr.ofSymbols c (Symbol.ofTokens ts) = .error (.breakdown .exponentTooLong) := by
  rw [ofSymbols_eq, Symbol.ofTokens, read_of_overlong hc h none]
  rfl

end Grammar
end Reckon
