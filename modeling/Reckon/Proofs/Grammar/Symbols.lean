import Reckon.Proofs.Grammar.Derivation

/-!
# The symbols of tokens

The parser asks its questions of symbols, the grammar of tokens. Here each
question about the symbol of a token is answered by the token, and by the tokens
before it where the question is about its place.
-/

namespace Reckon
namespace Grammar

open Reckon.Symbol

@[simp] theorem ofTokensAfter_nil (p : Option Token) : ofTokensAfter p [] = [] := rfl

@[simp] theorem ofTokensAfter_cons (p : Option Token) (t : Token) (ts : List Token) :
    ofTokensAfter p (t :: ts) = ⟨t.kind, t.text, isJoined p t⟩ :: ofTokensAfter (some t) ts := rfl

@[simp] theorem ofTokensAfter_eq_nil {p : Option Token} {ts : List Token} :
    ofTokensAfter p ts = [] ↔ ts = [] := by
  cases ts <;> simp

@[simp] theorem length_ofTokensAfter (p : Option Token) (ts : List Token) :
    (ofTokensAfter p ts).length = ts.length := by
  induction ts generalizing p with
  | nil => rfl
  | cons t ts ih => simp [ih]

theorem ofTokensAfter_eq_cons {p : Option Token} {ts : List Token} {s : Symbol}
    {ss : List Symbol} (h : s :: ss = ofTokensAfter p ts) :
    ∃ t us, ts = t :: us ∧ s = ⟨t.kind, t.text, isJoined p t⟩ ∧ ss = ofTokensAfter (some t) us := by
  cases ts with
  | nil => simp at h
  | cons t us =>
    obtain ⟨rfl, rfl⟩ := List.cons.inj h
    exact ⟨t, us, rfl, rfl, rfl⟩

/-- The kind of the first symbol is that of the first token. -/
theorem head?_kind_ofTokensAfter (p : Option Token) (ts : List Token) :
    (ofTokensAfter p ts).head?.map Symbol.kind = ts.head?.map Token.kind := by
  cases ts <;> simp

variable {t : Token} {j : Bool}

/-! ## Operators -/

theorem isSign_iff : (Symbol.mk t.kind t.text j).isSign = true ↔
    t.Denotes .plus ∨ t.Denotes .minus := by
  simp only [isSign, Bool.and_eq_true, Bool.or_eq_true, beq_iff_eq, Token.Denotes, Operator.text]
  tauto

theorem isFactorOperator_iff : (Symbol.mk t.kind t.text j).isFactorOperator = true ↔
    t.Denotes .times ∨ t.Denotes .dividedBy := by
  simp only [isFactorOperator, Bool.and_eq_true, Bool.or_eq_true, beq_iff_eq, Token.Denotes,
    Operator.text]
  tauto

/-- The operator that a token denotes is the one its text gives. -/
theorem ofText_text {op : Operator} (h : ∀ cs, op ≠ .unknown cs) : .ofText op.text = op := by
  cases op with
  | unknown cs => exact absurd rfl (h cs)
  | _ => rfl

theorem ne_unknown_of_factor {op : Operator} (h : op = .times ∨ op = .dividedBy)
    (cs : List Char) : op ≠ .unknown cs := by
  rcases h with rfl | rfl <;> simp

theorem ne_unknown_of_term {op : Operator} (h : op = .plus ∨ op = .minus) (cs : List Char) :
    op ≠ .unknown cs := by
  rcases h with rfl | rfl <;> simp

/-! ## Identifiers after numbers -/

theorem isJoined_iff {us : List Token} : isJoined us.getLast? t = true ↔ t.Joins us := by
  cases h : us.getLast? <;>
    simp [isJoined, Token.Joins, Token.touches, h, Option.any, and_assoc]

/-! ## Exponents -/

theorem isExponent_of_isWhole (h : t.IsWhole) : (Symbol.mk t.kind t.text j).isExponent = true := by
  simp only [isExponent, Bool.and_eq_true, beq_iff_eq, List.all_eq_true, bne_iff_ne]
  refine ⟨h.1, fun c hc hdot => ?_⟩
  have := h.2 c hc
  subst hdot
  exact absurd this (by decide)

end Grammar
end Reckon
