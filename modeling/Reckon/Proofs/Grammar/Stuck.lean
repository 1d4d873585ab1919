import Reckon.Proofs.Grammar.Derivation
import Reckon.Proofs.Token.Brackets

/-!
# Groups that are not closed

A phrase has matching brackets. Where tokens begin as a phrase but a group that
is open cannot go on, because nothing follows or because what follows begins
another operand, they are stuck. What a phrase can stand behind, stuck tokens can
stand behind too.

Results:

* `Derives.balanced`: the brackets of a phrase match.
* `Stuck.prepend`: other tokens before those that are stuck.
-/

namespace Reckon

/-- A token that comes after an operand and does not go on with it: no operator, no caret, no
closing parenthesis, and no identifier that is joined to a number. -/
structure Token.Adjacent (before : List Token) (t : Token) : Prop where
  ne_caret : t.kind ≠ .caret
  ne_close : t.kind ≠ .closeParen
  not_plus : ¬t.Denotes .plus
  not_minus : ¬t.Denotes .minus
  not_times : ¬t.Denotes .times
  not_dividedBy : ¬t.Denotes .dividedBy
  not_joins : ¬t.Joins before

/-- A token that an operand begins with, other than a sign. -/
def Token.BeginsOperand (t : Token) : Prop :=
  t.kind = .number ∨ t.kind = .identifier ∨ t.kind = .openParen

/-- Of the tokens of formulas, those that begin an operand are what does not go on with one. -/
theorem Token.adjacent_iff {before : List Token} {t : Token} (hother : t.kind ≠ .other)
    (hop : t.kind = .operator → t.text ∈ [['+'], ['-'], ['*'], ['/']]) :
    t.Adjacent before ↔ t.BeginsOperand ∧ ¬t.Joins before := by
  constructor
  · rintro ⟨caret, close, plus, minus, times, dividedBy, joins⟩
    refine ⟨?_, joins⟩
    simp only [Denotes, Operator.text] at plus minus times dividedBy
    cases hk : t.kind <;> simp_all [BeginsOperand]
  · rintro ⟨hbegins, joins⟩
    have hdenotes : ∀ op, ¬t.Denotes op := by
      rintro op ⟨hk, -⟩
      rcases hbegins with h | h | h <;> simp [h] at hk
    refine ⟨?_, ?_, hdenotes _, hdenotes _, hdenotes _, hdenotes _, joins⟩ <;>
      rcases hbegins with h | h | h <;> simp [h]

namespace Grammar

variable {limit : Nat} {L M : Level} {us vs ts : List Token} {e : Expr} {t : Token}

/-- The brackets of a phrase match. -/
theorem Derives.balanced (h : Derives L ts e) : Token.Balanced ts := by
  induction h with
  | number kind | name kind => exact Token.balanced_singleton (by simp [kind]) (by simp [kind])
  | group opens closes _ ih => exact .group opens closes ih .nil
  | factor _ ih | unsigned _ ih | operand _ ih | term _ ih => exact ih
  | power _ _ caret whole ih =>
    exact ih.append (.other (by simp [caret]) (by simp [caret])
      (Token.balanced_singleton (by simp [whole.1]) (by simp [whole.1])))
  | plus sign _ ih | minusNumber sign _ ih | minus sign _ _ ih =>
    exact .other (by simp [sign.1]) (by simp [sign.1]) ih
  | product _ sign _ _ ihl ihr | sum _ sign _ _ ihl ihr =>
    exact ihl.append (.other (by simp [sign.1]) (by simp [sign.1]) ihr)
  | joined _ _ _ ihl ihr => exact ihl.append ihr

/-- A phrase consists of more than the parentheses at its end. -/
theorem Derives.ne_nil_of_closing {k : Nat} (h : Derives L (us ++ List.replicate k closing) e) :
    us ≠ [] := by
  rintro rfl
  cases k with
  | zero => exact h.ne_nil rfl
  | succ k => exact h.balanced.head_ne_close rfl

/-! ## Tokens that are stuck -/

/-- The tokens begin as a phrase, up to the parentheses that are still to be closed, of which there
is one at least. After this beginning there is nothing or a token that does not go on with it. -/
inductive Stuck (limit : Nat) (L : Level) : List Token → Prop
  | intro {us vs : List Token} {k : Nat} {e : Expr} (within : ExponentsWithin limit us)
      (derives : Derives L (us ++ List.replicate (k + 1) closing) e)
      (next : ∀ t ∈ vs.head?, t.Adjacent us) : Stuck limit L (us ++ vs)

/-- Only the last token matters for what is joined to it. -/
theorem joins_append (hvs : vs ≠ []) : t.Joins (us ++ vs) ↔ t.Joins vs := by
  simp only [Token.Joins, List.getLast?_append_of_ne_nil us hvs]

theorem adjacent_append (hvs : vs ≠ []) : t.Adjacent (us ++ vs) ↔ t.Adjacent vs := by
  constructor
  · rintro ⟨caret, close, plus, minus, times, dividedBy, joins⟩
    exact ⟨caret, close, plus, minus, times, dividedBy, (joins_append hvs).not.1 joins⟩
  · rintro ⟨caret, close, plus, minus, times, dividedBy, joins⟩
    exact ⟨caret, close, plus, minus, times, dividedBy, (joins_append hvs).not.2 joins⟩

theorem adjacent_cons {a : Token} (hvs : vs ≠ []) : t.Adjacent (a :: vs) ↔ t.Adjacent vs := by
  rw [← List.singleton_append]
  exact adjacent_append hvs

/-- What comes after a last operand comes after it as it would without the tokens before. -/
theorem adjacent_append_cons {s : Token} (hvs : vs ≠ []) :
    t.Adjacent (us ++ s :: vs) ↔ t.Adjacent vs :=
  (adjacent_append (List.cons_ne_nil s vs)).trans (adjacent_cons hvs)

/-- Tokens that are stuck stay so behind other tokens. -/
theorem Stuck.prepend (h : Stuck limit L ts) (hp : Precedes limit L M us ts) :
    Stuck limit M (us ++ ts) := by
  cases h with
  | @intro before after k e within derives next =>
    have hne : before ≠ [] := derives.ne_nil_of_closing
    obtain ⟨m, r, hm, hr⟩ := hp.derives (k + 1) before e
      (List.head?_append_of_ne_nil before hne).symm derives
    obtain ⟨m, rfl⟩ := Nat.exists_eq_add_of_le' hm
    rw [← List.append_assoc] at hr ⊢
    exact .intro (hp.within.append within hp.last) hr fun t ht =>
      (adjacent_append hne).2 (next t ht)

end Grammar
end Reckon
