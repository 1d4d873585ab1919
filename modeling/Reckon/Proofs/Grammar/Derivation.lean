import Mathlib.Data.List.Chain
import Reckon.Expr.Parser

/-!
# The grammar of formulas

Which expression a list of tokens stands for, said without a parser. The rules
do not say how far a level reaches or which of them to try first; that the
expression is unique all the same is shown where the parser is compared with
them.

A further factor may follow a number without an operator only if it begins with
an identifier and nothing stands between the two (`Joins`).
-/

namespace Reckon

namespace Token

/-- The token of a binary operator. -/
def Denotes (t : Token) (op : Operator) : Prop := t.kind = .operator ∧ t.text = op.text

/-- A number of digits only. -/
def IsWhole (t : Token) : Prop :=
  t.kind = .number ∧ ∀ c ∈ t.text, Text.isAsciiDigit c = true

/-- An identifier that begins where a number, the last of the tokens before it, ends. -/
def Joins (before : List Token) (t : Token) : Prop :=
  ∃ n, before.getLast? = some n ∧ n.kind = .number ∧ t.kind = .identifier ∧ t.start = n.stop

theorem Joins.kind {before : List Token} {t : Token} (h : t.Joins before) :
    t.kind = .identifier :=
  h.choose_spec.2.2.1

end Token

namespace Grammar

/-- The levels of the grammar, from the tightest to the loosest. -/
inductive Level where
  | factor
  | power
  | unary
  | term
  | sum
deriving DecidableEq, Repr

/-- The tokens stand, as a phrase of the level, for the expression. -/
inductive Derives : Level → List Token → Expr → Prop
  | number {t : Token} (kind : t.kind = .number) :
      Derives .factor [t] (.literal (Decimal.ofNumeral t.text).toBinary64)
  | name {t : Token} (kind : t.kind = .identifier) : Derives .factor [t] (.var t.text)
  | group {a z : Token} {ts : List Token} {e : Expr} (opens : a.kind = .openParen)
      (closes : z.kind = .closeParen) (inner : Derives .sum ts e) :
      Derives .factor (a :: (ts ++ [z])) (.group e)
  | factor {ts : List Token} {e : Expr} (base : Derives .factor ts e) : Derives .power ts e
  /-- Only a name or a group has an exponent, and a power has no further one. -/
  | power {ts : List Token} {e : Expr} {c n : Token} (base : Derives .factor ts e)
      (isBase : e.isBase = true) (caret : c.kind = .caret) (whole : n.IsWhole) :
      Derives .power (ts ++ [c, n]) (.power e (Decimal.ofDigits n.text))
  | unsigned {ts : List Token} {e : Expr} (operand : Derives .power ts e) : Derives .unary ts e
  | plus {s : Token} {ts : List Token} {e : Expr} (sign : s.Denotes .plus)
      (operand : Derives .unary ts e) : Derives .unary (s :: ts) e
  | minusNumber {s : Token} {ts : List Token} {x : Binary64} (sign : s.Denotes .minus)
      (operand : Derives .unary ts (.literal x)) : Derives .unary (s :: ts) (.literal x.neg)
  | minus {s : Token} {ts : List Token} {e : Expr} (sign : s.Denotes .minus)
      (operand : Derives .unary ts e) (notNumber : ∀ x, e ≠ .literal x) :
      Derives .unary (s :: ts) (.binary .minus (.literal .zero) e)
  | operand {ts : List Token} {e : Expr} (first : Derives .unary ts e) : Derives .term ts e
  | product {ts us : List Token} {l r : Expr} {s : Token} {op : Operator}
      (left : Derives .term ts l) (sign : s.Denotes op) (isFactor : op = .times ∨ op = .dividedBy)
      (right : Derives .unary us r) : Derives .term (ts ++ s :: us) (.binary op l r)
  | joined {ts us : List Token} {l r : Expr} {t : Token} (left : Derives .term ts l)
      (joins : t.Joins ts) (right : Derives .power (t :: us) r) :
      Derives .term (ts ++ t :: us) (.binary .times l r)
  | term {ts : List Token} {e : Expr} (first : Derives .term ts e) : Derives .sum ts e
  | sum {ts us : List Token} {l r : Expr} {s : Token} {op : Operator}
      (left : Derives .sum ts l) (sign : s.Denotes op) (isTerm : op = .plus ∨ op = .minus)
      (right : Derives .term us r) : Derives .sum (ts ++ s :: us) (.binary op l r)

/-- No phrase is empty. -/
theorem Derives.ne_nil {L : Level} {ts : List Token} {e : Expr} (h : Derives L ts e) : ts ≠ [] := by
  induction h <;> simp_all

/-- No phrase ends in a caret. -/
theorem Derives.getLast?_ne_caret {L : Level} {ts : List Token} {e : Expr} (h : Derives L ts e) :
    ts.getLast?.map Token.kind ≠ some .caret := by
  induction h with
  | number kind => simp [kind]
  | name kind => simp [kind]
  | group opens closes inner => simp [closes, List.getLast?_cons]
  | power base isBase caret whole => simp [whole.1]
  | factor | unsigned | operand | term => assumption
  | plus _ operand ih | minusNumber _ operand ih | minus _ operand _ ih =>
    rwa [List.getLast?_cons_of_ne_nil operand.ne_nil]
  | product _ _ _ right _ ih | sum _ _ _ right _ ih =>
    rwa [List.getLast?_append_cons, List.getLast?_cons_of_ne_nil right.ne_nil]
  | joined _ _ _ _ ih => rwa [List.getLast?_append_cons]

/-! ## Exponents and their length -/

/-- Every exponent has at most so many digits. -/
def ExponentsWithin (limit : Nat) (ts : List Token) : Prop :=
  ts.IsChain fun c n => c.kind = .caret → n.IsWhole → n.text.length ≤ limit

/-- A closing parenthesis, wherever it is. -/
def closing : Token := ⟨.closeParen, [')'], 0⟩

/-- A token that is none of those at the end stands before them. -/
theorem split_of_not_mem {ts ws us tail : List Token} {t : Token} (h : ts ++ t :: ws = us ++ tail)
    (ht : t ∉ tail) : ∃ vs, us = ts ++ t :: vs ∧ ws = vs ++ tail := by
  rcases List.append_eq_append_iff.1 h with ⟨vs, hus, htail⟩ | ⟨vs, hts, htail⟩
  · cases vs with
    | nil =>
      rw [List.nil_append] at htail
      exact absurd (htail ▸ List.mem_cons_self) ht
    | cons v vs =>
      obtain ⟨rfl, hws⟩ := List.cons.inj htail
      exact ⟨vs, hus, hws⟩
  · rw [htail] at ht
    simp at ht

/-- The tokens begin as a phrase that comes to an exponent of too many digits, the first one. The
phrase may end there, up to the parentheses that are still open; what follows in the tokens does
not matter, unless it is a further caret. -/
inductive Overlong (limit : Nat) (L : Level) : List Token → Prop
  | intro {us vs : List Token} {c n : Token} {k : Nat} {e : Expr} (caret : c.kind = .caret)
      (whole : n.IsWhole) (tooLong : limit < n.text.length)
      (within : ExponentsWithin limit us) (noCaret : vs.head?.map Token.kind ≠ some .caret)
      (derives : Derives L (us ++ c :: n :: List.replicate k closing) e) :
      Overlong limit L (us ++ c :: n :: vs)

theorem exponentsWithin_singleton (limit : Nat) (t : Token) : ExponentsWithin limit [t] :=
  List.isChain_singleton t

/-- Phrases are put together where the first does not end in a caret. -/
theorem ExponentsWithin.append {limit : Nat} {us vs : List Token} (hu : ExponentsWithin limit us)
    (hv : ExponentsWithin limit vs) (h : us.getLast?.map Token.kind ≠ some .caret) :
    ExponentsWithin limit (us ++ vs) := by
  refine List.isChain_append.2 ⟨hu, hv, fun c hc n _ caret => ?_⟩
  rw [Option.mem_def.1 hc] at h
  exact absurd (congrArg some caret) h

theorem ExponentsWithin.left {limit : Nat} {us vs : List Token}
    (h : ExponentsWithin limit (us ++ vs)) : ExponentsWithin limit us :=
  (List.isChain_append.1 h).1

theorem ExponentsWithin.right {limit : Nat} {us vs : List Token}
    (h : ExponentsWithin limit (us ++ vs)) : ExponentsWithin limit vs :=
  (List.isChain_append.1 h).2.1

theorem ExponentsWithin.tail {limit : Nat} {t : Token} {ts : List Token}
    (h : ExponentsWithin limit (t :: ts)) : ExponentsWithin limit ts :=
  List.IsChain.tail h

/-- Tokens that can stand before others: what is derived from a beginning of the others can be put
behind them, and no fewer parentheses are closed after it then. -/
structure Precedes (limit : Nat) (L M : Level) (us ts : List Token) : Prop where
  within : ExponentsWithin limit us
  last : us.getLast?.map Token.kind ≠ some .caret
  derives : ∀ k vs e, vs.head? = ts.head? → Derives L (vs ++ List.replicate k closing) e →
    ∃ m r, k ≤ m ∧ Derives M (us ++ (vs ++ List.replicate m closing)) r

/-- Nothing stands before what is a phrase of another level. -/
theorem Precedes.weaken {limit : Nat} {L M : Level} {ts : List Token}
    (hD : ∀ us e, Derives L us e → Derives M us e) : Precedes limit L M [] ts :=
  ⟨List.isChain_nil, by simp, fun k _ e _ h => ⟨k, e, Nat.le_refl k, hD _ e h⟩⟩

/-- An exponent that is too long stays so behind other tokens. -/
theorem Overlong.prepend {limit : Nat} {L M : Level} {us ts : List Token}
    (h : Overlong limit L ts) (hp : Precedes limit L M us ts) : Overlong limit M (us ++ ts) := by
  obtain ⟨caret, whole, tooLong, within, noCaret, derives⟩ := h
  rename_i before after c n k e
  obtain ⟨m, r, -, hr⟩ :=
    hp.derives k (before ++ [c, n]) e (by cases before <;> rfl) (by simpa using derives)
  rw [← List.append_assoc]
  exact ⟨caret, whole, tooLong, hp.within.append within hp.last, noCaret, by simpa using hr⟩

end Grammar
end Reckon
