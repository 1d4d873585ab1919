import Reckon.Proofs.Grammar.Derivation
import Reckon.Proofs.Grammar.Symbols

/-!
# Phrases as they are written

An expression does not tell where its parts stand in the formula. A phrase does:
it is an expression with the tokens that spell it. So the powers of an expression
can be found among the tokens, each with its base, its caret and its exponent.

Results:

* `Phrase.exists_spells`: what is derived has a phrase that spells it.
* `Phrase.value_powers`: the powers of a phrase have the exponents of its
  expression, in the same order.
* `Phrase.isInfix_of_mem_powers`: the tokens of a power follow one another.
-/

namespace Reckon

namespace Expr

/-- The exponents in an expression from left to right, those in a base before its own. -/
def exponents : Expr → List Int
  | binary _ left right => left.exponents ++ right.exponents
  | power base exponent => base.exponents ++ [exponent]
  | group inner => inner.exponents
  | literal _ | var _ | hole => []

@[simp] theorem exponents_negated (e : Expr) : e.negated.exponents = e.exponents := by
  cases e <;> rfl

theorem not_isBase_negated (e : Expr) : e.negated.isBase = false := by
  cases e <;> rfl

theorem negated_of_ne_literal {e : Expr} (h : ∀ x, e ≠ literal x) :
    e.negated = binary .minus (literal .zero) e := by
  cases e with
  | literal x => exact absurd rfl (h x)
  | _ => rfl

end Expr

namespace Grammar

/-- An expression with the tokens it is written in. -/
inductive Phrase where
  | number (t : Token)
  | name (t : Token)
  | group (opening : Token) (inner : Phrase) (closing : Token)
  | power (base : Phrase) (caret exponent : Token)
  | signed (sign : Token) (operand : Phrase)
  | binary (left : Phrase) (operator : Token) (right : Phrase)
  /-- A product without an operator. -/
  | joined (left right : Phrase)
deriving DecidableEq, Repr

/-- A power in a phrase. -/
structure Phrase.Power where
  base : Phrase
  caret : Token
  exponent : Token
deriving DecidableEq, Repr

namespace Phrase

/-- The tokens of a phrase. -/
def tokens : Phrase → List Token
  | number t | name t => [t]
  | group opening inner closing => opening :: (inner.tokens ++ [closing])
  | power base caret exponent => base.tokens ++ [caret, exponent]
  | signed sign operand => sign :: operand.tokens
  | binary left operator right => left.tokens ++ operator :: right.tokens
  | joined left right => left.tokens ++ right.tokens

/-- The expression of a phrase. -/
def expr : Phrase → Expr
  | number t => .literal (Decimal.ofNumeral t.text).toBinary64
  | name t => .var t.text
  | group _ inner _ => .group inner.expr
  | power base _ exponent => .power base.expr (Decimal.ofDigits exponent.text)
  | signed sign operand => if sign.text = ['-'] then operand.expr.negated else operand.expr
  | binary left operator right => .binary (.ofText operator.text) left.expr right.expr
  | joined left right => .binary .times left.expr right.expr

/-- The powers in a phrase from left to right, those in a base before its own. -/
def powers : Phrase → List Power
  | number _ | name _ => []
  | group _ inner _ => inner.powers
  | power base caret exponent => base.powers ++ [⟨base, caret, exponent⟩]
  | signed _ operand => operand.powers
  | binary left _ right | joined left right => left.powers ++ right.powers

/-- Every token has a kind that fits its place, and a name or a group is the base of a power. -/
inductive WellFormed : Phrase → Prop
  | number {t : Token} (kind : t.kind = .number) : WellFormed (.number t)
  | name {t : Token} (kind : t.kind = .identifier) : WellFormed (.name t)
  | group {a z : Token} {p : Phrase} (opens : a.kind = .openParen) (closes : z.kind = .closeParen)
      (inner : WellFormed p) : WellFormed (.group a p z)
  | power {p : Phrase} {c n : Token} (base : WellFormed p) (isBase : p.expr.isBase = true)
      (caret : c.kind = .caret) (whole : n.IsWhole) : WellFormed (.power p c n)
  | signed {s : Token} {p : Phrase} (sign : s.kind = .operator) (operand : WellFormed p) :
      WellFormed (.signed s p)
  | binary {p q : Phrase} {s : Token} (left : WellFormed p) (sign : s.kind = .operator)
      (right : WellFormed q) : WellFormed (.binary p s q)
  | joined {p q : Phrase} (left : WellFormed p) (right : WellFormed q) : WellFormed (.joined p q)

/-- The phrase is one of these tokens that stands for the expression. -/
structure Spells (p : Phrase) (ts : List Token) (e : Expr) : Prop where
  wellFormed : p.WellFormed
  tokens_eq : p.tokens = ts
  expr_eq : p.expr = e

namespace Power

/-- The tokens of a power. -/
def tokens (q : Power) : List Token := q.base.tokens ++ [q.caret, q.exponent]

/-- The number that the exponent stands for. -/
def value (q : Power) : Int := Decimal.ofDigits q.exponent.text

/-- The caret touches the last token of the base and the exponent. -/
def isTight (q : Power) : Bool :=
  q.base.tokens.getLast?.any (·.touches q.caret) && q.caret.touches q.exponent

end Power

/-! ## From derivations -/

/-- A sign before a phrase leaves its expression or negates it. -/
theorem Spells.signed {p : Phrase} {s : Token} {ts : List Token} {e : Expr} {op : Operator}
    (sign : s.Denotes op) (isTerm : op = .plus ∨ op = .minus) (h : p.Spells ts e) :
    (Phrase.signed s p).Spells (s :: ts) (if op = .minus then e.negated else e) := by
  obtain ⟨hp, rfl, rfl⟩ := h
  have hminus : s.text = ['-'] ↔ op = .minus := by
    rcases isTerm with rfl | rfl <;> simp [sign.2, Operator.text]
  exact ⟨.signed sign.1 hp, rfl, if_congr hminus rfl rfl⟩

/-- Two phrases with an operator between them. -/
theorem Spells.binary {p q : Phrase} {s : Token} {ts us : List Token} {l r : Expr} {op : Operator}
    (left : p.Spells ts l) (sign : s.Denotes op) (known : ∀ cs, op ≠ .unknown cs)
    (right : q.Spells us r) : (Phrase.binary p s q).Spells (ts ++ s :: us) (.binary op l r) := by
  obtain ⟨hp, rfl, rfl⟩ := left
  obtain ⟨hq, rfl, rfl⟩ := right
  have hexpr : (Phrase.binary p s q).expr = .binary op p.expr q.expr := by
    rw [expr, sign.2, ofText_text known]
  exact ⟨.binary hp sign.1 hq, rfl, hexpr⟩

/-- What is derived has a phrase that spells it. -/
theorem exists_spells {L : Level} {ts : List Token} {e : Expr} (h : Derives L ts e) :
    ∃ p : Phrase, p.Spells ts e := by
  induction h with
  | @number t kind => exact ⟨.number t, .number kind, rfl, rfl⟩
  | @name t kind => exact ⟨.name t, .name kind, rfl, rfl⟩
  | @group a z ts e opens closes inner ih =>
    obtain ⟨p, hp, rfl, rfl⟩ := ih
    exact ⟨.group a p z, .group opens closes hp, rfl, rfl⟩
  | @power ts e c n base isBase caret whole ih =>
    obtain ⟨p, hp, rfl, rfl⟩ := ih
    exact ⟨.power p c n, .power hp isBase caret whole, rfl, rfl⟩
  | factor | unsigned | operand | term => assumption
  | @plus s ts e sign operand ih =>
    obtain ⟨p, hp⟩ := ih
    exact ⟨.signed s p, .signed sign (.inl rfl) hp⟩
  | @minusNumber s ts x sign operand ih =>
    obtain ⟨p, hp⟩ := ih
    exact ⟨.signed s p, .signed sign (.inr rfl) hp⟩
  | @minus s ts e sign operand notNumber ih =>
    obtain ⟨p, hp⟩ := ih
    have h := Spells.signed sign (.inr rfl) hp
    rw [if_pos rfl, Expr.negated_of_ne_literal notNumber] at h
    exact ⟨.signed s p, h⟩
  | @product ts us l r s op left sign isFactor right ihl ihr =>
    obtain ⟨p, hp⟩ := ihl
    obtain ⟨q, hq⟩ := ihr
    exact ⟨.binary p s q, hp.binary sign (ne_unknown_of_factor isFactor) hq⟩
  | @joined ts us l r t left joins right ihl ihr =>
    obtain ⟨p, hp, rfl, rfl⟩ := ihl
    obtain ⟨q, hq, hts, rfl⟩ := ihr
    exact ⟨.joined p q, .joined hp hq, congrArg (p.tokens ++ ·) hts, rfl⟩
  | @sum ts us l r s op left sign isTerm right ihl ihr =>
    obtain ⟨p, hp⟩ := ihl
    obtain ⟨q, hq⟩ := ihr
    exact ⟨.binary p s q, hp.binary sign (ne_unknown_of_term isTerm) hq⟩

/-! ## Powers -/

/-- The powers of a phrase have the exponents of its expression. -/
theorem value_powers (p : Phrase) : p.powers.map Power.value = p.expr.exponents := by
  induction p with
  | number t | name t => rfl
  | group a p z ih => exact ih
  | power p c n ih =>
    rw [powers, List.map_append, ih]
    rfl
  | signed s p ih =>
    rw [powers, ih, expr]
    split
    · rw [Expr.exponents_negated]
    · rfl
  | binary p s q ihp ihq | joined p q ihp ihq =>
    rw [powers, List.map_append, ihp, ihq]
    rfl

theorem tokens_ne_nil (p : Phrase) : p.tokens ≠ [] := by
  induction p with
  | joined p q ihp _ =>
    rw [tokens]
    exact List.append_ne_nil_of_left_ne_nil ihp _
  | _ => simp [tokens]

/-- The tokens of a power follow one another. -/
theorem isInfix_of_mem_powers {p : Phrase} {q : Power} (h : q ∈ p.powers) :
    q.tokens <:+: p.tokens := by
  induction p with
  | number t | name t => exact absurd h List.not_mem_nil
  | group a p z ih =>
    exact (ih h).trans (List.infix_append' [a] p.tokens [z])
  | power p c n ih =>
    rcases List.mem_append.1 h with h | h
    · exact (ih h).trans (List.prefix_append _ _).isInfix
    · rw [List.mem_singleton.1 h]
      exact List.infix_rfl
  | signed s p ih => exact (ih h).trans (List.suffix_cons s _).isInfix
  | binary p s q ihp ihq =>
    rcases List.mem_append.1 h with h | h
    · exact (ihp h).trans (List.prefix_append _ _).isInfix
    · exact (ihq h).trans ((List.suffix_cons s _).trans (List.suffix_append _ _)).isInfix
  | joined p q ihp ihq =>
    rcases List.mem_append.1 h with h | h
    · exact (ihp h).trans (List.prefix_append _ _).isInfix
    · exact (ihq h).trans (List.suffix_append _ _).isInfix

theorem WellFormed.caret_of_mem_powers {p : Phrase} (hp : p.WellFormed) {q : Power}
    (h : q ∈ p.powers) : q.caret.kind = .caret := by
  induction hp with
  | number | name => exact absurd h List.not_mem_nil
  | group _ _ _ ih | signed _ _ ih => exact ih h
  | power base isBase caret whole ih =>
    rcases List.mem_append.1 h with h | h
    · exact ih h
    · rw [List.mem_singleton.1 h]
      exact caret
  | binary _ _ _ ihl ihr | joined _ _ ihl ihr =>
    rcases List.mem_append.1 h with h | h
    · exact ihl h
    · exact ihr h

end Phrase
end Grammar
end Reckon
