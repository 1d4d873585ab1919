import Reckon.Proofs.Grammar.Reading

/-!
# Signs that are folded into numbers

By the standard conventions a minus before a number makes a negative number.
Without that case every unary minus is a subtraction from zero
(`Conventions.subtracting`). The two trees of a formula then differ at the
numbers with a sign only (`Folds`), and there is no formula that is read under
one of the conventions alone, or refused for another reason.

Results:

* `readAlike_levels`: every level of the grammar reads alike under both conventions.
* `both_parse`: so is a whole formula.
-/

namespace Reckon

/-! ## Results side by side -/

/-- Two results that are both there and related, or both fail for related reasons. -/
inductive Both {ε α β : Type} (E : ε → ε → Prop) (R : α → β → Prop) :
    Except ε α → Except ε β → Prop
  | ok {a : α} {b : β} (h : R a b) : Both E R (.ok a) (.ok b)
  | error {x y : ε} (h : E x y) : Both E R (.error x) (.error y)

namespace Both

variable {ε α β γ δ : Type} {E E' : ε → ε → Prop} {R R' : α → β → Prop} {Q : γ → δ → Prop}
  {r : Except ε α} {s : Except ε β}

/-- Steps that go on alike from related results. -/
theorem bind {f : α → Except ε γ} {g : β → Except ε δ} (h : Both E R r s)
    (hnext : ∀ a b, r = .ok a → R a b → Both E Q (f a) (g b)) : Both E Q (r >>= f) (s >>= g) := by
  cases h with
  | ok h => exact hnext _ _ rfl h
  | error h => exact .error h

theorem mono (h : Both E R r s) (hE : ∀ x y, E x y → E' x y) (hR : ∀ a b, R a b → R' a b) :
    Both E' R' r s := by
  cases h with
  | ok h => exact .ok (hR _ _ h)
  | error h => exact .error (hE _ _ h)

end Both

/-! ## Conventions -/

namespace Expr

/-- The conventions by which every unary minus is a subtraction from zero. -/
def Conventions.subtracting : Conventions :=
  ⟨Entry.maxDigits, fun e => .binary .minus (.literal .zero) e⟩

/-- The expression that a formula stands for under conventions. -/
def parseBy (c : Conventions) (formula : List Char) : Except Failure Expr := do
  let ts ← (Token.check formula).mapError .fault
  ofSymbols c (Symbol.ofTokens ts)

theorem parse_eq_parseBy (formula : List Char) : parse formula = parseBy .standard formula := rfl

/-- The first expression is the second one with signs folded into numbers. -/
inductive Folds : Expr → Expr → Prop
  | literal (x : Binary64) : Folds (.literal x) (.literal x)
  | minus {x : Binary64} {e : Expr} (number : Folds (.literal x) e) :
      Folds (.literal x.neg) (.binary .minus (.literal .zero) e)
  | var (name : List Char) : Folds (.var name) (.var name)
  | binary (op : Operator) {left right left' right' : Expr} (hleft : Folds left left')
      (hright : Folds right right') : Folds (.binary op left right) (.binary op left' right')
  | power (exponent : Int) {base base' : Expr} (hbase : Folds base base') :
      Folds (.power base exponent) (.power base' exponent)
  | group {inner inner' : Expr} (hinner : Folds inner inner') : Folds (.group inner) (.group inner')

namespace Folds

variable {e e' : Expr}

/-- What can have an exponent is folded into what can have one. -/
theorem isBase_eq (h : Folds e e') : e.isBase = e'.isBase := by
  cases h <;> rfl

/-- A unary minus under both conventions. -/
theorem negated (h : Folds e e') :
    Folds (Conventions.standard.minus e) (Conventions.subtracting.minus e') := by
  cases h with
  | literal x => exact .minus (.literal x)
  | minus number => exact .minus (.minus number)
  | var name => exact .binary .minus (.literal .zero) (.var name)
  | binary op hleft hright => exact .binary .minus (.literal .zero) (.binary op hleft hright)
  | power n hbase => exact .binary .minus (.literal .zero) (.power n hbase)
  | group hinner => exact .binary .minus (.literal .zero) (.group hinner)

end Folds

end Expr

namespace Grammar

open Reckon.Expr (Conventions Folds)

/-! ## Readings side by side -/

/-- The same failure, or expressions that differ in folded signs with the same symbols after them. -/
abbrev ReadAlike : Reading → Reading → Prop :=
  Both Eq fun p p' => Folds p.1 p'.1 ∧ p.2 = p'.2

/-- What goes on alike from related expressions and the symbols after them. -/
theorem ReadAlike.bind {γ δ : Type} {Q : γ → δ → Prop} {r r' : Reading}
    {f : Expr × List Symbol → Except Failure γ} {f' : Expr × List Symbol → Except Failure δ}
    (h : ReadAlike r r')
    (hnext : ∀ e e' rest, r = .ok (e, rest) → Folds e e' →
      Both Eq Q (f (e, rest)) (f' (e', rest))) : Both Eq Q (r >>= f) (r' >>= f') := by
  refine Both.bind h fun p p' hread hp => ?_
  obtain ⟨e, rest⟩ := p
  obtain ⟨e', rest'⟩ := p'
  obtain ⟨hfolds, rfl⟩ := hp
  exact hnext e e' rest hread hfolds

theorem readAlike_refused (f : Fault) : ReadAlike (.error (.fault f)) (.error (.fault f)) :=
  .error rfl

theorem readAlike_close {e e' : Expr} (h : Folds e e') (ss : List Symbol) :
    ReadAlike (close (e, ss)) (close (e', ss)) := by
  cases ss with
  | nil => exact readAlike_refused _
  | cons s ss =>
    simp only [close]
    split_ifs
    · exact .ok ⟨.group h, rfl⟩
    · exact readAlike_refused _

theorem readAlike_exponent {e e' : Expr} (h : Folds e e') (ss : List Symbol) :
    ReadAlike (exponent .standard e ss) (exponent .subtracting e' ss) := by
  rcases ss with _ | ⟨s, _ | ⟨digits, ss⟩⟩ <;> simp only [exponent, h.isBase_eq]
  · exact .ok ⟨h, rfl⟩
  · split_ifs
    · exact .ok ⟨h, rfl⟩
    · exact readAlike_refused _
    · exact readAlike_refused _
  · split_ifs
    · exact .ok ⟨h, rfl⟩
    · exact readAlike_refused _
    · exact readAlike_refused _
    · exact readAlike_refused _
    · show ReadAlike _ ((Expr.exponentOf .standard digits.text).map _)
      cases Expr.exponentOf .standard digits.text with
      | ok n => exact .ok ⟨.power n h, rfl⟩
      | error x => exact .error rfl

/-! ## The levels -/

/-- Every level of the grammar reads alike under both conventions, and so do the loops of a term and
of a sum, from expressions that differ in folded signs. -/
theorem readAlike_levels :
    (∀ L ss, ReadAlike (read .standard L ss) (read .subtracting L ss)) ∧
      (∀ e ss e', Folds e e' → ReadAlike (factors .standard e ss) (factors .subtracting e' ss)) ∧
      ∀ e ss e', Folds e e' → ReadAlike (terms .standard e ss) (terms .subtracting e' ss) := by
  apply levels_induction
  case factor_nil =>
    rw [read_factor_nil, read_factor_nil]
    exact readAlike_refused _
  case factor_cons =>
    intro s ss hsum
    rw [read_factor_cons, read_factor_cons]
    cases hs : s.kind
    case number => exact .ok ⟨.literal _, rfl⟩
    case identifier => exact .ok ⟨.var _, rfl⟩
    case openParen => exact (hsum hs).bind fun e e' rest _ h => readAlike_close h rest
    all_goals exact readAlike_refused _
  case power =>
    intro ss hfactor
    rw [read_power, read_power]
    exact hfactor.bind fun e e' rest _ h => readAlike_exponent h rest
  case unary_nil =>
    rw [read_unary_nil, read_unary_nil]
    exact readAlike_refused _
  case unary_cons =>
    intro s ss hunary hpower
    rw [read_unary_cons, read_unary_cons]
    by_cases hsign : s.isSign = true
    · rw [if_pos hsign, if_pos hsign]
      refine hunary.bind fun e e' rest _ h => .ok ⟨?_, rfl⟩
      dsimp only
      split_ifs
      · exact h.negated
      · exact h
    · rw [if_neg hsign, if_neg hsign]
      exact hpower
  case factors_nil =>
    intro e e' h
    rw [factors_nil, factors_nil]
    exact .ok ⟨h, rfl⟩
  case factors_cons =>
    intro e s ss hunary hpower hmore e' h
    rw [factors_cons, factors_cons]
    split_ifs
    · exact hunary.bind fun r r' rest hread hr =>
        hmore _ rest (Nat.lt_succ_of_lt (length_lt_of_read _ hread)) _ (.binary _ h hr)
    · exact hpower.bind fun r r' rest hread hr =>
        hmore _ rest (length_lt_of_read _ hread) _ (.binary _ h hr)
    · exact .ok ⟨h, rfl⟩
  case term =>
    intro ss hunary hmore
    rw [read_term, read_term]
    exact hunary.bind fun e e' rest hread h => hmore e rest (length_lt_of_read _ hread) e' h
  case terms_nil =>
    intro e e' h
    rw [terms_nil, terms_nil]
    exact .ok ⟨h, rfl⟩
  case terms_cons =>
    intro e s ss hterm hmore e' h
    rw [terms_cons, terms_cons]
    split_ifs
    · exact hterm.bind fun r r' rest hread hr =>
        hmore _ rest (Nat.lt_succ_of_lt (length_lt_of_read _ hread)) _ (.binary _ h hr)
    · exact .ok ⟨h, rfl⟩
  case sum =>
    intro ss hterm hmore
    rw [read_sum, read_sum]
    exact hterm.bind fun e e' rest hread h => hmore e rest (length_lt_of_read _ hread) e' h

/-! ## Formulas -/

theorem both_whole {e e' : Expr} (h : Folds e e') (rest : List Symbol) :
    Both Eq Folds (whole (e, rest)) (whole (e', rest)) := by
  cases rest with
  | nil => exact .ok h
  | cons s ss =>
    simp only [whole]
    split_ifs
    · exact .error rfl
    · exact .error rfl

theorem both_ofSymbols (ss : List Symbol) :
    Both Eq Folds (Expr.ofSymbols .standard ss) (Expr.ofSymbols .subtracting ss) := by
  rw [ofSymbols_eq, ofSymbols_eq]
  exact (readAlike_levels.1 .sum ss).bind fun e e' rest _ h => both_whole h rest

/-- Both conventions refuse the same formulas for the same reason, and the expressions of the others
differ in folded signs. -/
theorem both_parse (formula : List Char) :
    Both Eq Folds (Expr.parse formula) (Expr.parseBy .subtracting formula) := by
  rw [Expr.parse_eq_parseBy]
  unfold Expr.parseBy
  cases Token.check formula with
  | error x => exact .error rfl
  | ok ts => exact both_ofSymbols (Symbol.ofTokens ts)

end Grammar
end Reckon
