import Reckon.Proofs.Grammar.Parse
import Reckon.Proofs.Token.Cut

/-!
# The beginning of a formula

While a formula is typed, its beginning is read again and again. If the whole can
be read, the beginning up to the end of a token can be read too, or something is
missing at its end. For this the reading of the symbols is followed next to that
of the same symbols with more after them: until the first of the two comes to the
last symbol they do the same, and a level that fails there fails for want of a
symbol (`GoesOn`).

Results:

* `goesOn_levels`: every level of the grammar before the same symbols and more.
* `parse_take_of_parse`: the beginning of a formula that can be read.
-/

namespace Reckon

/-- The codes of a formula that ends too early. -/
def Fault.unfinishedCodes : List String := ["3002", "3005", "3006"]

/-- A fault that a formula has as long as something is missing at its end: an open group is not
closed, or there is no operand, or no exponent. -/
def Fault.IsUnfinished (f : Fault) : Prop := f.kind = .malformed ∧ f.code ∈ Fault.unfinishedCodes

theorem Fault.isUnfinished_missingClose : missingClose.IsUnfinished := by
  simp [IsUnfinished, kind, code, unfinishedCodes]

theorem Fault.isUnfinished_missingOperand : missingOperand.IsUnfinished := by
  simp [IsUnfinished, kind, code, unfinishedCodes]

theorem Fault.isUnfinished_badExponent : badExponent.IsUnfinished := by
  simp [IsUnfinished, kind, code, unfinishedCodes]

namespace Grammar

open Reckon.Expr (Conventions)
open Reckon.Symbol (ofTokensAfter)

/-- What a reading of symbols says about a reading of the same symbols with more after them. -/
inductive GoesOn (more : List Symbol) : Reading → Reading → Prop
  /-- A reading that has ended before the last symbol is not changed. -/
  | read {e : Expr} {s : Symbol} {rest : List Symbol} :
      GoesOn more (.ok (e, s :: rest)) (.ok (e, s :: (rest ++ more)))
  /-- A reading that has come to the last symbol may go on anyhow. -/
  | ended {e : Expr} {r : Reading} : GoesOn more (.ok (e, [])) r
  | unfinished {f : Fault} {r : Reading} (h : f.IsUnfinished) : GoesOn more (.error (.fault f)) r
  /-- Every other failure stays one. -/
  | failed {x y : Failure} : GoesOn more (.error x) (.error y)

variable {c : Conventions} {more : List Symbol}

theorem GoesOn.of_rest (e : Expr) (rest : List Symbol) :
    GoesOn more (.ok (e, rest)) (.ok (e, rest ++ more)) := by
  cases rest with
  | nil => exact .ended
  | cons s rest => exact .read

/-- A step after a reading, which at the end of the symbols has nothing to say about more of them. -/
theorem GoesOn.bind {r r' : Reading} {next : Expr × List Symbol → Reading} (h : GoesOn more r r')
    (hread : ∀ e s rest, r = .ok (e, s :: rest) →
      GoesOn more (next (e, s :: rest)) (next (e, s :: rest ++ more)))
    (hended : ∀ e r', GoesOn more (next (e, [])) r') : GoesOn more (r >>= next) (r' >>= next) := by
  cases h with
  | read => exact hread _ _ _ rfl
  | ended => exact hended _ _
  | unfinished h => exact .unfinished h
  | failed => exact .failed

theorem goesOn_close (e : Expr) (s : Symbol) (rest : List Symbol) :
    GoesOn more (close (e, s :: rest)) (close (e, s :: rest ++ more)) := by
  simp only [close, List.cons_append]
  split_ifs
  · exact .of_rest _ _
  · exact .failed

theorem goesOn_exponent (base : Expr) (s : Symbol) (ss : List Symbol) :
    GoesOn more (exponent c base (s :: ss)) (exponent c base (s :: ss ++ more)) := by
  simp only [exponent, List.cons_append]
  split_ifs
  · exact .read
  · exact .failed
  cases ss with
  | nil => exact .unfinished Fault.isUnfinished_badExponent
  | cons n ss =>
    dsimp only [List.cons_append]
    by_cases hn : (!n.isExponent) = true
    · rw [if_pos hn, if_pos hn]
      exact .failed
    rw [if_neg hn, if_neg hn]
    cases ss with
    | nil =>
      -- what comes after the exponent may still be a caret
      rw [if_neg (by simp)]
      cases Expr.exponentOf c n.text with
      | ok k => exact .ended
      | error x => split_ifs <;> exact .failed
    | cons s ss =>
      rw [List.cons_append, List.head?_cons, List.head?_cons]
      by_cases hs : (some s).map Symbol.kind = some .caret
      · rw [if_pos hs, if_pos hs]
        exact .failed
      · rw [if_neg hs, if_neg hs]
        cases Expr.exponentOf c n.text with
        | ok k => exact .read
        | error x => exact .failed

/-- A loop after a reading. -/
theorem GoesOn.loop {r r' : Reading} {loop : Expr → List Symbol → Reading} {f : Expr → Expr}
    {n : Nat} (h : GoesOn more r r') (hlength : ∀ p, r = .ok p → p.2.length < n)
    (hnil : ∀ e, loop e [] = .ok (e, []))
    (hloop : ∀ e rest, rest.length < n →
      ∀ more, GoesOn more (loop e rest) (loop e (rest ++ more))) :
    GoesOn more (r >>= fun p => loop (f p.1) p.2) (r' >>= fun p => loop (f p.1) p.2) := by
  refine h.bind (fun e s rest hread => ?_) fun e r' => ?_
  · exact hloop (f e) (s :: rest) (hlength _ hread) more
  · rw [hnil]
    exact .ended

/-- Every level of the grammar, and the loops of a term and of a sum. -/
theorem goesOn_levels (c : Conventions) :
    (∀ L ss, ∀ more, GoesOn more (read c L ss) (read c L (ss ++ more))) ∧
      (∀ e ss, ∀ more, GoesOn more (factors c e ss) (factors c e (ss ++ more))) ∧
      ∀ e ss, ∀ more, GoesOn more (terms c e ss) (terms c e (ss ++ more)) := by
  apply levels_induction
  case factor_nil =>
    intro more
    rw [read_factor_nil]
    exact .unfinished Fault.isUnfinished_missingOperand
  case factor_cons =>
    intro s ss hsum more
    rw [List.cons_append, read_factor_cons, read_factor_cons]
    cases hs : s.kind
    case number => exact .of_rest _ _
    case identifier => exact .of_rest _ _
    case openParen =>
      exact (hsum hs more).bind (fun e s rest _ => goesOn_close e s rest)
        fun e r => .unfinished Fault.isUnfinished_missingClose
    all_goals exact .failed
  case power =>
    intro ss hfactor more
    rw [read_power, read_power]
    exact (hfactor more).bind (fun e s rest _ => goesOn_exponent e s rest) fun e r => .ended
  case unary_nil =>
    intro more
    rw [read_unary_nil]
    exact .unfinished Fault.isUnfinished_missingOperand
  case unary_cons =>
    intro s ss hunary hpower more
    rw [List.cons_append, read_unary_cons, read_unary_cons]
    by_cases hs : s.isSign = true
    · rw [if_pos hs, if_pos hs]
      exact (hunary more).bind (fun e s rest _ => .read) fun e r => .ended
    · rw [if_neg hs, if_neg hs]
      exact hpower more
  case factors_nil | terms_nil =>
    intro e more
    simp only [factors_nil, terms_nil]
    exact .ended
  case factors_cons =>
    intro e s ss hunary hpower hloop more
    rw [List.cons_append, factors_cons, factors_cons]
    split_ifs
    · exact (hunary more).loop (fun p h => Nat.lt_succ_of_lt (length_lt_of_read c h))
        (factors_nil c) hloop
    · exact (hpower more).loop (fun p h => length_lt_of_read c h) (factors_nil c) hloop
    · exact .read
  case term =>
    intro ss hunary hloop more
    rw [read_term, read_term]
    exact (hunary more).loop (f := id) (fun p h => length_lt_of_read c h) (factors_nil c) hloop
  case terms_cons =>
    intro e s ss hterm hloop more
    rw [List.cons_append, terms_cons, terms_cons]
    split_ifs
    · exact (hterm more).loop (fun p h => Nat.lt_succ_of_lt (length_lt_of_read c h))
        (terms_nil c) hloop
    · exact .read
  case sum =>
    intro ss hterm hloop more
    rw [read_sum, read_sum]
    exact (hterm more).loop (f := id) (fun p h => length_lt_of_read c h) (terms_nil c) hloop

/-! ## Formulas -/

theorem exists_ofTokensAfter_append (p : Option Token) (us vs : List Token) :
    ∃ q, ofTokensAfter p (us ++ vs) = ofTokensAfter p us ++ ofTokensAfter q vs := by
  induction us generalizing p with
  | nil => exact ⟨p, rfl⟩
  | cons u us ih =>
    obtain ⟨q, hq⟩ := ih (some u)
    exact ⟨q, congrArg (_ :: ·) hq⟩

/-- The beginning of tokens that are an expression is one, or only something at its end is missing. -/
theorem ofSymbols_of_append (c : Conventions) {ss more : List Symbol} {e : Expr}
    (h : Expr.ofSymbols c (ss ++ more) = .ok e) :
    (∃ d, Expr.ofSymbols c ss = .ok d) ∨
      ∃ f : Fault, Expr.ofSymbols c ss = .error (.fault f) ∧ f.IsUnfinished := by
  have hgoes := (goesOn_levels c).1 .sum ss more
  rw [ofSymbols_eq] at h ⊢
  generalize read c .sum ss = r at hgoes
  generalize read c .sum (ss ++ more) = r' at hgoes h
  cases hgoes with
  | @read e s rest =>
    simp only [ok_bind, whole] at h
    split_ifs at h
  | @ended e => exact .inl ⟨e, rfl⟩
  | @unfinished f _ hf => exact .inr ⟨f, rfl, hf⟩
  | failed => cases h

/-- As far as a formula that can be read has been typed up to the end of one of its tokens, it can be
read too, or an operand, an exponent or a closing parenthesis is missing. -/
theorem parse_take_of_parse {formula : List Char} {e : Expr} (h : Expr.parse formula = .ok e)
    {t : Token} (ht : t ∈ Token.scan formula) :
    (∃ d, Expr.parse (formula.take t.stop) = .ok d) ∨
      ∃ f : Fault, Expr.parse (formula.take t.stop) = .error (.fault f) ∧ f.IsUnfinished := by
  obtain ⟨ts, hts, -, -⟩ := derives_of_parse h
  rw [parse_of_check hts] at h
  rw [Token.scan_of_check hts] at ht
  obtain ⟨us, vs, rfl⟩ := List.append_of_mem ht
  rw [parse_of_check (Token.check_take hts)]
  obtain ⟨q, hq⟩ := exists_ofTokensAfter_append none (us ++ [t]) vs
  rw [Symbol.ofTokens, List.append_cons, hq] at h
  exact ofSymbols_of_append .standard h

/-- The beginning of `a*(b+c^3)` up to the caret lacks an exponent. -/
theorem parse_take_of_parse_caret :
    Expr.parse "a*(b+c^3)".toList = .ok (.binary .times (.var ['a'])
        (.group (.binary .plus (.var ['b']) (.power (.var ['c']) 3)))) ∧
      ⟨.caret, ['^'], 6⟩ ∈ Token.scan "a*(b+c^3)".toList ∧
      ((∃ d, Expr.parse ("a*(b+c^3)".toList.take 7) = .ok d) ∨
        ∃ f : Fault, Expr.parse ("a*(b+c^3)".toList.take 7) = .error (.fault f) ∧
          f.IsUnfinished) ∧
      Expr.parse ("a*(b+c^3)".toList.take 7) = .error (.fault .badExponent) := by
  have hcheck : Token.check "a*(b+c^3)".toList = .ok [⟨.identifier, ['a'], 0⟩, ⟨.operator, ['*'], 1⟩,
      ⟨.openParen, ['('], 2⟩, ⟨.identifier, ['b'], 3⟩, ⟨.operator, ['+'], 4⟩, ⟨.identifier, ['c'], 5⟩,
      ⟨.caret, ['^'], 6⟩, ⟨.number, ['3'], 7⟩, ⟨.closeParen, [')'], 8⟩] := by
    decide +kernel
  have hcut : Token.check ("a*(b+c^3)".toList.take 7) = .ok [⟨.identifier, ['a'], 0⟩,
      ⟨.operator, ['*'], 1⟩, ⟨.openParen, ['('], 2⟩, ⟨.identifier, ['b'], 3⟩, ⟨.operator, ['+'], 4⟩,
      ⟨.identifier, ['c'], 5⟩, ⟨.caret, ['^'], 6⟩] := by
    decide +kernel
  have hparse : Expr.parse "a*(b+c^3)".toList = .ok (.binary .times (.var ['a'])
      (.group (.binary .plus (.var ['b']) (.power (.var ['c']) 3)))) := by
    rw [parse_of_check hcheck]
    cbv
  have hmem : ⟨.caret, ['^'], 6⟩ ∈ Token.scan "a*(b+c^3)".toList := by
    rw [Token.scan_of_check hcheck]
    simp
  have hlacks : Expr.parse ("a*(b+c^3)".toList.take 7) = .error (.fault .badExponent) := by
    rw [parse_of_check hcut]
    cbv
  exact ⟨hparse, hmem, parse_take_of_parse hparse hmem, hlacks⟩

end Grammar
end Reckon
