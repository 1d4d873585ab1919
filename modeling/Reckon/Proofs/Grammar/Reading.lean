import Reckon.Proofs.Grammar.Derivation

/-!
# What each level of the grammar reads

The readers of the parser carry a proof that fewer symbols are left. Here their
results are seen without it (`read`), level by level, so that a level is an
equation over the level below.

Results:

* `read_factor_cons`, `read_power`, `read_unary_cons`, `read_term`, `read_sum`:
  the levels.
* `factors_cons`, `terms_cons`: the loops of a term and of a sum.
* `levels_induction`: what each level hands on to the next holds of all of them.
-/

namespace Reckon
namespace Grammar

open Reckon.Expr (Conventions)

/-- An expression and the symbols after it, or why there is none. -/
abbrev Reading := Except Failure (Expr × List Symbol)

/-- A result without its bound. -/
def Reading.ofParsed {n : Nat} (r : Except Failure (Parsed n)) : Reading :=
  r.map fun p => (p.expr, p.rest)

/-! ## The levels -/

variable (c : Conventions)

/-- What a level reads from the front of the symbols. -/
def read : Level → List Symbol → Reading
  | .factor, ss => .ofParsed (Expr.readFactor c ss)
  | .power, ss => .ofParsed (Expr.readPower c ss)
  | .unary, ss => .ofParsed (Expr.readUnary c ss)
  | .term, ss => .ofParsed (Expr.readTerm c ss)
  | .sum, ss => .ofParsed (Expr.readSum c ss)

/-- The further factors of a term. -/
def factors (current : Expr) (ss : List Symbol) : Reading :=
  .ofParsed (Expr.readFactors c current ss)

/-- The further terms of a sum. -/
def terms (current : Expr) (ss : List Symbol) : Reading :=
  .ofParsed (Expr.readTerms c current ss)

/-- What follows the base of a power. -/
def exponent (base : Expr) : List Symbol → Reading
  | [] => .ok (base, [])
  | s :: ss =>
    if s.kind ≠ .caret then .ok (base, s :: ss)
    else if !base.isBase then .error (.fault .badBase)
    else match ss with
      | [] => .error (.fault .badExponent)
      | e :: es =>
        if !e.isExponent then .error (.fault .badExponent)
        else if es.head?.map Symbol.kind = some .caret then .error (.fault .badBase)
        else (Expr.exponentOf c e.text).map fun n => (.power base n, es)

/-- What follows a sum in parentheses. -/
def close : Expr × List Symbol → Reading
  | (inner, s :: ss) =>
    if s.kind = .closeParen then .ok (.group inner, ss) else .error (.fault .missingClose)
  | (_, []) => .error (.fault .missingClose)

/-! ## One step after another -/

section

variable {ε α β : Type}

@[simp] theorem ok_bind (a : α) (f : α → Except ε β) : (Except.ok a >>= f) = f a := rfl

@[simp] theorem error_bind (x : ε) (f : α → Except ε β) :
    ((Except.error x : Except ε α) >>= f) = .error x := rfl

end

/-! ## Results without their bound -/

theorem ofParsed_bind {n m : Nat} (r : Except Failure (Parsed n))
    (f : Parsed n → Except Failure (Parsed m)) (g : Expr × List Symbol → Reading)
    (h : ∀ p, Reading.ofParsed (f p) = g (p.expr, p.rest)) :
    Reading.ofParsed (r >>= f) = Reading.ofParsed r >>= g := by
  cases r with
  | error x => rfl
  | ok p => exact h p

/-- A weaker bound changes nothing. -/
theorem ofParsed_weaken {n m : Nat} (h : n ≤ m) (r : Except Failure (Parsed n)) :
    Reading.ofParsed (r >>= fun p => pure (p.weaken h)) = Reading.ofParsed r := by
  cases r <;> rfl

theorem length_lt_of_ofParsed {n : Nat} {r : Except Failure (Parsed n)} {p : Expr × List Symbol}
    (h : Reading.ofParsed r = .ok p) : p.2.length < n := by
  cases r with
  | error x => cases h
  | ok q =>
    cases h
    exact q.shorter

/-- A level takes one symbol at least. -/
theorem length_lt_of_read {L : Level} {ss : List Symbol} {p : Expr × List Symbol}
    (h : read c L ss = .ok p) : p.2.length < ss.length := by
  cases L <;> exact length_lt_of_ofParsed h

/-! ## Factors and powers -/

@[simp] theorem read_factor_nil : read c .factor [] = .error (.fault .missingOperand) := by
  rw [read, Expr.readFactor]; rfl

theorem read_factor_cons (s : Symbol) (ss : List Symbol) :
    read c .factor (s :: ss) =
      match s.kind with
      | .number => .ok (.literal (Decimal.ofNumeral s.text).toBinary64, ss)
      | .identifier => .ok (.var s.text, ss)
      | .openParen => read c .sum ss >>= close
      | .closeParen => .error (.fault .missingOperand)
      | _ => .error (.fault (.unexpectedToken s.text)) := by
  rw [read, Expr.readFactor]
  cases s.kind
  case openParen =>
    refine ofParsed_bind _ _ close fun p => ?_
    obtain ⟨inner, rest, h⟩ := p
    cases rest with
    | nil => rfl
    | cons r rs => simp only [close]; split <;> rfl
  all_goals rfl

theorem ofParsed_readExponent (base : Expr) (ss : List Symbol) :
    .ofParsed (Expr.readExponent c base ss) = exponent c base ss := by
  rcases ss with _ | ⟨s, _ | ⟨e, es⟩⟩ <;> simp only [Expr.readExponent, exponent]
  · rfl
  · split_ifs <;> rfl
  · split_ifs
    · rfl
    · rfl
    · rfl
    · rfl
    · cases Expr.exponentOf c e.text <;> rfl

/-- Without a caret there is no exponent. -/
theorem exponent_of_ne_caret {base : Expr} {ss : List Symbol}
    (h : ss.head?.map Symbol.kind ≠ some .caret) : exponent c base ss = .ok (base, ss) := by
  cases ss with
  | nil => rfl
  | cons s ss => exact if_pos (by simpa using h)

/-- With a caret, only the length of the exponent is left to see. -/
theorem exponent_of_caret {base : Expr} {s e : Symbol} {es : List Symbol}
    (hbase : base.isBase = true) (hs : s.kind = .caret) (he : e.isExponent = true)
    (h : es.head?.map Symbol.kind ≠ some .caret) :
    exponent c base (s :: e :: es) = (Expr.exponentOf c e.text).map fun n => (.power base n, es) := by
  simp only [exponent]
  rw [if_neg (by simpa using hs), if_neg (by simpa using hbase), if_neg (by simpa using he),
    if_neg h]

theorem read_power (ss : List Symbol) :
    read c .power ss = read c .factor ss >>= fun p => exponent c p.1 p.2 := by
  show Reading.ofParsed (Expr.readPower c ss) = _
  rw [Expr.readPower]
  refine ofParsed_bind _ _ (fun p => exponent c p.1 p.2) fun p => ?_
  exact (ofParsed_weaken _ _).trans (ofParsed_readExponent c p.expr p.rest)

/-! ## Signs -/

@[simp] theorem read_unary_nil : read c .unary [] = .error (.fault .missingOperand) := by
  rw [read, Expr.readUnary]
  exact (read_power c []).trans (by simp)

theorem read_unary_cons (s : Symbol) (ss : List Symbol) :
    read c .unary (s :: ss) =
      if s.isSign then
        read c .unary ss >>= fun p => .ok (if s.text = ['-'] then c.minus p.1 else p.1, p.2)
      else read c .power (s :: ss) := by
  show Reading.ofParsed (Expr.readUnary c (s :: ss)) = _
  rw [Expr.readUnary]
  split
  · exact ofParsed_bind _ _ (fun p => .ok (if s.text = ['-'] then c.minus p.1 else p.1, p.2))
      fun _ => rfl
  · rfl

/-! ## Terms and sums -/

@[simp] theorem factors_nil (current : Expr) : factors c current [] = .ok (current, []) := by
  rw [factors, Expr.readFactors]; rfl

theorem factors_cons (current : Expr) (s : Symbol) (ss : List Symbol) :
    factors c current (s :: ss) =
      if s.isFactorOperator then
        read c .unary ss >>= fun p => factors c (.binary (.ofText s.text) current p.1) p.2
      else if s.joined then
        read c .power (s :: ss) >>= fun p => factors c (.binary .times current p.1) p.2
      else .ok (current, s :: ss) := by
  rw [factors, Expr.readFactors]
  split_ifs
  · exact ofParsed_bind _ _ (fun p => factors c (.binary (.ofText s.text) current p.1) p.2)
      fun _ => ofParsed_weaken _ _
  · exact ofParsed_bind _ _ (fun p => factors c (.binary .times current p.1) p.2)
      fun _ => ofParsed_weaken _ _
  · rfl

theorem read_term (ss : List Symbol) :
    read c .term ss = read c .unary ss >>= fun p => factors c p.1 p.2 := by
  show Reading.ofParsed (Expr.readTerm c ss) = _
  rw [Expr.readTerm]
  exact ofParsed_bind _ _ (fun p => factors c p.1 p.2) fun _ => ofParsed_weaken _ _

@[simp] theorem terms_nil (current : Expr) : terms c current [] = .ok (current, []) := by
  rw [terms, Expr.readTerms]; rfl

theorem terms_cons (current : Expr) (s : Symbol) (ss : List Symbol) :
    terms c current (s :: ss) =
      if s.isSign then
        read c .term ss >>= fun p => terms c (.binary (.ofText s.text) current p.1) p.2
      else .ok (current, s :: ss) := by
  rw [terms, Expr.readTerms]
  split
  · exact ofParsed_bind _ _ (fun p => terms c (.binary (.ofText s.text) current p.1) p.2)
      fun _ => ofParsed_weaken _ _
  · rfl

theorem read_sum (ss : List Symbol) :
    read c .sum ss = read c .term ss >>= fun p => terms c p.1 p.2 := by
  show Reading.ofParsed (Expr.readSum c ss) = _
  rw [Expr.readSum]
  exact ofParsed_bind _ _ (fun p => terms c p.1 p.2) fun _ => ofParsed_weaken _ _

/-! ## A whole formula -/

/-- What a sum must be that is all there is. -/
def whole : Expr × List Symbol → Except Failure Expr
  | (e, []) => .ok e
  | (_, s :: _) =>
    if s.kind = .closeParen then .error (.fault .missingOpen)
    else .error (.fault (.unexpectedToken s.text))

theorem ofSymbols_eq (ss : List Symbol) : Expr.ofSymbols c ss = read c .sum ss >>= whole := by
  show (Expr.readSum c ss >>= _) = Reading.ofParsed (Expr.readSum c ss) >>= whole
  cases Expr.readSum c ss with
  | error x => rfl
  | ok p =>
    obtain ⟨e, rest, h⟩ := p
    cases rest <;> rfl

/-! ## Induction over the levels -/

/-- The recursion of the parser as a principle of induction: a level may use the tighter levels on
the same symbols and every level on fewer symbols. -/
theorem levels_induction {P : Level → List Symbol → Prop} {F T : Expr → List Symbol → Prop}
    (factor_nil : P .factor [])
    (factor_cons : ∀ s ss, (s.kind = .openParen → P .sum ss) → P .factor (s :: ss))
    (power : ∀ ss, P .factor ss → P .power ss)
    (unary_nil : P .unary [])
    (unary_cons : ∀ s ss, P .unary ss → P .power (s :: ss) → P .unary (s :: ss))
    (factors_nil : ∀ e, F e [])
    (factors_cons : ∀ e s ss, P .unary ss → P .power (s :: ss) →
      (∀ r rest, rest.length < (s :: ss).length → F r rest) → F e (s :: ss))
    (term : ∀ ss, P .unary ss → (∀ e rest, rest.length < ss.length → F e rest) → P .term ss)
    (terms_nil : ∀ e, T e [])
    (terms_cons : ∀ e s ss, P .term ss →
      (∀ r rest, rest.length < (s :: ss).length → T r rest) → T e (s :: ss))
    (sum : ∀ ss, P .term ss → (∀ e rest, rest.length < ss.length → T e rest) → P .sum ss) :
    (∀ L ss, P L ss) ∧ (∀ e ss, F e ss) ∧ ∀ e ss, T e ss := by
  -- a level and both loops at once, by the number of symbols; the levels in their order for one list
  have main : ∀ n (ss : List Symbol), ss.length = n →
      (∀ L, P L ss) ∧ (∀ e, F e ss) ∧ ∀ e, T e ss := by
    intro n
    induction n using Nat.strong_induction_on with
    | _ n ih =>
      rintro ss rfl
      have hP : ∀ L rest, rest.length < ss.length → P L rest := fun L rest h => (ih _ h rest rfl).1 L
      have hF : ∀ e rest, rest.length < ss.length → F e rest :=
        fun e rest h => (ih _ h rest rfl).2.1 e
      have hT : ∀ e rest, rest.length < ss.length → T e rest :=
        fun e rest h => (ih _ h rest rfl).2.2 e
      cases ss with
      | nil =>
        have hterm : P .term [] := term [] unary_nil hF
        refine ⟨fun L => ?_, factors_nil, terms_nil⟩
        cases L
        exacts [factor_nil, power [] factor_nil, unary_nil, hterm, sum [] hterm hT]
      | cons s ss =>
        have hlt : ss.length < (s :: ss).length := Nat.lt_succ_self _
        have hfactor : P .factor (s :: ss) := factor_cons s ss fun _ => hP .sum ss hlt
        have hpower : P .power (s :: ss) := power _ hfactor
        have hunary : P .unary (s :: ss) := unary_cons s ss (hP .unary ss hlt) hpower
        have hterm : P .term (s :: ss) := term _ hunary hF
        refine ⟨fun L => ?_, fun e => factors_cons e s ss (hP .unary ss hlt) hpower hF,
          fun e => terms_cons e s ss (hP .term ss hlt) hT⟩
        cases L
        exacts [hfactor, hpower, hunary, hterm, sum _ hterm hT]
  exact ⟨fun L ss => (main _ ss rfl).1 L, fun e ss => (main _ ss rfl).2.1 e,
    fun e ss => (main _ ss rfl).2.2 e⟩

end Grammar
end Reckon
