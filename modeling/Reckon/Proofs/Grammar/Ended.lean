import Reckon.Proofs.Grammar.Reading

/-!
# Where a level ends

A level takes all symbols that go on with what it has read: a power its exponent,
a term every further factor, a sum every further term. So the symbol after it is
none that it could have taken.

Results:

* `ended_levels`: what comes after each level and after both loops.
* `ended_read`: what comes after a level.
-/

namespace Reckon
namespace Grammar

open Reckon.Expr (Conventions)

/-- The symbols do not go on with what a level has read before them. -/
def Ended : Level → List Symbol → Prop
  | .factor, _ => True
  | .power, ss | .unary, ss => ∀ s ∈ ss.head?, s.kind ≠ .caret
  | .term, ss => ∀ s ∈ ss.head?, s.kind ≠ .caret ∧ ¬s.isFactorOperator = true ∧ ¬s.joined = true
  | .sum, ss => ∀ s ∈ ss.head?,
    s.kind ≠ .caret ∧ ¬s.isFactorOperator = true ∧ ¬s.joined = true ∧ ¬s.isSign = true

/-- What is left after a reading does not go on with it. -/
def EndsAt (L : Level) (r : Reading) : Prop := ∀ p, r = .ok p → Ended L p.2

variable {c : Conventions} {L M : Level} {r : Reading}

theorem ended_nil (L : Level) : Ended L [] := by
  cases L <;> simp [Ended]

theorem endsAt_error (x : Failure) : EndsAt L (.error x) := by
  intro p h
  cases h

theorem endsAt_ok {e : Expr} {ss : List Symbol} (h : Ended L ss) : EndsAt L (.ok (e, ss)) := by
  intro p hp
  cases hp
  exact h

theorem EndsAt.bind {next : Expr × List Symbol → Reading} (h : EndsAt L r)
    (hnext : ∀ p, r = .ok p → Ended L p.2 → EndsAt M (next p)) : EndsAt M (r >>= next) := by
  cases r with
  | error x => exact endsAt_error x
  | ok p => exact hnext p rfl (h p rfl)

theorem endsAt_exponent (base : Expr) (ss : List Symbol) : EndsAt .power (exponent c base ss) := by
  rcases ss with _ | ⟨s, ss⟩
  · exact endsAt_ok (ended_nil .power)
  simp only [exponent]
  split_ifs with hcaret
  · exact endsAt_ok (by simpa [Ended] using hcaret)
  · exact endsAt_error _
  rcases ss with _ | ⟨n, ss⟩
  · exact endsAt_error _
  dsimp only
  split_ifs with hn hnext
  · exact endsAt_error _
  · exact endsAt_error _
  · cases Expr.exponentOf c n.text with
    | error x => exact endsAt_error x
    | ok k => exact endsAt_ok (by simpa [Ended] using hnext)

/-- What comes after each level of the grammar, and after the loops of a term and of a sum. -/
theorem ended_levels (c : Conventions) :
    (∀ L ss, EndsAt L (read c L ss)) ∧
      (∀ e ss, Ended .unary ss → EndsAt .term (factors c e ss)) ∧
      ∀ e ss, Ended .term ss → EndsAt .sum (terms c e ss) := by
  apply levels_induction
  case factor_nil | factor_cons =>
    intros
    exact fun _ _ => trivial
  case power =>
    intro ss hfactor
    rw [read_power]
    exact hfactor.bind fun p _ _ => endsAt_exponent p.1 p.2
  case unary_nil =>
    rw [read_unary_nil]
    exact endsAt_error _
  case unary_cons =>
    intro s ss hunary hpower
    rw [read_unary_cons]
    by_cases hs : s.isSign = true
    · rw [if_pos hs]
      exact hunary.bind fun p _ hp => endsAt_ok hp
    · rw [if_neg hs]
      exact hpower
  case factors_nil | terms_nil =>
    intro e _
    simp only [factors_nil, terms_nil]
    exact endsAt_ok (ended_nil _)
  case factors_cons =>
    intro e s ss hunary hpower hloop hstart
    rw [factors_cons]
    split_ifs with hop hjoined
    · exact hunary.bind fun p h =>
        hloop _ p.2 (Nat.lt_succ_of_lt (length_lt_of_read c h))
    · exact hpower.bind fun p h => hloop _ p.2 (length_lt_of_read c h)
    · exact endsAt_ok (by simpa [Ended, hop, hjoined] using hstart)
  case term =>
    intro ss hunary hloop
    rw [read_term]
    exact hunary.bind fun p h => hloop p.1 p.2 (length_lt_of_read c h)
  case terms_cons =>
    intro e s ss hterm hloop hstart
    rw [terms_cons]
    split_ifs with hsign
    · exact hterm.bind fun p h => hloop _ p.2 (Nat.lt_succ_of_lt (length_lt_of_read c h))
    · exact endsAt_ok (by simpa [Ended, hsign] using hstart)
  case sum =>
    intro ss hterm hloop
    rw [read_sum]
    exact hterm.bind fun p h => hloop p.1 p.2 (length_lt_of_read c h)

/-- What comes after a level. -/
theorem ended_read (L : Level) (ss : List Symbol) : EndsAt L (read c L ss) :=
  (ended_levels c).1 L ss

end Grammar
end Reckon
