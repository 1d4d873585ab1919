import Reckon.Proofs.Outcome

/-!
# Values of other names

A name that is not bound is tried as a run of bound names, so its value may
depend on any name that is bound. A name that is bound is never tried so. Where
all names of an expression are bound, the other ones play no part in its value,
and the outcome of a formula depends on the values of its identifiers alone.

Results:

* `value_eq_of_agree`: the value of an expression depends on its names only.
* `ofFormula_eq_of_agree`: the outcome of a formula depends on its identifiers
  only.
-/

namespace Reckon

/-- Both bind each of the names, to numbers that stand for the same double. -/
def Bindings.Agree (names : List (List Char)) (b other : Bindings) : Prop :=
  ∀ name ∈ names, ∃ n m, b.lookup name = some n ∧ other.lookup name = some m ∧
    n.toBinary64? = m.toBinary64?

variable {b other : Bindings} {names more : List (List Char)}

theorem Bindings.Agree.mono (h : Bindings.Agree more b other) (hnames : names ⊆ more) :
    Bindings.Agree names b other :=
  fun name hname => h name (hnames hname)

namespace Expr

theorem valueOf_congr {n m : Number} (h : n.toBinary64? = m.toBinary64?) :
    valueOf n = valueOf m := by
  rw [valueOf, valueOf, h]

/-- A bound name stands for its own value, whatever runs of names it may be. -/
theorem factors_eq_of_agree {name : List Char} (h : Bindings.Agree [name] b other) :
    factors b name = factors other name := by
  obtain ⟨n, m, hn, hm, heq⟩ := h name (List.mem_singleton_self name)
  rw [factors, factors, hn, hm]
  exact congrArg (Except.map ([·])) (valueOf_congr heq)

/-- Where its names are bound, the value of an expression depends on them only. -/
theorem value_eq_of_agree {e : Expr} (h : Bindings.Agree e.names b other) :
    e.value b = e.value other := by
  induction e with
  | literal x | hole => rfl
  | var name => rw [value, value, factors_eq_of_agree h]
  | binary op left right ihl ihr =>
    have hl := ihl (h.mono (List.subset_append_left _ _))
    have hr := ihr (h.mono (List.subset_append_right _ _))
    rw [value, value, hl, hr]
  | power base exponent ih =>
    -- a name with an exponent is not evaluated as a name
    cases base with
    | var name => rw [value, value, factors_eq_of_agree h]
    | _ => exact congrArg (· >>= fun x => raise .one x exponent) (ih h)
  | group inner ih => exact ih h

end Expr

namespace Outcome

variable {formula : List Char}

/-- Where the identifiers of a formula are bound, its evaluation depends on them only. -/
theorem evaluate_eq_of_agree (h : Bindings.Agree (Token.identifiers formula) b other) :
    evaluate formula b = evaluate formula other := by
  cases hparse : Expr.parse formula with
  | error f => rw [evaluate_of_parse_error hparse, evaluate_of_parse_error hparse]
  | ok e =>
    rw [evaluate_of_parse hparse, evaluate_of_parse hparse]
    refine Expr.value_eq_of_agree (h.mono fun name hname => ?_)
    rw [Grammar.names_of_parse hparse] at hname
    exact Token.mem_firstAppearances.2 hname

/-- Where both bind the identifiers of a formula to the same values, the formula has the same
outcome, whatever else they bind. -/
theorem ofFormula_eq_of_agree (h : Bindings.Agree (Token.identifiers formula) b other) :
    ofFormula formula b = ofFormula formula other := by
  rw [ofFormula, ofFormula, evaluate_eq_of_agree h]

/-- A name is not taken for a product of the names that it is a run of, when these are bound too. -/
theorem ofFormula_eq_of_agree_run :
    Bindings.Agree (Token.identifiers "ab".toList) [("ab".toList, .double .zero)]
        [("a".toList, .integer 2), ("b".toList, .integer 3), ("ab".toList, .integer 0)] ∧
      ofFormula "ab".toList [("ab".toList, .double .zero)] =
        ofFormula "ab".toList
          [("a".toList, .integer 2), ("b".toList, .integer 3), ("ab".toList, .integer 0)] := by
  have hidentifiers : Token.identifiers "ab".toList = ["ab".toList] := by decide +kernel
  have h : Bindings.Agree (Token.identifiers "ab".toList) [("ab".toList, .double .zero)]
      [("a".toList, .integer 2), ("b".toList, .integer 3), ("ab".toList, .integer 0)] := by
    rw [hidentifiers]
    exact List.forall_mem_singleton.2
      ⟨.double .zero, .integer 0, rfl, rfl, Binary64.ofInt?_zero.symm⟩
  exact ⟨h, ofFormula_eq_of_agree h⟩

end Outcome
end Reckon
