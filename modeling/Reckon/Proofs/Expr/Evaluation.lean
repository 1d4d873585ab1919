import Reckon.Outcome
import Reckon.Proofs.Expr.Shape
import Reckon.Proofs.Name.Split

/-!
# What evaluation can come to

A proper expression has a finite value, or a name in it has none, or there is a
fault of the calculation. Each step of the evaluation is shown to end in one of
these ways (`Settled`), and steps that do are put together by `Settled.bind`.

Nothing is said about the values on the way to a power or to a product, which
may be infinite or nan: only the last one is looked at.

Results:

* `settled_value`: the value of a proper expression.
* `ofExpr_of_parse`: the outcome of an expression that a formula stands for.
-/

namespace Reckon

/-! ## Ends of a step -/

/-- A step of an evaluation ends with a result of which something holds, or with a fault that an
expression with these names can have. -/
inductive Settled {α : Type} (b : Bindings) (names : List (List Char)) (P : α → Prop) :
    Except Failure α → Prop
  | result {a : α} (holds : P a) : Settled b names P (.ok a)
  | undefined {name : List Char} (mem : name ∈ names) (unbound : b.lookup name = none)
      (noSplit : ∀ parts, ¬Name.IsSplit b.names name parts) :
      Settled b names P (.error (.fault (.undefinedVariable name)))
  | calculation {f : Fault} (kind : f.kind.isCalculation = true) :
      Settled b names P (.error (.fault f))

namespace Settled

variable {α β : Type} {b : Bindings} {names more : List (List Char)} {P : α → Prop} {Q : β → Prop}

theorem bind {r : Except Failure α} {next : α → Except Failure β} (h : Settled b names P r)
    (hnext : ∀ a, P a → Settled b names Q (next a)) : Settled b names Q (r >>= next) := by
  cases h with
  | result holds => exact hnext _ holds
  | undefined mem unbound noSplit => exact .undefined mem unbound noSplit
  | calculation kind => exact .calculation kind

/-- An end stays one with more names, and with a weaker condition on the result. -/
theorem mono {P' : α → Prop} {r : Except Failure α} (h : Settled b names P r)
    (hnames : names ⊆ more) (hP : ∀ a, P a → P' a) : Settled b more P' r := by
  cases h with
  | result holds => exact .result (hP _ holds)
  | undefined mem unbound noSplit => exact .undefined (hnames mem) unbound noSplit
  | calculation kind => exact .calculation kind

/-- Steps that all end so end so one after the other, with a result for each. -/
theorem mapM {f : α → Except Failure β} {as : List α} (h : ∀ a ∈ as, Settled b names Q (f a)) :
    Settled b names (fun bs : List β => bs.length = as.length) (as.mapM f) := by
  induction as with
  | nil => exact .result rfl
  | cons a as ih =>
    rw [List.mapM_cons]
    refine (h a List.mem_cons_self).bind fun x _ => ?_
    refine (ih fun c hc => h c (List.mem_cons_of_mem a hc)).bind fun xs hxs => ?_
    exact .result (congrArg Nat.succ hxs)

end Settled

namespace Expr

variable {b : Bindings} {names : List (List Char)}

/-! ## Numbers and names -/

theorem settled_finite (x : Binary64) : Settled b names (·.isFinite = true) (finite x) := by
  unfold finite
  split_ifs with h
  · exact .result h
  · exact .calculation rfl

theorem settled_valueOf (n : Number) : Settled b names (·.isFinite = true) (valueOf n) := by
  unfold valueOf
  cases n.toBinary64? with
  | none => exact .calculation rfl
  | some x => exact settled_finite x

/-- A bound name has a number. -/
theorem exists_lookup {name : List Char} (h : name ∈ b.names) : ∃ n, b.lookup name = some n := by
  cases hb : b.lookup name with
  | some n => exact ⟨n, rfl⟩
  | none =>
    obtain ⟨p, hp, rfl⟩ := List.mem_map.1 h
    simpa using List.lookup_eq_none_iff.1 hb p hp

/-- The parts of a split have values. -/
theorem settled_parts {name : List Char} {parts : List (List Char)}
    (h : Name.IsSplit b.names name parts) :
    Settled b names (fun xs : List Binary64 => xs.length = parts.length)
      (parts.mapM fun part =>
        match b.lookup part with
        | some n => valueOf n
        | none => .error (.fault (.undefinedVariable part))) := by
  refine Settled.mapM (Q := (·.isFinite = true)) fun part hpart => ?_
  obtain ⟨n, hn⟩ := exists_lookup (h.bound part hpart).2
  rw [hn]
  exact settled_valueOf n

/-- A name stands for one value at least, or for none because it is not defined. -/
theorem settled_factors {name : List Char} (hname : name ≠ []) :
    Settled b [name] (fun xs : List Binary64 => xs ≠ []) (factors b name) := by
  unfold factors
  cases hb : b.lookup name with
  | some n => exact (settled_valueOf n).bind fun x _ => .result (List.cons_ne_nil x [])
  | none =>
    cases hs : Name.split b.names name with
    | none => exact .undefined (by simp) hb (Name.split_eq_none_iff.1 hs)
    | some parts =>
      have hsplit := Name.isSplit_of_split hs
      have hparts : parts ≠ [] := by
        rintro rfl
        exact hname hsplit.flatten.symm
      refine (settled_parts hsplit).mono (List.Subset.refl [name]) fun xs hxs => ?_
      rw [← List.length_pos_iff, hxs]
      exact List.length_pos_iff.2 hparts

/-! ## Operators and powers -/

theorem settled_combine {op : Operator} (hop : ∀ text, op ≠ .unknown text) (x y : Binary64) :
    Settled b names (·.isFinite = true) (combine op x y) := by
  cases op with
  | unknown text => exact absurd rfl (hop text)
  | dividedBy =>
    rw [combine]
    split_ifs
    · exact .calculation rfl
    · exact settled_finite _
  | _ => exact settled_finite _

theorem truncate_ofRatio_nonneg (n d : Nat) : 0 ≤ (Binary64.ofRatio false n d).truncate := by
  unfold Binary64.ofRatio
  split
  · simp only [Binary64.truncate]
    exact Int.natCast_nonneg _
  · exact Int.le_refl 0

/-- The double nearest to a number that is not negative is not negative. -/
theorem truncate_nonneg {n : Int} (hn : 0 ≤ n) {y : Binary64} (h : Binary64.ofInt? n = some y) :
    0 ≤ y.truncate := by
  obtain ⟨-, rfl⟩ := Binary64.onlyFinite?_eq_some.1 h
  rw [decide_eq_false (Int.not_lt.2 hn)]
  exact truncate_ofRatio_nonneg _ _

theorem signedPower_ne_zeroToNegative (s : Bool) (x : Binary64) :
    x.signedPower s ≠ .error .zeroToNegative := by
  cases x <;> simp [Binary64.signedPower]

/-- Only a negative power of zero is none. -/
theorem pow_ne_zeroToNegative (x : Binary64) {n : Int} (hn : 0 ≤ n) :
    x.pow n ≠ .error .zeroToNegative := by
  rw [Binary64.pow]
  cases hy : Binary64.ofInt? n with
  | none => simp
  | some y =>
    have hk : ¬y.truncate < 0 := Int.not_lt.2 (truncate_nonneg hn hy)
    simp only [Option.elim_some, Binary64.powWhole, hk, if_false]
    cases x with
    | finite s u hu =>
      dsimp only
      split_ifs
      · simp
      · simp
      · exact signedPower_ne_zeroToNegative _ _
    | _ => dsimp only; split_ifs <;> simp

theorem settled_raise (coefficient base : Binary64) {n : Int} (hn : 0 ≤ n) :
    Settled b names (·.isFinite = true) (raise coefficient base n) := by
  rw [raise]
  cases hp : base.pow n with
  | ok y => exact settled_finite _
  | error f =>
    cases f with
    | tooBig => exact .calculation rfl
    | zeroToNegative => exact absurd hp (pow_ne_zeroToNegative base hn)

/-! ## Expressions -/

/-- A proper expression has a finite value or a fault. -/
theorem settled_value {e : Expr} (h : e.Proper) :
    Settled b e.names (·.isFinite = true) (e.value b) := by
  induction h with
  | literal x => exact settled_finite x
  | var ne_nil => exact (settled_factors ne_nil).bind fun xs _ => settled_finite _
  | binary known hleft hright ihl ihr =>
    refine (ihl.mono (List.subset_append_left _ _) fun _ => id).bind fun x _ => ?_
    refine (ihr.mono (List.subset_append_right _ _) fun _ => id).bind fun y _ => ?_
    exact settled_combine known x y
  | group hinner ih => exact ih
  | @power base n isBase nonneg hbase ih =>
    -- a name with an exponent is not evaluated as a name
    cases hbase with
    | var ne_nil =>
      refine (settled_factors ne_nil).bind fun xs hxs => ?_
      rw [List.getLast?_eq_some_getLast hxs]
      exact settled_raise _ _ nonneg
    | group hinner => exact ih.bind fun x _ => settled_raise _ x nonneg
    | _ => cases isBase

end Expr

/-! ## Outcomes -/

/-- The codes of the faults of a calculation. -/
theorem Fault.code_of_isCalculation {f : Fault} (h : f.kind.isCalculation = true) :
    f.kind = .division ∧ f.code = "3200" ∨
      f.kind = .nonFinite ∧ (f.code = "3201" ∨ f.code = "3202") := by
  cases f <;> simp_all [kind, Kind.isCalculation, code]

namespace Outcome

/-- A formula stands for a proper expression. Whatever its names are bound to, the expression has a
finite value, or a name in it has none, or the fault is one of the calculation. -/
theorem ofExpr_of_parse {formula : List Char} {e : Expr} (h : Expr.parse formula = .ok e)
    (b : Bindings) :
    e.Proper ∧
      ((∃ x, ofExpr e b = .ok (.value x) ∧ x.isFinite = true) ∨
        (∃ name, ofExpr e b = .ok (.fault (.undefinedVariable name) none) ∧ name ∈ e.names ∧
          b.lookup name = none ∧ ∀ parts, ¬Name.IsSplit b.names name parts) ∨
        ∃ f : Fault, ofExpr e b = .ok (.fault f none) ∧
          (f.kind = .division ∧ f.code = "3200" ∨
            f.kind = .nonFinite ∧ (f.code = "3201" ∨ f.code = "3202"))) := by
  have proper := Grammar.proper_of_parse h
  have hvalue := Expr.settled_value (b := b) proper
  refine ⟨proper, ?_⟩
  unfold ofExpr
  generalize e.value b = r at hvalue
  cases hvalue with
  | result finite => exact .inl ⟨_, rfl, finite⟩
  | undefined mem unbound noSplit => exact .inr (.inl ⟨_, rfl, mem, unbound, noSplit⟩)
  | calculation kind => exact .inr (.inr ⟨_, rfl, Fault.code_of_isCalculation kind⟩)

/-- A quotient of two names that are not bound. -/
theorem ofExpr_quotient :
    ∃ e, Expr.parse "a/b".toList = .ok e ∧ e.Proper ∧
      ((∃ x, ofExpr e [] = .ok (.value x) ∧ x.isFinite = true) ∨
        (∃ name, ofExpr e [] = .ok (.fault (.undefinedVariable name) none) ∧ name ∈ e.names ∧
          List.lookup name ([] : Bindings) = none ∧
          ∀ parts, ¬Name.IsSplit (Bindings.names []) name parts) ∨
        ∃ f : Fault, ofExpr e [] = .ok (.fault f none) ∧
          (f.kind = .division ∧ f.code = "3200" ∨
            f.kind = .nonFinite ∧ (f.code = "3201" ∨ f.code = "3202"))) := by
  have h : Expr.parse "a/b".toList =
      .ok (.binary .dividedBy (.var "a".toList) (.var "b".toList)) := by cbv
  exact ⟨_, h, ofExpr_of_parse h []⟩

end Outcome
end Reckon
