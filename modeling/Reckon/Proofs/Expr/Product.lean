import Reckon.Proofs.Expr.Evaluation

/-!
# Runs of names as products

A name that stands for a run of names has the value of their product. It is
computed in another order than a product that is written out: first all factors
are looked up, then they are multiplied, and only the last product is looked at.
The outcome is the same all the same, because a product that is not finite never
becomes finite again, whatever it is multiplied by. The same holds for a name
with an exponent, which belongs to the last name of the run.

Results:

* `sameOutcome_writtenOut`: it is enough to look at the last product.
* `sameOutcome_raise`: the coefficient of a power may be looked at before it is
  multiplied, or not.
* `sameOutcome_of_split`: a run of names and its product.
-/

namespace Reckon
namespace Expr

open Reckon.Grammar (ok_bind error_bind)

/-- There is no result because some number is not finite. -/
def Overflows {α : Type} (r : Except Failure α) : Prop :=
  ∃ f : Fault, f.kind = .nonFinite ∧ r = .error (.fault f)

/-- The same finite number, or no number on either side because some number is not finite. -/
def SameOutcome (r s : Except Failure Binary64) : Prop :=
  (∃ x : Binary64, x.isFinite = true ∧ r = .ok x ∧ s = .ok x) ∨ (Overflows r ∧ Overflows s)

/-- A factor times names, with an operator before each of them. -/
def writtenOut (first : Expr) (names : List (List Char)) : Expr :=
  names.foldl (fun e name => binary .times e (var name)) first

variable {b : Bindings} {e : Expr} {name : List Char} {names parts : List (List Char)}
  {x : Binary64} {r : Except Failure Binary64}

/-! ## Numbers that are not finite -/

theorem finite_of_isFinite (h : x.isFinite = true) : finite x = .ok x := if_pos h

theorem overflows_finite (h : ¬x.isFinite = true) : Overflows (finite x) :=
  ⟨.notFinite x, rfl, if_neg h⟩

theorem Overflows.bind {α β : Type} {r : Except Failure α} (h : Overflows r)
    (next : α → Except Failure β) : Overflows (r >>= next) := by
  obtain ⟨f, hf, rfl⟩ := h
  exact ⟨f, hf, rfl⟩

theorem sameOutcome_finite (x : Binary64) : SameOutcome (finite x) (finite x) := by
  by_cases hx : x.isFinite = true
  · exact .inl ⟨x, hx, finite_of_isFinite hx, finite_of_isFinite hx⟩
  · exact .inr ⟨overflows_finite hx, overflows_finite hx⟩

/-- What agrees with a number is the number, if it is finite. -/
theorem SameOutcome.eq_ok (h : SameOutcome (finite x) r) (hx : x.isFinite = true) : r = .ok x := by
  rw [finite_of_isFinite hx] at h
  rcases h with ⟨y, -, hy, hr⟩ | ⟨⟨f, -, hf⟩, -⟩
  · cases hy
    exact hr
  · cases hf

theorem SameOutcome.overflows (h : SameOutcome (finite x) r) (hx : ¬x.isFinite = true) :
    Overflows r := by
  rcases h with ⟨y, hy, hxy, -⟩ | ⟨-, hr⟩
  · rw [finite, if_neg hx] at hxy
    cases hxy
  · exact hr

/-- What fails with the number fails with whatever agrees with the number. -/
theorem SameOutcome.overflows_bind {β : Type} (h : SameOutcome (finite x) r)
    {next : Binary64 → Except Failure β} (hnext : Overflows (next x)) : Overflows (r >>= next) := by
  by_cases hx : x.isFinite = true
  · rw [h.eq_ok hx]
    exact hnext
  · exact (h.overflows hx).bind next

/-- A further factor: where the product was not finite, it is not finite with the factor either. -/
theorem SameOutcome.times (h : SameOutcome (finite x) r) (y : Binary64) :
    SameOutcome (finite (x.mul y)) (r >>= fun z => finite (z.mul y)) := by
  by_cases hx : x.isFinite = true
  · rw [h.eq_ok hx]
    exact sameOutcome_finite _
  · have hxy : ¬(x.mul y).isFinite = true := fun hxy => hx (Binary64.isFinite_of_mul hxy).1
    exact .inr ⟨overflows_finite hxy, (h.overflows hx).bind _⟩

/-! ## Names -/

theorem valueOf_cases (n : Number) :
    (∃ x : Binary64, x.isFinite = true ∧ valueOf n = .ok x) ∨ Overflows (valueOf n) := by
  unfold valueOf
  cases n.toBinary64? with
  | none => exact .inr ⟨.integerTooBig, rfl, rfl⟩
  | some x =>
    by_cases hx : x.isFinite = true
    · exact .inl ⟨x, hx, finite_of_isFinite hx⟩
    · exact .inr (overflows_finite hx)

theorem factors_of_lookup {n : Number} (h : b.lookup name = some n) :
    factors b name = (valueOf n).map ([·]) := by
  unfold factors
  rw [h]

/-- A bound name has the value of its number. -/
theorem value_var_of_lookup {n : Number} (h : b.lookup name = some n) :
    value b (var name) = valueOf n := by
  show factors b name >>= (fun xs => finite (product xs)) = _
  rw [factors_of_lookup h]
  rcases valueOf_cases n with ⟨x, hx, hn⟩ | ⟨f, -, hn⟩
  · rw [hn]
    show finite (Binary64.one.mul x) = _
    rw [Binary64.one_mul_of_isFinite hx, finite_of_isFinite hx]
  · rw [hn]
    rfl

theorem value_var_cases (h : name ∈ b.names) :
    (∃ x : Binary64, x.isFinite = true ∧ value b (var name) = .ok x) ∨
      Overflows (value b (var name)) := by
  obtain ⟨n, hn⟩ := exists_lookup h
  rw [value_var_of_lookup hn]
  exact valueOf_cases n

/-- The factors of a run of names are the values of the names. -/
theorem factors_of_split (unbound : b.lookup name = none)
    (hsplit : Name.split b.names name = some parts) :
    factors b name = parts.mapM fun part => value b (var part) := by
  have hparts := (Name.isSplit_of_split hsplit).bound
  unfold factors
  rw [unbound, hsplit]
  dsimp only
  clear hsplit
  induction parts with
  | nil => rfl
  | cons part parts ih =>
    obtain ⟨n, hn⟩ := exists_lookup (hparts part List.mem_cons_self).2
    rw [List.mapM_cons, List.mapM_cons, ih fun p hp => hparts p (List.mem_cons_of_mem _ hp),
      value_var_of_lookup hn, hn]

/-! ## Products -/

theorem value_times (left right : Expr) :
    value b (binary .times left right) =
      value b left >>= fun x => value b right >>= fun y => finite (x.mul y) := rfl

theorem writtenOut_cons (e : Expr) (name : List Char) (names : List (List Char)) :
    writtenOut e (name :: names) = writtenOut (binary .times e (var name)) names := rfl

theorem overflows_writtenOut (names : List (List Char)) (h : Overflows (value b e)) :
    Overflows (value b (writtenOut e names)) := by
  induction names generalizing e with
  | nil => exact h
  | cons name names ih => exact ih (h.bind _)

/-- A product may be looked at after every factor, or only after the last one. -/
theorem sameOutcome_writtenOut (hnames : ∀ name ∈ names, name ∈ b.names)
    (h : SameOutcome (finite x) (value b e)) :
    SameOutcome
      ((names.mapM fun name => value b (var name)) >>= fun xs => finite (xs.foldl .mul x))
      (value b (writtenOut e names)) := by
  induction names generalizing x e with
  | nil => exact h
  | cons name names ih =>
    obtain ⟨hname, hnames⟩ := List.forall_mem_cons.1 hnames
    rw [List.mapM_cons, writtenOut_cons]
    rcases value_var_cases hname with ⟨y, hy, hv⟩ | hv
    · have hnext : SameOutcome (finite (x.mul y)) (value b (binary .times e (var name))) := by
        rw [value_times, hv]
        exact h.times y
      have hrest := ih hnames hnext
      rw [hv]
      simpa only [ok_bind, bind_assoc, pure_bind, List.foldl_cons] using hrest
    · have hnext : Overflows (value b (binary .times e (var name))) := by
        rw [value_times]
        exact h.overflows_bind (hv.bind _)
      exact .inr ⟨(hv.bind _).bind _, overflows_writtenOut names hnext⟩

/-- The product of the values of names, and the names with operators between them. -/
theorem sameOutcome_product {first : List Char} (hfirst : first ∈ b.names)
    (hnames : ∀ name ∈ names, name ∈ b.names) :
    SameOutcome
      (((first :: names).mapM fun name => value b (var name)) >>= fun xs => finite (product xs))
      (value b (writtenOut (var first) names)) := by
  rw [List.mapM_cons]
  rcases value_var_cases hfirst with ⟨y, hy, hv⟩ | hv
  · have hstart : SameOutcome (finite y) (value b (var first)) := by
      rw [hv, ← finite_of_isFinite hy]
      exact sameOutcome_finite y
    have hrest := sameOutcome_writtenOut hnames hstart
    rw [hv]
    simpa only [ok_bind, bind_assoc, pure_bind, product, List.foldl_cons,
      Binary64.one_mul_of_isFinite hy] using hrest
  · exact .inr ⟨(hv.bind _).bind _, overflows_writtenOut names hv⟩

/-! ## Powers -/

/-- The coefficient of a power may be looked at before it is multiplied by the power, or not. -/
theorem sameOutcome_raise (h : SameOutcome (finite x) r) (base : Binary64) (n : Nat) :
    SameOutcome (raise x base n)
      (r >>= fun c => raise .one base n >>= fun y => finite (c.mul y)) := by
  have hpow := pow_ne_zeroToNegative base (Int.natCast_nonneg n)
  unfold raise
  cases hp : base.pow n with
  | error f =>
    cases f with
    | zeroToNegative => exact absurd hp hpow
    | tooBig =>
      have hfails : Overflows (α := Binary64) (.error (.fault .powerTooBig)) := ⟨_, rfl, rfl⟩
      exact .inr ⟨hfails, h.overflows_bind hfails⟩
  | ok y =>
    simp only [Except.mapError, ok_bind]
    by_cases hy : y.isFinite = true
    · rw [Binary64.one_mul_of_isFinite hy, finite_of_isFinite hy]
      exact h.times y
    · have hone : ¬(Binary64.one.mul y).isFinite = true :=
        fun hone => hy (Binary64.isFinite_of_mul hone).2
      have hxy : ¬(x.mul y).isFinite = true := fun hxy => hy (Binary64.isFinite_of_mul hxy).2
      exact .inr ⟨overflows_finite hxy, h.overflows_bind ((overflows_finite hone).bind _)⟩

theorem value_power_var (name : List Char) (n : Int) :
    value b (power (var name) n) = factors b name >>= fun xs =>
      match xs.getLast? with
      | none => .error (.breakdown .noFactors)
      | some base => raise (product xs.dropLast) base n := rfl

/-- The power of a bound name. -/
theorem value_power_of_mem (h : name ∈ b.names) (n : Int) :
    value b (power (var name) n) = value b (var name) >>= fun x => raise .one x n := by
  obtain ⟨m, hm⟩ := exists_lookup h
  rw [value_power_var, factors_of_lookup hm, value_var_of_lookup hm]
  cases valueOf m <;> rfl

/-- The power of the last of several factors. -/
theorem value_power_of_factors {xs : List Binary64} {z : Binary64}
    (h : factors b name = .ok (xs ++ [z])) (n : Int) :
    value b (power (var name) n) = raise (product xs) z n := by
  rw [value_power_var, h, ok_bind, List.getLast?_concat, List.dropLast_concat]

/-- The last of several factors with an exponent, and the product of the others times its power. -/
theorem sameOutcome_power {first last : List Char}
    (hfactors : factors b name =
      (first :: (names ++ [last])).mapM fun part => value b (var part))
    (hbound : ∀ part ∈ first :: (names ++ [last]), part ∈ b.names) (n : Nat) :
    SameOutcome (value b (power (var name) n))
      (value b (binary .times (writtenOut (var first) names) (power (var last) n))) := by
  have hlast : last ∈ b.names := hbound last (by simp)
  have hinit := sameOutcome_product (hbound first List.mem_cons_self)
    fun part (hpart : part ∈ names) => hbound part (by simp [hpart])
  rw [value_times, value_power_of_mem hlast]
  rw [← List.cons_append, List.mapM_append] at hfactors
  generalize (first :: names).mapM (fun part => value b (var part)) = init at hinit hfactors
  rw [List.mapM_cons, List.mapM_nil] at hfactors
  cases init with
  | error c =>
    rw [error_bind] at hinit hfactors
    rcases hinit with ⟨x, -, hx, -⟩ | ⟨⟨f, hf, hc⟩, hwritten⟩
    · cases hx
    · cases hc
      have hfails : Overflows (value b (power (var name) n)) := by
        rw [value_power_var, hfactors]
        exact ⟨f, hf, rfl⟩
      exact .inr ⟨hfails, hwritten.bind _⟩
  | ok xs =>
    rw [ok_bind] at hinit hfactors
    rcases value_var_cases hlast with ⟨z, -, hv⟩ | hv
    · have hpower : value b (power (var name) n) = raise (product xs) z n := by
        rw [hv] at hfactors
        exact value_power_of_factors hfactors n
      rw [hpower, hv, ok_bind]
      exact sameOutcome_raise hinit z n
    · have hfails : Overflows (value b (power (var name) n)) := by
        rw [value_power_var, hfactors]
        exact ((hv.bind _).bind _).bind _
      exact .inr ⟨hfails, hinit.overflows_bind ((hv.bind _).bind _)⟩

/-! ## Runs of names -/

/-- A name that is not bound is a run of two names at least. -/
theorem exists_parts (hname : name ≠ []) (unbound : b.lookup name = none)
    (h : Name.IsSplit b.names name parts) :
    ∃ first middle last, parts = first :: (middle ++ [last]) := by
  cases parts with
  | nil => exact absurd h.flatten.symm hname
  | cons first more =>
    rcases List.eq_nil_or_concat more with rfl | ⟨middle, last, rfl⟩
    · have hfirst : first = name := by simpa using h.flatten
      obtain ⟨n, hn⟩ := exists_lookup (h.bound first List.mem_cons_self).2
      rw [hfirst, unbound] at hn
      cases hn
    · exact ⟨first, middle, last, by rw [List.concat_eq_append]⟩

/-- A name that is not bound and stands for a run of names has the same outcome as their product, and
with an exponent the same as the product of all but the last name times the power of the last. -/
theorem sameOutcome_of_split (hname : name ≠ []) (unbound : b.lookup name = none)
    (hsplit : Name.split b.names name = some parts) :
    ∃ first middle last, parts = first :: (middle ++ [last]) ∧
      SameOutcome (value b (var name)) (value b (writtenOut (var first) (middle ++ [last]))) ∧
      ∀ n : Nat, SameOutcome (value b (power (var name) n))
        (value b (binary .times (writtenOut (var first) middle) (power (var last) n))) := by
  have his := Name.isSplit_of_split hsplit
  have hfactors := factors_of_split unbound hsplit
  obtain ⟨first, middle, last, rfl⟩ := exists_parts hname unbound his
  have hbound : ∀ part ∈ first :: (middle ++ [last]), part ∈ b.names :=
    fun part hpart => (his.bound part hpart).2
  obtain ⟨hfirst, hmore⟩ := List.forall_mem_cons.1 hbound
  refine ⟨first, middle, last, rfl, ?_, sameOutcome_power hfactors hbound⟩
  show SameOutcome (factors b name >>= fun xs => finite (product xs)) _
  rw [hfactors]
  exact sameOutcome_product hfirst hmore

/-- The square of a number overflows and is then multiplied by zero. -/
theorem sameOutcome_of_split_square_times_zero :
    let b : Bindings := [(['a'], .integer (10 ^ (200 : Nat))), (['b'], .double .zero)]
    "aab".toList ≠ [] ∧ b.lookup "aab".toList = none ∧
      Name.split b.names "aab".toList = some [['a'], ['a'], ['b']] ∧
      ∃ first middle last, [['a'], ['a'], ['b']] = first :: (middle ++ [last]) ∧
        SameOutcome (value b (var "aab".toList))
          (value b (writtenOut (var first) (middle ++ [last]))) ∧
        ∀ n : Nat, SameOutcome (value b (power (var "aab".toList) n))
          (value b (binary .times (writtenOut (var first) middle) (power (var last) n))) := by
  have hname : "aab".toList ≠ [] := by decide
  have unbound : List.lookup "aab".toList
      [(['a'], Number.integer (10 ^ (200 : Nat))), (['b'], .double .zero)] = none := by decide
  have hsplit : Name.split
      (Bindings.names [(['a'], .integer (10 ^ (200 : Nat))), (['b'], .double .zero)]) "aab".toList =
        some [['a'], ['a'], ['b']] := by decide
  exact ⟨hname, unbound, hsplit, sameOutcome_of_split hname unbound hsplit⟩

end Expr
end Reckon
