import Reckon.Proofs.Binary64.Whole
import Reckon.Proofs.Expr.Product

/-!
# Powers of minus one, zero and one

A power of minus one, zero or one is one of these numbers again, whatever the
exponent is. It is computed with the double nearest to the exponent. So there is
none if the exponent is beyond the doubles, and from `2 ^ 53` on an odd exponent
is taken for an even one.

Results:

* `value_power_of_raises`: a power as its coefficient and what is raised.
* `value_power_whole`: the powers of minus one, zero and one.
* `power_exact_iff`: which of them are exact.
-/

namespace Reckon
namespace Expr

open Reckon.Grammar (ok_bind)

/-- What is raised in a power with this base, after a coefficient: of a group its value, of a name
its last factor. -/
inductive Raises (b : Bindings) : Expr → Binary64 → Binary64 → Prop
  | group {inner : Expr} {x : Binary64} (h : value b inner = .ok x) : Raises b (.group inner) .one x
  | name {name : List Char} {xs : List Binary64} {x : Binary64}
      (h : factors b name = .ok (xs ++ [x])) : Raises b (.var name) (product xs) x

/-- The exponents with which a power of minus one, zero or one is exact: they are in the range of
the doubles, and they have at most 53 bits if they are odd and the number is minus one. -/
def IsExact (z : Int) (n : Nat) : Prop :=
  n < Binary64.wholeBound ∧ (z = -1 → n % 2 = 1 → n < 2 ^ 53)

variable {b : Bindings} {base : Expr} {c x : Binary64} {z : Int} {n : Nat}

theorem valueOf_double (x : Binary64) : valueOf (.double x) = finite x := rfl

theorem value_power_group (inner : Expr) (n : Int) :
    value b (.power (.group inner) n) = value b inner >>= fun x => raise .one x n := rfl

/-- A bound name has no coefficient. -/
theorem raises_of_lookup {name : List Char} {number : Number} (h : b.lookup name = some number)
    (hx : value b (.var name) = .ok x) : Raises b (.var name) .one x := by
  have hfactors : factors b name = .ok ([] ++ [x]) := by
    rw [value_var_of_lookup h] at hx
    rw [factors_of_lookup h, hx]
    rfl
  have hproduct : product [] = .one := rfl
  exact hproduct ▸ .name hfactors

/-- A power is its coefficient times the power of what is raised. -/
theorem value_power_of_raises (h : Raises b base c x) (n : Int) :
    value b (.power base n) = raise c x n := by
  cases h with
  | group h => rw [value_power_group, h, ok_bind]
  | name h => exact value_power_of_factors h n

/-- The powers of minus one, zero and one, with the exponent that is rounded to a double. -/
theorem value_power_whole (h : Raises b base c x) (hx : x.IsInt z) (hz : z.natAbs ≤ 1)
    (hn : n < Binary64.wholeBound) :
    ∃ y : Binary64, y.IsInt (z ^ Binary64.nearestWhole n) ∧
      value b (.power base n) = finite (c.mul y) := by
  obtain ⟨y, hy, hint⟩ := Binary64.pow_whole hx hz hn
  refine ⟨y, hint, ?_⟩
  rw [value_power_of_raises h, raise, hy]
  rfl

/-- With an exponent that is beyond the doubles there is no power, not even of one. -/
theorem value_power_tooBig (h : Raises b base c x) (hn : Binary64.wholeBound ≤ n) :
    value b (.power base n) = .error (.fault .powerTooBig) := by
  rw [value_power_of_raises h, raise, Binary64.pow_eq_tooBig x hn]
  rfl

/-- A coefficient of one changes nothing. -/
theorem finite_one_mul {y : Binary64} (hy : y.IsInt z) : finite (Binary64.one.mul y) = .ok y := by
  rw [Binary64.one_mul_of_isFinite hy.1, finite_of_isFinite hy.1]

/-- From `2 ^ 53` on the odd powers of minus one are one. -/
theorem value_power_odd (h : Raises b base c x) (hx : x.IsInt (-1)) (hn : n < Binary64.wholeBound)
    (hlarge : 2 ^ 53 ≤ n) :
    value b (.power base n) = finite (c.mul .one) := by
  obtain ⟨y, hint, hy⟩ := value_power_whole h hx (by decide) hn
  rw [(Binary64.even_nearestWhole hlarge).neg_one_pow] at hint
  rw [hy, hint.eq_one]

/-- Which powers of minus one, zero and one are exact. Of the others there is none if the exponent is
beyond the doubles, and otherwise it is one instead of minus one. -/
theorem power_exact_iff (h : Raises b base c x) (hx : x.IsInt z) (hz : z.natAbs ≤ 1) (n : Nat) :
    (c = .one → ((∃ y : Binary64, value b (.power base n) = .ok y ∧ y.IsInt (z ^ n)) ↔
        IsExact z n)) ∧
      (IsExact z n → ∃ y : Binary64, y.IsInt (z ^ n) ∧
        value b (.power base n) = finite (c.mul y)) ∧
      (¬IsExact z n →
        (Binary64.wholeBound ≤ n ∧ value b (.power base n) = .error (.fault .powerTooBig)) ∨
        (n < Binary64.wholeBound ∧ z ^ n = -1 ∧
          value b (.power base n) = finite (c.mul .one))) := by
  have hexact : IsExact z n → ∃ y : Binary64, y.IsInt (z ^ n) ∧
      value b (.power base n) = finite (c.mul y) := by
    rintro ⟨hn, hodd⟩
    have hpow := value_power_whole h hx hz hn
    rwa [(Binary64.pow_nearestWhole_eq_iff hz).2 hodd] at hpow
  refine ⟨?_, hexact, fun hnot => ?_⟩
  · rintro rfl
    constructor
    · rintro ⟨y, hy, hint⟩
      rcases Nat.lt_or_ge n Binary64.wholeBound with hn | hn
      · obtain ⟨p, hp, hpow⟩ := value_power_whole h hx hz hn
        rw [hpow, finite_one_mul hp] at hy
        cases hy
        exact ⟨hn, (Binary64.pow_nearestWhole_eq_iff hz).1 (hp.unique hint)⟩
      · rw [value_power_tooBig h hn] at hy
        cases hy
    · intro hn
      obtain ⟨y, hint, hy⟩ := hexact hn
      exact ⟨y, by rw [hy, finite_one_mul hint], hint⟩
  · rcases Nat.lt_or_ge n Binary64.wholeBound with hn | hn
    · simp only [IsExact, hn, true_and, not_forall, Nat.not_lt] at hnot
      obtain ⟨rfl, hodd, hlarge⟩ := hnot
      exact .inr ⟨hn, (Nat.odd_iff.2 hodd).neg_one_pow, value_power_odd h hx hn hlarge⟩
    · exact .inl ⟨hn, value_power_tooBig h hn⟩

/-- A name for minus one. -/
theorem raises_minus_one :
    Raises [(['a'], .double Binary64.one.neg)] (.var ['a']) .one Binary64.one.neg := by
  have hlookup : List.lookup ['a'] [(['a'], Number.double Binary64.one.neg)] =
      some (.double Binary64.one.neg) := by simp
  refine raises_of_lookup hlookup ?_
  rw [value_var_of_lookup hlookup, valueOf_double]
  exact finite_of_isFinite rfl

/-- The greatest odd power of minus one that is computed. -/
theorem power_exact_iff_minus_one :
    let b : Bindings := [(['a'], .double Binary64.one.neg)]
    Raises b (.var ['a']) .one Binary64.one.neg ∧ Binary64.one.neg.IsInt (-1) ∧
      (-1 : Int).natAbs ≤ 1 ∧ IsExact (-1) 9007199254740991 ∧
      ∃ y : Binary64, value b (.power (.var ['a']) (9007199254740991 : Nat)) = .ok y ∧
        y.IsInt ((-1) ^ 9007199254740991) := by
  have hint : Binary64.one.neg.IsInt (-1) := Binary64.isInt_one.neg
  have hexact : IsExact (-1) 9007199254740991 := by
    refine ⟨?_, fun _ _ => by decide⟩
    decide +kernel
  have hpower := power_exact_iff raises_minus_one hint (by decide) 9007199254740991
  exact ⟨raises_minus_one, hint, by decide, hexact, (hpower.1 rfl).2 hexact⟩

/-- The first power of minus one that is not exact. -/
theorem not_exact_power :
    let b : Bindings := [(['a'], .double Binary64.one.neg)]
    Expr.parse "a^9007199254740993".toList = .ok (.power (.var ['a']) (9007199254740993 : Nat)) ∧
      value b (.power (.var ['a']) (9007199254740993 : Nat)) = .ok .one ∧
      ¬∃ y : Binary64, value b (.power (.var ['a']) (9007199254740993 : Nat)) = .ok y ∧
        y.IsInt ((-1) ^ 9007199254740993) := by
  have hcheck : Token.check "a^9007199254740993".toList = .ok [⟨.identifier, ['a'], 0⟩,
      ⟨.caret, ['^'], 1⟩, ⟨.number, "9007199254740993".toList, 2⟩] := by
    decide +kernel
  have hparse : Expr.parse "a^9007199254740993".toList =
      .ok (.power (.var ['a']) (9007199254740993 : Nat)) := by
    rw [Grammar.parse_of_check hcheck]
    cbv
  have hrange : 9007199254740993 < Binary64.wholeBound := by decide +kernel
  have hvalue := value_power_odd raises_minus_one Binary64.isInt_one.neg hrange (by decide)
  rw [finite_one_mul Binary64.isInt_one] at hvalue
  refine ⟨hparse, hvalue, ?_⟩
  rintro ⟨y, hy, hint⟩
  rw [hvalue] at hy
  cases hy
  have hodd : (-1 : Int) ^ 9007199254740993 = -1 := Odd.neg_one_pow (by decide)
  rw [hodd] at hint
  cases Binary64.isInt_one.unique hint

end Expr
end Reckon
