import Reckon.Display
import Reckon.Proofs.Decimal.Shortest
import Reckon.Proofs.Ratio.Nearest

/-!
# Values shown as fractions

What is shown for a ratio is a whole number, a proper fraction, or a whole
number and a proper fraction, with a sign that stands for all of it, and its
parts are in lowest terms. The ratio of a finite double is the nearest one to
its decimal that has a denominator within the limit.

Results:

* `exists_mixed`: the parts of the text for a ratio.
* `value_eq_nearest`: what is shown for a finite double.
-/

namespace Reckon

open Decimal (digits sign signFactor)

/-! ## Mixed numbers -/

/-- The parts of a fraction as it is shown. -/
inductive Mixed where
  | whole (negative : Bool) (w : Nat)
  | proper (negative : Bool) (p q : Nat)
  | both (negative : Bool) (w p q : Nat)

namespace Mixed

/-- A fraction without its sign and its whole part. -/
def properText (p q : Nat) : List Char := digits p ++ '/' :: digits q

def text : Mixed → List Char
  | whole s w => sign s ++ digits w
  | proper s p q => sign s ++ properText p q
  | both s w p q => sign s ++ (digits w ++ ' ' :: properText p q)

/-- The ratio that a mixed number stands for. -/
def value : Mixed → Rat
  | whole s w => signFactor s * w
  | proper s p q => signFactor s * (p / q)
  | both s w p q => signFactor s * (w + p / q)

/-- A fraction between zero and one in lowest terms. -/
structure IsProper (limit p q : Nat) : Prop where
  pos : 0 < p
  lt : p < q
  coprime : Nat.Coprime p q
  within : q ≤ limit

/-- No part is zero that need not be shown, and the fraction is proper. -/
def LowestTerms (limit : Nat) : Mixed → Prop
  | whole s w => s = true → w ≠ 0
  | proper _ p q => IsProper limit p q
  | both _ w p q => 1 ≤ w ∧ IsProper limit p q

end Mixed

namespace Display

theorem signFactor_mul_natAbs (n : Int) : signFactor (n < 0) * (n.natAbs : Int) = n := by
  by_cases h : n < 0
  · rw [decide_eq_true h, signFactor, if_pos rfl]
    omega
  · rw [decide_eq_false h, signFactor, if_neg Bool.false_ne_true]
    omega

/-- A ratio by its sign and its magnitude. -/
theorem signFactor_mul_div (r : Rat) : signFactor (r.num < 0) * (r.num.natAbs / r.den : Rat) = r := by
  have hnum : (signFactor (r.num < 0) * ((r.num.natAbs : Int) : Rat) : Rat) = r.num := by
    rw [← Int.cast_mul, signFactor_mul_natAbs]
  rw [← mul_div_assoc, ← Int.cast_natCast r.num.natAbs, hnum, Rat.num_div_den]

/-- The numerator of a ratio that is not whole leaves something over. -/
theorem natAbs_num_mod_pos {r : Rat} (h : r.den ≠ 1) : 0 < r.num.natAbs % r.den := by
  apply Nat.pos_of_ne_zero
  intro hzero
  exact h (r.reduced.symm.eq_one_of_dvd (Nat.dvd_of_mod_eq_zero hzero))

/-- What is shown for a ratio is a mixed number in lowest terms. -/
theorem exists_mixed {limit : Nat} {r : Rat} (h : r.den ≤ limit) :
    ∃ f : Mixed, f.LowestTerms limit ∧ f.text = fractionText r ∧ f.value = r := by
  have hvalue := signFactor_mul_div r
  have hden := r.den_pos
  unfold fractionText
  split
  · rename_i hone
    refine ⟨.whole (r.num < 0) r.num.natAbs, ?_, rfl, ?_⟩
    · intro hnegative
      have := of_decide_eq_true hnegative
      omega
    · rwa [hone, Nat.cast_one, div_one] at hvalue
  · rename_i hne
    have hmod := natAbs_num_mod_pos hne
    have hlt : r.num.natAbs % r.den < r.den := Nat.mod_lt _ hden
    dsimp only
    split
    · rename_i hgt
      have hcoprime : Nat.Coprime (r.num.natAbs % r.den) r.den := by
        rw [Nat.Coprime, ← Nat.gcd_rec, Nat.gcd_comm]
        exact r.reduced
      have hsplit : ((r.num.natAbs / r.den : Nat) + (r.num.natAbs % r.den : Nat) / r.den : Rat) =
          r.num.natAbs / r.den := by
        have hne : (r.den : Rat) ≠ 0 := Nat.cast_ne_zero.2 hden.ne'
        rw [eq_div_iff hne, add_mul, div_mul_cancel₀ _ hne]
        exact_mod_cast Nat.div_add_mod' r.num.natAbs r.den
      exact ⟨.both (r.num < 0) (r.num.natAbs / r.den) (r.num.natAbs % r.den) r.den,
        ⟨(Nat.one_le_div_iff hden).2 hgt.le, hmod, hlt, hcoprime, h⟩, rfl, by rwa [← hsplit] at hvalue⟩
    · rename_i hle
      have hless : r.num.natAbs < r.den := by
        refine lt_of_le_of_ne (Nat.le_of_not_lt hle) fun heq => ?_
        rw [heq, Nat.mod_self] at hmod
        exact Nat.lt_irrefl 0 hmod
      rw [Nat.mod_eq_of_lt hless] at hmod
      exact ⟨.proper (r.num < 0) r.num.natAbs r.den, ⟨hmod, hless, r.reduced, h⟩, rfl, hvalue⟩

example : fractionText (-3 / 2) = "-1 1/2".toList := by decide +kernel

/-- A finite double is shown as a mixed number in lowest terms, and no fraction with a denominator
within the limit is nearer to its decimal. The text is said to be exact if and only if it stands for
the decimal. -/
theorem value_eq_nearest {x : Binary64} (hx : x.isFinite = true) (places : Option Int) :
    ∃ (d : Decimal) (f : Mixed) (rounded : Bool),
      x.toDecimal? = some d ∧ x.Denotes d.toRat ∧
      value ⟨places, true⟩ (.double x) = .ok ⟨f.text, rounded⟩ ∧
      f.LowestTerms denominatorLimit ∧
      (∀ r : Rat, r.den ≤ denominatorLimit → |d.toRat - f.value| ≤ |d.toRat - r|) ∧
      (rounded = true ↔ f.value ≠ d.toRat) := by
  have hlimit : 0 < denominatorLimit := by decide
  obtain ⟨d, hd, hdenotes⟩ := Binary64.exists_denotes hx
  obtain ⟨f, hterms, htext, hvalue⟩ := exists_mixed (Ratio.den_nearest_le hlimit d.toRat)
  have hshown : value ⟨places, true⟩ (.double x) = .ok (nearestFraction d.toRat) := by
    show asFraction (.double x) = _
    unfold asFraction
    simp only [hd]
  refine ⟨d, f, Ratio.nearest denominatorLimit d.toRat != d.toRat, hd, hdenotes, ?_, hterms, ?_, ?_⟩
  · rw [hshown, nearestFraction, htext]
  · intro r hr
    rw [hvalue]
    exact Ratio.abs_sub_nearest_le hlimit d.toRat hr
  · rw [hvalue, bne_iff_ne]

/-- One and a half below zero. -/
theorem value_eq_nearest_mixed :
    (Decimal.mk true 15 (-1)).toBinary64.isFinite = true ∧
    ∃ (d : Decimal) (f : Mixed) (rounded : Bool),
      (Decimal.mk true 15 (-1)).toBinary64.toDecimal? = some d ∧
      (Decimal.mk true 15 (-1)).toBinary64.Denotes d.toRat ∧
      value ⟨none, true⟩ (.double (Decimal.mk true 15 (-1)).toBinary64) = .ok ⟨f.text, rounded⟩ ∧
      f.LowestTerms denominatorLimit ∧
      (∀ r : Rat, r.den ≤ denominatorLimit → |d.toRat - f.value| ≤ |d.toRat - r|) ∧
      (rounded = true ↔ f.value ≠ d.toRat) := by
  have hfinite : (Decimal.mk true 15 (-1)).toBinary64.isFinite = true := by decide +kernel
  exact ⟨hfinite, value_eq_nearest hfinite none⟩

end Display
end Reckon
