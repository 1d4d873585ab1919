import Reckon.Display
import Reckon.Proofs.Decimal.Shortest

/-!
# Values shown with places

The shortest decimal of a double has so few digits that neither the room for
the digits before the point nor the bound on the significant digits is ever
felt. What is shown is the decimal rounded to the places asked for, in a
numeral without trailing zeros, and a value is said to be exact only if the
numeral stands for it.

Results:

* `exists_plain`: the parts of a numeral without trailing zeros.
* `asDecimal_finite`: every finite double is rounded to places.
* `value_eq_rounded`: what is shown for a finite double.
-/

namespace Reckon

/-- A numeral without a power of ten, with at most `n` places and no zero at their end. Only a
number that is not zero has a sign. -/
structure Numeral.Plain (m : Numeral) (n : Nat) : Prop extends m.WellFormed where
  power : m.power = none
  length_places : m.places.length ≤ n
  last : m.places.getLast? ≠ some '0'
  signed : m.negative = true → m.toDecimal.toRat ≠ 0

namespace Numeral

/-- The places of a number that does not end in zero do not end in zero. -/
theorem getLast?_places_withPlaces (s : Bool) {c : Nat} (hc : c % 10 ≠ 0) (k : Nat) :
    (withPlaces s c k).places.getLast? ≠ some '0' := by
  show ((Decimal.padded k c).drop ((Decimal.padded k c).length - k)).getLast? ≠ some '0'
  rw [List.getLast?_drop]
  split
  · exact (Option.some_ne_none '0').symm
  · rw [Decimal.padded, List.getLast?_append_of_ne_nil _ (Decimal.digits_ne_nil c)]
    exact Decimal.getLast?_digits_ne_zero hc

/-- A number that does not end in zero is written in a numeral without trailing zeros. -/
theorem exists_plain_of_mod (s : Bool) {c n : Nat} {e : Int} (hc : c % 10 ≠ 0) (hn : -(n : Int) ≤ e) :
    ∃ m : Numeral, m.Plain n ∧ m.text = Decimal.plain ⟨s, c, e⟩ ∧
      m.toDecimal.toRat = (Decimal.mk s c e).toRat := by
  have hsigned : (Decimal.mk s c e).toRat ≠ 0 := by
    rw [ne_eq, Decimal.toRat_eq_zero_iff]
    rintro rfl
    exact hc rfl
  cases e with
  | ofNat k =>
    have hwrites := writes_whole s c k false
    rw [if_neg Bool.false_ne_true, if_neg Bool.false_ne_true, List.append_nil] at hwrites
    exact ⟨_, ⟨hwrites.toWellFormed, rfl, Nat.zero_le n, (Option.some_ne_none '0').symm,
      fun _ => hwrites.ratio ▸ hsigned⟩, hwrites.text_eq, hwrites.ratio⟩
  | negSucc k =>
    have hwrites := writes_places s c k
    have hlength := length_places_withPlaces s c (k + 1)
    exact ⟨_, ⟨hwrites.toWellFormed, rfl, by omega, getLast?_places_withPlaces s hc (k + 1),
      fun _ => hwrites.ratio ▸ hsigned⟩, hwrites.text_eq, hwrites.ratio⟩

end Numeral

namespace Decimal

@[simp] theorem toPrecision_of_lt {d : Decimal} {n : Nat} (hn : 0 < n)
    (h : d.coefficient < 10 ^ n) : d.toPrecision n = d := by
  have hlength := (length_digits_le_iff hn).2 h
  rw [toPrecision, Nat.sub_eq_zero_of_le hlength, dropDigits_zero]

/-! ## Rounded numbers -/

theorem neg_le_exponent_toPlaces (n : Nat) (d : Decimal) : -(n : Int) ≤ (d.toPlaces n).exponent := by
  show -(n : Int) ≤ d.exponent + ((-d.exponent - n).toNat : Int)
  omega

theorem exponent_toPlaces_le (n : Nat) (d : Decimal) :
    (d.toPlaces n).exponent ≤ max d.exponent 0 := by
  show d.exponent + ((-d.exponent - n).toNat : Int) ≤ max d.exponent 0
  omega

theorem coefficient_toPlaces_le (n : Nat) (d : Decimal) :
    (d.toPlaces n).coefficient ≤ d.coefficient := by
  have hten := Binary64.ten_pow_pos (-d.exponent - n).toNat
  exact halfEven_le_of_le hten (Nat.le_mul_of_pos_right _ hten)

/-- A number that has no places stays as it is. -/
theorem toPlaces_of_nonneg {d : Decimal} (h : 0 ≤ d.exponent) (n : Nat) : d.toPlaces n = d := by
  have hnone : (-d.exponent - n).toNat = 0 := by omega
  rw [toPlaces, hnone, dropDigits_zero]

end Decimal

namespace Display

open Decimal (RoundsTo)

/-- What is shown for a decimal number is a numeral without trailing zeros. -/
theorem exists_plain {d : Decimal} {n : Nat} (hc : d.coefficient < 10 ^ significantDigits)
    (hn : -(n : Int) ≤ d.exponent) :
    ∃ m : Numeral, m.Plain n ∧ m.text = plainText d ∧ m.toDecimal.toRat = d.toRat := by
  rw [plainText, Decimal.toPrecision_of_lt (by decide) hc]
  split
  · rename_i hzero
    have hwrites := Numeral.writes_whole false 0 0 false
    rw [Decimal.toRat_eq_zero_iff.2 hzero]
    exact ⟨_, ⟨hwrites.toWellFormed, rfl, Nat.zero_le n, (Option.some_ne_none '0').symm,
      fun h => absurd h Bool.false_ne_true⟩, hwrites.text_eq, rfl⟩
  · rename_i hne
    obtain ⟨s, c, e⟩ := d
    obtain ⟨m, t, -, hm, hnormalize⟩ := Binary64.exists_normalize s hne e
    have ht : -(n : Int) ≤ e + (t : Nat) := by
      have : -(n : Int) ≤ e := hn
      omega
    obtain ⟨numeral, hplain, htext, hratio⟩ := Numeral.exists_plain_of_mod s hm ht
    rw [← Decimal.toRat_normalize, hnormalize]
    exact ⟨numeral, hplain, htext, hratio⟩

example : plainText (Decimal.toPlaces 1 ⟨true, 4, -2⟩) = ['0'] := by decide +kernel

/-! ## Finite doubles -/

theorem roundingPlaces_of_room {n : Int} (room : n.toNat + reserveDigits ≤ digitLimit) :
    roundingPlaces (some n) = .ok n.toNat := by
  have hcount : ¬ (2 : Int) ^ 63 ≤ n.toNat + reserveDigits := by
    have : (digitLimit : Int) < 2 ^ 63 := by decide
    omega
  rw [roundingPlaces, if_neg hcount, if_neg (Nat.not_lt.2 room)]

/-- There is room before the point for every decimal that is rounded. -/
theorem atPlaces_of_lt {d : Decimal} (hdigits : d.coefficient < 10 ^ 17) (hexponent : d.exponent ≤ 16)
    (n : Nat) : atPlaces n d = .ok ⟨plainText (d.toPlaces n), !(d.toPlaces n).sameMagnitude d⟩ := by
  have hlength : (Decimal.digits (d.toPlaces n).coefficient).length ≤ 17 :=
    (Decimal.length_digits_le_iff (by decide)).2
      (Nat.lt_of_le_of_lt (Decimal.coefficient_toPlaces_le n d) hdigits)
  have hround := Decimal.exponent_toPlaces_le n d
  have hmagnitude : (d.toPlaces n).magnitudePlace =
    (Decimal.digits (d.toPlaces n).coefficient).length + (d.toPlaces n).exponent := rfl
  have hreserve : reserveDigits = 64 := rfl
  rw [atPlaces, if_neg (by omega)]

/-- Every finite double is rounded to the places asked for; a whole one has none. -/
theorem asDecimal_finite {x : Binary64} {d : Decimal} (hd : x.toDecimal? = some d) {n : Int}
    (room : n.toNat + reserveDigits ≤ digitLimit) :
    asDecimal (some n) (.double x) =
      .ok ⟨plainText (d.toPlaces n.toNat), !(d.toPlaces n.toNat).sameMagnitude d⟩ := by
  unfold asDecimal
  simp only [hd]
  split
  · rename_i hwhole
    have hsame : d.sameMagnitude d = true := (Decimal.sameMagnitude_iff rfl).2 rfl
    rw [Decimal.toPlaces_of_nonneg (Binary64.exponent_nonneg_of_isWhole hd hwhole), hsame]
    rfl
  · rename_i hwhole
    rw [roundingPlaces_of_room room]
    exact atPlaces_of_lt (Binary64.coefficient_lt_of_toDecimal? hd)
      (Binary64.exponent_le_of_not_isWhole hd hwhole) n.toNat

/-- A finite double is shown as its decimal rounded half to even to the places asked for, none if
their number is negative. The text is a numeral without trailing zeros, and it is said to be exact
if and only if it stands for the decimal. -/
theorem value_eq_rounded {x : Binary64} (hx : x.isFinite = true) {n : Int}
    (room : n.toNat + reserveDigits ≤ digitLimit) :
    ∃ (d : Decimal) (m : Numeral) (rounded : Bool),
      x.toDecimal? = some d ∧ x.Denotes d.toRat ∧
      value ⟨some n, false⟩ (.double x) = .ok ⟨m.text, rounded⟩ ∧
      m.Plain n.toNat ∧ RoundsTo n.toNat d.toRat m.toDecimal.toRat ∧
      (rounded = true ↔ m.toDecimal.toRat ≠ d.toRat) ∧
      outcome ⟨some n, false⟩ (.value x) =
        .ok ((if m.toDecimal.toRat = d.toRat then '=' else '≈') :: ' ' :: m.text) := by
  obtain ⟨d, hd, hdenotes⟩ := Binary64.exists_denotes hx
  have hshown : value ⟨some n, false⟩ (.double x) = _ := asDecimal_finite hd room
  have hdigits : (d.toPlaces n.toNat).coefficient < 10 ^ significantDigits := by
    calc (d.toPlaces n.toNat).coefficient ≤ d.coefficient := Decimal.coefficient_toPlaces_le _ d
      _ < 10 ^ 17 := Binary64.coefficient_lt_of_toDecimal? hd
      _ < 10 ^ significantDigits := by decide
  obtain ⟨m, hplain, htext, hratio⟩ :=
    exists_plain hdigits (Decimal.neg_le_exponent_toPlaces n.toNat d)
  have hsame : (d.toPlaces n.toNat).sameMagnitude d = true ↔ m.toDecimal.toRat = d.toRat := by
    rw [hratio]
    exact Decimal.sameMagnitude_iff rfl
  have hrounded : (!(d.toPlaces n.toNat).sameMagnitude d) = true ↔ m.toDecimal.toRat ≠ d.toRat := by
    rw [Bool.not_eq_true', ← Bool.not_eq_true, not_congr hsame]
  rw [← htext] at hshown
  refine ⟨d, m, _, hd, hdenotes, hshown, hplain, ?_, hrounded, ?_⟩
  · rw [hratio]
    exact Decimal.roundsTo_toPlaces n.toNat d
  · rw [outcome, hshown]
    show Except.ok _ = _
    simp only [hrounded, ite_not]

/-- Two and a half without places. -/
theorem value_eq_rounded_tie :
    ((Decimal.mk false 25 (-1)).toBinary64.isFinite = true ∧
      (0 : Int).toNat + reserveDigits ≤ digitLimit) ∧
    ∃ (d : Decimal) (m : Numeral) (rounded : Bool),
      (Decimal.mk false 25 (-1)).toBinary64.toDecimal? = some d ∧
      (Decimal.mk false 25 (-1)).toBinary64.Denotes d.toRat ∧
      value ⟨some 0, false⟩ (.double (Decimal.mk false 25 (-1)).toBinary64) =
        .ok ⟨m.text, rounded⟩ ∧
      m.Plain 0 ∧ RoundsTo 0 d.toRat m.toDecimal.toRat ∧
      (rounded = true ↔ m.toDecimal.toRat ≠ d.toRat) ∧
      outcome ⟨some 0, false⟩ (.value (Decimal.mk false 25 (-1)).toBinary64) =
        .ok ((if m.toDecimal.toRat = d.toRat then '=' else '≈') :: ' ' :: m.text) := by
  have hfinite : (Decimal.mk false 25 (-1)).toBinary64.isFinite = true := by decide +kernel
  have hroom : (0 : Int).toNat + reserveDigits ≤ digitLimit := by decide
  exact ⟨⟨hfinite, hroom⟩, value_eq_rounded hfinite hroom⟩

end Display
end Reckon
