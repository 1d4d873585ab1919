import Reckon.Proofs.Decimal.Grid
import Reckon.Proofs.Entry.Numeral

/-!
# Six significant digits

A double that is written in six significant digits is read back as the double
nearest to these digits (`sixDigits`), which need not be the one that has been
written. Rounding never leaves the range of the doubles: the digits that the
greatest double begins with are rounded down.

Results:

* `isFinite_sixDigits`: six digits of a double stand for a double again.
* `number_writtenShort`: what a field reads where a double is written in six digits.
-/

namespace Reckon

namespace Binary64

/-! ## Bounds on rounded quotients -/

/-- A quotient is not rounded beyond a double that is above it. -/
theorem nearestUnits_le_of_le {n d u : Nat} (hd : 0 < d) (hu : Representable u) (h : n ≤ u * d) :
    nearestUnits n d ≤ u := by
  have hq : n / d ≤ u := Nat.div_le_of_le_mul (by rwa [Nat.mul_comm])
  obtain ⟨k, hk⟩ : 2 ^ excess (n / d) ∣ u :=
    Nat.dvd_trans (Nat.pow_dvd_pow 2 (excess_mono hq)) (Nat.dvd_of_mod_eq_zero hu.1)
  have hround : halfEven n (d * 2 ^ excess (n / d)) ≤ k := by
    apply halfEven_le_of_le (Nat.mul_pos hd (Nat.two_pow_pos _))
    calc n ≤ u * d := h
      _ = 2 ^ excess (n / d) * k * d := by rw [← hk]
      _ = k * (d * 2 ^ excess (n / d)) := by ac_rfl
  calc nearestUnits n d ≤ k * 2 ^ excess (n / d) := Nat.mul_le_mul_right _ hround
    _ = u := by rw [Nat.mul_comm, ← hk]

/-- The units of the greatest double. -/
def greatest : Nat := (2 ^ 53 - 1) * 2 ^ (2045 : Nat)

theorem representable_greatest : Representable greatest := by decide +kernel

/-- A quotient that is at most the greatest double is rounded to a double. -/
theorem isFinite_ofRatio {s : Bool} {n d : Nat} (hd : 0 < d) (h : n ≤ greatest * d) :
    (ofRatio s n d).isFinite = true := by
  have hle := nearestUnits_le_of_le hd representable_greatest h
  unfold ofRatio
  rw [dif_pos (Nat.lt_of_le_of_lt hle representable_greatest.2)]
  rfl

/-! ## Six digits as a whole number -/

/-- The six digits of a double as a whole number. -/
def sixDigitsCoefficient (u : Nat) : Nat :=
  halfEven (u * 10 ^ (-(leadingPlace u - 5)).toNat) (unit * 10 ^ (leadingPlace u - 5).toNat)

theorem sixDigitsCoefficient_le {u : Nat} (hu : u ≠ 0) : sixDigitsCoefficient u ≤ 10 ^ 6 :=
  nearOnGrid_le hu 5

/-- The six digits do not leave the range of the doubles. -/
theorem sixDigits_le_greatest {u : Nat} (hu : u ≠ 0) (h : u < bound) :
    sixDigitsCoefficient u * 10 ^ (leadingPlace u - 5).toNat * unit ≤ greatest := by
  have hsix := sixDigitsCoefficient_le hu
  have hhigh := leadingPlace_le h
  by_cases hplace : leadingPlace u = 308
  · -- the greatest doubles begin with the digits 179769, and the next digit is rounded down
    have hgrid : sixDigitsCoefficient u = halfEven u (unit * 10 ^ (303 : Nat)) := by
      have hlow : (-(308 - 5 : Int)).toNat = 0 := rfl
      have hexp : (308 - 5 : Int).toNat = 303 := rfl
      rw [sixDigitsCoefficient, hplace, hlow, hexp, Nat.pow_zero, Nat.mul_one]
    have hfirst : sixDigitsCoefficient u ≤ 179769 := by
      have hpos : 0 < unit * 10 ^ (303 : Nat) := by decide +kernel
      have hmax : 2 * bound + unit * 10 ^ (303 : Nat) ≤
          2 * (179770 * (unit * 10 ^ (303 : Nat))) := by decide +kernel
      rw [hgrid]
      generalize unit * 10 ^ (303 : Nat) = width at hpos hmax ⊢
      have hround := two_mul_halfEven_le u width hpos
      by_contra hlt
      have hmul : 179770 * width ≤ halfEven u width * width :=
        Nat.mul_le_mul_right _ (by omega)
      omega
    have hexp : (308 - 5 : Int).toNat = 303 := rfl
    have hmax : 179769 * 10 ^ (303 : Nat) * unit ≤ greatest := by decide +kernel
    rw [hplace, hexp]
    exact Nat.le_trans (Nat.mul_le_mul_right _ (Nat.mul_le_mul_right _ hfirst)) hmax
  · have hle : (leadingPlace u - 5).toNat ≤ 302 := by omega
    have hexp := Nat.pow_le_pow_right (n := 10) (by decide) hle
    have hmax : 10 ^ 6 * 10 ^ (302 : Nat) * unit ≤ greatest := by decide +kernel
    exact Nat.le_trans (Nat.mul_le_mul_right _ (Nat.mul_le_mul hsix hexp)) hmax

/-! ## Six digits as a double -/

/-- The double that the six digits of a double stand for. -/
def sixDigits : Binary64 → Binary64
  | .finite s u _ => Decimal.toBinary64 { toSixDigits u with negative := s }
  | x => x

theorem toBinary64_toSixDigits {u : Nat} (hu : u ≠ 0) (s : Bool) :
    Decimal.toBinary64 { toSixDigits u with negative := s } =
      (Decimal.mk s (sixDigitsCoefficient u) (leadingPlace u - 5)).toBinary64 := by
  have hdigits : toSixDigits u =
      (Decimal.mk false (sixDigitsCoefficient u) (leadingPlace u - 5)).normalize := by
    unfold toSixDigits
    rw [if_neg hu]
    dsimp only
    rw [onGrid_eq]
    rfl
  rw [hdigits, Decimal.normalize_withSign, Decimal.toBinary64_normalize]

/-- Six digits of a double stand for a double again. -/
theorem isFinite_sixDigits {x : Binary64} (h : x.isFinite = true) :
    x.sixDigits.isFinite = true := by
  cases x with
  | infinite s => cases h
  | nan => cases h
  | finite s u hu =>
    unfold sixDigits
    dsimp only
    by_cases hzero : u = 0
    · subst hzero
      rfl
    rw [toBinary64_toSixDigits hzero]
    have hsix := sixDigitsCoefficient_le hzero
    have hgreatest := sixDigits_le_greatest hzero hu.2
    have hplace := leadingPlace_le hu.2
    generalize sixDigitsCoefficient u = c at hsix hgreatest ⊢
    generalize leadingPlace u = p at hgreatest hplace ⊢
    by_cases hsmall : c = 0 ∨ (Decimal.mk s c (p - 5)).magnitudePlace < -400
    · unfold Decimal.toBinary64
      rw [if_pos hsmall]
      rfl
    have hlength : (Decimal.digits c).length ≤ 7 :=
      (Decimal.length_digits_le_iff (by decide)).2 (Nat.lt_of_le_of_lt hsix (by decide))
    have hmagnitude : (Decimal.mk s c (p - 5)).magnitudePlace ≤ 400 := by
      unfold Decimal.magnitudePlace
      dsimp only
      omega
    rw [not_or] at hsmall
    have hratio := Decimal.toBinary64_eq_ofRatio (d := ⟨s, c, p - 5⟩) hsmall.1 (by omega) hmagnitude
    rw [hratio]
    exact isFinite_ofRatio (Nat.pow_pos (by decide))
      (Nat.le_trans hgreatest (Nat.le_mul_of_pos_right _ (Nat.pow_pos (by decide))))

/-- What a field reads where a double is written in six digits. -/
theorem number_writtenShort {x : Binary64} (h : x.isFinite = true) :
    Entry.number x.writtenShort = x.sixDigits := by
  have hsix := isFinite_sixDigits h
  cases x with
  | infinite s => cases h
  | nan => cases h
  | finite s u hu =>
    obtain ⟨n, hn, -⟩ := Numeral.exists_numeral .general { toSixDigits u with negative := s }
    have hread : Entry.binary64? (Binary64.writtenShort (.finite s u hu)) =
        some (sixDigits (.finite s u hu)) := by
      have htext := Entry.binary64?_text hn.toWellFormed
      rw [hn.text_eq, hn.value] at htext
      exact htext
    unfold Entry.number
    rw [hread]
    generalize sixDigits (.finite s u hu) = y at hsix ⊢
    cases y with
    | finite t v hv => rfl
    | infinite t => cases hsix
    | nan => cases hsix

end Binary64
end Reckon
