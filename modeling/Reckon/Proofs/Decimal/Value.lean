import Reckon.Decimal.Shortest
import Reckon.Proofs.Decimal.Digits

/-!
# Decimal numbers of one value

A decimal number with zeros moved between its coefficient and its exponent is
read as the same double. So the shortest decimal of a double is read as that
double, also with its trailing zeros taken off.

Results:

* `toBinary64_mul_pow`: a zero more in the coefficient for one less in the exponent.
* `toBinary64_normalize`: taking trailing zeros off makes no difference.
* `toBinary64_shortest`: the decimal that is written for a double is read as it.
-/

namespace Reckon

/-! ## Quotients -/

/-- A quotient in other terms is rounded to the same whole number. -/
theorem halfEven_mul_right (n d : Nat) {m : Nat} (hm : 0 < m) :
    halfEven (n * m) (d * m) = halfEven n d := by
  unfold halfEven
  have hlt : 2 * (n % d * m) < d * m ↔ 2 * (n % d) < d := by
    rw [← Nat.mul_assoc]
    exact Nat.mul_lt_mul_right hm
  have heq : 2 * (n % d * m) = d * m ↔ 2 * (n % d) = d := by
    rw [← Nat.mul_assoc]
    exact Nat.mul_left_inj (Nat.ne_of_gt hm)
  rw [Nat.mul_mod_mul_right, Nat.mul_div_mul_right _ _ hm]
  simp only [hlt, heq]

namespace Binary64

theorem nearestUnits_mul_right (n d : Nat) {m : Nat} (hm : 0 < m) :
    nearestUnits (n * m) (d * m) = nearestUnits n d := by
  unfold nearestUnits
  rw [Nat.mul_div_mul_right _ _ hm, Nat.mul_right_comm, halfEven_mul_right _ _ hm]

theorem ofRatio_mul_right (s : Bool) (n d : Nat) {m : Nat} (hm : 0 < m) :
    ofRatio s (n * m) (d * m) = ofRatio s n d := by
  unfold ofRatio
  simp only [nearestUnits_mul_right n d hm]

/-- Equal quotients are rounded to the same double. -/
theorem ofRatio_congr (s : Bool) {n d n' d' : Nat} (hd : 0 < d) (hd' : 0 < d')
    (h : n * d' = n' * d) : ofRatio s n d = ofRatio s n' d' := by
  rw [← ofRatio_mul_right s n d hd', h, ← ofRatio_mul_right s n' d' hd, Nat.mul_comm d' d]

/-- The sign of a quotient is that of its double. -/
theorem ofRatio_of_finite {s s' t : Bool} {n d u : Nat} {h : Representable u}
    (hratio : ofRatio s n d = .finite s' u h) : ofRatio t n d = .finite t u h := by
  unfold ofRatio at hratio ⊢
  split at hratio
  · cases hratio
    rw [dif_pos ‹_›]
  · cases hratio

end Binary64

namespace Decimal

open Binary64 (unit ofRatio)

/-! ## The double of a decimal number -/

/-- A number in range is a quotient of units, with one of the two powers of ten being one. -/
theorem toBinary64_eq_ofRatio {d : Decimal} (hc : d.coefficient ≠ 0)
    (hlow : -400 ≤ d.magnitudePlace) (hhigh : d.magnitudePlace ≤ 400) :
    d.toBinary64 = ofRatio d.negative (d.coefficient * 10 ^ d.exponent.toNat * unit)
      (10 ^ (-d.exponent).toNat) := by
  unfold toBinary64
  rw [if_neg (by omega), if_neg (by omega)]
  cases d.exponent with
  | ofNat k => simp
  | negSucc k =>
    have hzero : (Int.negSucc k).toNat = 0 := rfl
    have hsucc : (-Int.negSucc k).toNat = k + 1 := rfl
    rw [hzero, hsucc, Nat.pow_zero, Nat.mul_one]

/-- A zero more in the coefficient for one less in the exponent. -/
theorem toBinary64_mul_pow (s : Bool) (c k : Nat) (e : Int) :
    (Decimal.mk s (c * 10 ^ k) e).toBinary64 = (Decimal.mk s c (e + k)).toBinary64 := by
  by_cases hc : c = 0
  · simp [toBinary64, hc]
  have hpow : 0 < 10 ^ k := Nat.pow_pos (by decide)
  have hc' : c * 10 ^ k ≠ 0 := Nat.mul_ne_zero hc (Nat.ne_of_gt hpow)
  have hplace : (Decimal.mk s (c * 10 ^ k) e).magnitudePlace =
      (Decimal.mk s c (e + k)).magnitudePlace := by
    unfold magnitudePlace
    dsimp only
    rw [digits_mul_pow hc, List.length_append, List.length_replicate]
    omega
  by_cases hlow : (Decimal.mk s c (e + k)).magnitudePlace < -400
  · rw [toBinary64, toBinary64, hplace, if_pos (.inr hlow), if_pos (.inr hlow)]
  by_cases hhigh : 400 < (Decimal.mk s c (e + k)).magnitudePlace
  · rw [toBinary64, toBinary64, hplace, if_neg (not_or.2 ⟨hc', hlow⟩), if_pos hhigh,
      if_neg (not_or.2 ⟨hc, hlow⟩), if_pos hhigh]
  rw [toBinary64_eq_ofRatio hc' (by omega) (by omega),
    toBinary64_eq_ofRatio hc (by omega) (by omega)]
  dsimp only
  apply Binary64.ofRatio_congr s (Nat.pow_pos (by decide)) (Nat.pow_pos (by decide))
  generalize unit = w
  -- the powers of ten on both sides have the same exponent in all
  have hexp : k + e.toNat + (-(e + k)).toNat = (e + k).toNat + (-e).toNat := by omega
  calc c * 10 ^ k * 10 ^ e.toNat * w * 10 ^ (-(e + k)).toNat
      = c * w * 10 ^ (k + e.toNat + (-(e + k)).toNat) := by
        rw [Nat.pow_add, Nat.pow_add]
        ac_rfl
    _ = c * 10 ^ (e + k).toNat * w * 10 ^ (-e).toNat := by
        rw [hexp, Nat.pow_add]
        ac_rfl

/-- Taking trailing zeros off makes no difference. -/
theorem toBinary64_normalize (d : Decimal) : d.normalize.toBinary64 = d.toBinary64 := by
  obtain ⟨s, c, e⟩ := d
  unfold normalize
  dsimp only
  split
  · rename_i hc
    simp [toBinary64, hc]
  · rw [← toBinary64_mul_pow, stripZeros_mul]

/-- Taking trailing zeros off does not look at the sign. -/
theorem normalize_withSign (s t : Bool) (c : Nat) (e : Int) :
    { (Decimal.mk t c e).normalize with negative := s } = (Decimal.mk s c e).normalize := by
  unfold normalize
  dsimp only
  split <;> rfl

/-- The sign of the number is that of the double. -/
theorem toBinary64_of_finite {c : Nat} {e : Int} {s s' t : Bool} {u : Nat}
    {h : Binary64.Representable u} (hread : (Decimal.mk s c e).toBinary64 = .finite s' u h) :
    (Decimal.mk t c e).toBinary64 = .finite t u h := by
  have hplace : (Decimal.mk t c e).magnitudePlace = (Decimal.mk s c e).magnitudePlace := rfl
  unfold toBinary64 at hread ⊢
  rw [hplace]
  dsimp only at hread ⊢
  split at hread
  · cases hread
    rw [if_pos ‹_›]
  · split at hread
    · cases hread
    · rw [if_neg ‹_›, if_neg ‹_›]
      cases e with
      | ofNat k => exact Binary64.ofRatio_of_finite hread
      | negSucc k => exact Binary64.ofRatio_of_finite hread

/-! ## The shortest decimal -/

theorem toBinary64_of_readsBack {u c : Nat} {e : Int} (h : Binary64.Representable u)
    (hread : Binary64.readsBack u c e = true) :
    (Decimal.mk false c e).toBinary64 = .finite false u h := by
  unfold Binary64.readsBack at hread
  split at hread
  · rename_i v hv heq
    obtain rfl : v = u := by simpa using hread
    exact heq
  · cases hread

/-- The neighbour of a double on a grid of decimals is taken only if it is read as the double. -/
theorem toBinary64_of_neighbour? {u : Nat} {e : Int} {d : Decimal} (h : Binary64.Representable u)
    (hd : Binary64.neighbour? u e = some d) : d.toBinary64 = .finite false u h := by
  unfold Binary64.neighbour? at hd
  dsimp only at hd
  generalize halfEven _ _ = near at hd
  generalize (if near = _ then near + 1 else _) = far at hd
  split at hd
  · cases hd
    exact toBinary64_of_readsBack h ‹_›
  · split at hd
    · cases hd
      exact toBinary64_of_readsBack h ‹_›
    · cases hd

theorem five_pow_mul_unit : 5 ^ (1074 : Nat) * unit = 10 ^ (1074 : Nat) := by decide +kernel

/-- With all its digits a number of units is read as it is. -/
theorem toBinary64_allDigits {u : Nat} (hu : u ≠ 0) (h : Binary64.Representable u) :
    (Binary64.allDigits u).toBinary64 = .finite false u h := by
  have hfive : 0 < 5 ^ (1074 : Nat) := by decide +kernel
  have hten : ∀ k : Nat, 0 < 10 ^ k := fun k => Nat.pow_pos (by decide)
  have hlow : ¬ (digits (u * 5 ^ (1074 : Nat))).length ≤ 673 := by
    rw [length_digits_le_iff (by decide)]
    have hpow : 10 ^ (673 : Nat) ≤ 5 ^ (1074 : Nat) := by decide +kernel
    have hle : 5 ^ (1074 : Nat) ≤ u * 5 ^ (1074 : Nat) :=
      Nat.le_mul_of_pos_left _ (Nat.pos_of_ne_zero hu)
    omega
  have hhigh : (digits (u * 5 ^ (1074 : Nat))).length ≤ 1474 := by
    rw [length_digits_le_iff (by decide)]
    have hpow : Binary64.bound * 5 ^ (1074 : Nat) ≤ 10 ^ (1474 : Nat) := by decide +kernel
    exact Nat.lt_of_lt_of_le (Nat.mul_lt_mul_of_pos_right h.2 hfive) hpow
  have hplace : (Binary64.allDigits u).magnitudePlace =
      (digits (u * 5 ^ (1074 : Nat))).length - 1074 := rfl
  have hratio := toBinary64_eq_ofRatio (d := Binary64.allDigits u)
    (Nat.mul_ne_zero hu (Nat.ne_of_gt hfive)) (by omega) (by omega)
  have hwhole : (Binary64.allDigits u).exponent.toNat = 0 := rfl
  have hplaces : (-(Binary64.allDigits u).exponent).toNat = 1074 := rfl
  have hcoefficient : (Binary64.allDigits u).coefficient = u * 5 ^ (1074 : Nat) := rfl
  rw [hratio, hwhole, hplaces, hcoefficient, Nat.pow_zero, Nat.mul_one, Nat.mul_assoc,
    five_pow_mul_unit]
  exact Binary64.ofRatio_units false h (hten 1074)

/-- The decimal that is written for a double is read as it. -/
theorem toBinary64_shortest {u : Nat} (h : Binary64.Representable u) (s : Bool) :
    Decimal.toBinary64 { Binary64.shortest u with negative := s } = .finite s u h := by
  unfold Binary64.shortest
  split
  · rename_i hu
    subst hu
    rfl
  · rename_i hu
    dsimp only
    generalize hd : ((List.range 17).findSome? fun k : Nat =>
      Binary64.neighbour? u (Binary64.leadingPlace u - k)).getD (Binary64.allDigits u) = d
    have hread : d.toBinary64 = .finite false u h := by
      cases hfound : (List.range 17).findSome? fun k : Nat =>
          Binary64.neighbour? u (Binary64.leadingPlace u - k) with
      | none =>
        rw [hfound] at hd
        subst hd
        exact toBinary64_allDigits hu h
      | some d' =>
        rw [hfound] at hd
        subst hd
        obtain ⟨k, -, hk⟩ := List.exists_of_findSome?_eq_some hfound
        exact toBinary64_of_neighbour? h hk
    obtain ⟨t, c, e⟩ := d
    rw [normalize_withSign, toBinary64_normalize]
    exact toBinary64_of_finite hread

end Decimal
end Reckon
