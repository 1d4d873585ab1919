import Mathlib.Algebra.Ring.Parity
import Mathlib.Tactic.SplitIfs
import Reckon.Binary64.Power
import Reckon.Proofs.Decimal.Shortest

/-!
# Whole numbers and the doubles nearest to them

An exponent is a whole number of any length, and a power is computed with the
double nearest to it. Up to 53 bits that is the exponent itself. Beyond them it
is even, and from half a unit of the last place above the greatest double on
there is none. For the powers of the numbers minus one, zero and one this is all
that matters.

Results:

* `nearestUnits_lt_iff`: what is rounded below a power of two.
* `nearestWhole_of_le`, `even_nearestWhole`: the double nearest to a whole number.
* `exists_ofInt?`, `ofInt?_eq_none`: which whole numbers have one.
* `pow_whole`: the powers of minus one, zero and one.
-/

namespace Reckon

/-- From half-way on, an odd quotient is rounded up. -/
theorem halfEven_of_odd {n d : Nat} (hodd : n / d % 2 = 1) (h : d ≤ 2 * (n % d)) :
    halfEven n d = n / d + 1 := by
  unfold halfEven
  rw [if_neg]
  omega

namespace Binary64

theorem nearestUnits_one (u : Nat) :
    nearestUnits u 1 = halfEven u (2 ^ excess u) * 2 ^ excess u := by
  rw [nearestUnits, Nat.div_one, Nat.one_mul]

theorem lt_excess {u k : Nat} (h : 2 ^ 53 * 2 ^ k ≤ u) : k < excess u := by
  rw [← Nat.pow_add] at h
  have := excess_mono h
  rwa [excess_two_pow] at this

/-- Where bits are dropped, rounding keeps the leading one. -/
theorem two_pow_le_nearestUnits {u : Nat} (h : 0 < excess u) :
    2 ^ 52 * 2 ^ excess u ≤ nearestUnits u 1 := by
  have hlog : u.log2 = 52 + excess u := by
    unfold excess at h ⊢
    omega
  have hu : u ≠ 0 := by
    rintro rfl
    simp [excess] at h
  have hle : 2 ^ 52 * 2 ^ excess u ≤ u := by
    rw [← Nat.pow_add, ← hlog]
    exact Nat.log2_self_le hu
  have hdiv : 2 ^ 52 ≤ u / 2 ^ excess u := (Nat.le_div_iff_mul_le (Nat.two_pow_pos _)).2 hle
  rw [nearestUnits_one]
  exact Nat.mul_le_mul_right _ (Nat.le_trans hdiv (div_le_halfEven _ _))

/-- What is rounded below a power of two: whatever is nearer to the double below it. -/
theorem nearestUnits_lt_iff {u k : Nat} :
    nearestUnits u 1 < 2 ^ 53 * 2 ^ (k + 1) ↔ u + 2 ^ k < 2 ^ 53 * 2 ^ (k + 1) := by
  have hpos := Nat.two_pow_pos k
  constructor
  · intro hlt
    by_contra hge
    by_cases hlarge : 2 ^ 53 * 2 ^ (k + 1) ≤ u
    · have hexcess := lt_excess hlarge
      have hround := two_pow_le_nearestUnits (Nat.lt_of_le_of_lt (Nat.zero_le _) hexcess)
      have hpow : 2 ^ (k + 2) ≤ 2 ^ excess u := Nat.pow_le_pow_right (by decide) hexcess
      rw [Nat.pow_succ] at hpow hlt
      omega
    · -- between the last double before the power of two and the power: half-way, or beyond
      have hexcess : excess u = k + 1 := by
        apply Nat.le_antisymm
        · refine excess_le ?_
          rw [Nat.pow_add]
          exact Nat.lt_of_not_le hlarge
        · refine lt_excess ?_
          rw [Nat.pow_succ] at hge
          omega
      have hdiv : u / 2 ^ (k + 1) = 2 ^ 53 - 1 := by
        rw [Nat.div_eq_iff (Nat.two_pow_pos _)]
        rw [Nat.pow_succ] at hge hlarge ⊢
        omega
      have hmod := Nat.div_add_mod u (2 ^ (k + 1))
      rw [hdiv] at hmod
      have hround : halfEven u (2 ^ (k + 1)) = 2 ^ 53 := by
        have hodd : u / 2 ^ (k + 1) % 2 = 1 := by
          rw [hdiv]
          norm_num
        have hhalf : 2 ^ (k + 1) ≤ 2 * (u % 2 ^ (k + 1)) := by
          rw [Nat.pow_succ] at hmod hge ⊢
          omega
        rw [halfEven_of_odd hodd hhalf, hdiv]
        norm_num
      rw [nearestUnits_one, hexcess, hround] at hlt
      exact Nat.lt_irrefl _ hlt
  · intro hlt
    have hexcess : 2 ^ excess u ≤ 2 ^ (k + 1) := by
      refine Nat.pow_le_pow_right (by decide) (excess_le ?_)
      rw [Nat.pow_add]
      omega
    have hround := two_mul_halfEven_le u (2 ^ excess u) (Nat.two_pow_pos _)
    rw [nearestUnits_one]
    rw [Nat.pow_succ] at hexcess hlt ⊢
    omega

/-! ## The double nearest to a whole number -/

/-- The whole number that is the double nearest to a whole number. -/
def nearestWhole (n : Nat) : Nat := nearestUnits (n * unit) 1 / unit

/-- The least whole number that is rounded beyond the doubles. -/
def wholeBound : Nat := 2 ^ (1024 : Nat) - 2 ^ (970 : Nat)

variable {n : Nat}

theorem nearestUnits_whole_of_le (h : n ≤ 2 ^ 53) : nearestUnits (n * unit) 1 = n * unit := by
  obtain ⟨k, hunit⟩ := exists_unit_eq
  have hlt : n * unit < bound := by
    have hmax : 2 ^ 53 * unit < bound := by decide +kernel
    exact Nat.lt_of_le_of_lt (Nat.mul_le_mul_right unit h) hmax
  have hmod := mod_excess_of_le (k := k) h
  rw [← hunit] at hmod
  have hround := nearestUnits_of_representable ⟨hmod, hlt⟩ Nat.one_pos
  rwa [Nat.mul_one] at hround

/-- A whole number of at most 53 bits is a double. -/
theorem nearestWhole_of_le (h : n ≤ 2 ^ 53) : nearestWhole n = n := by
  rw [nearestWhole, nearestUnits_whole_of_le h, Nat.mul_div_cancel n unit_pos]

/-- Beyond 53 bits at least one bit is dropped. -/
theorem two_mul_unit_dvd (h : 2 ^ 53 ≤ n) : 2 * unit ∣ 2 ^ excess (n * unit) := by
  obtain ⟨k, hk⟩ := exists_unit_eq
  have hle : 2 ^ 53 * 2 ^ k ≤ n * unit := hk ▸ Nat.mul_le_mul_right unit h
  have hdvd := Nat.pow_dvd_pow 2 (lt_excess hle)
  rwa [Nat.succ_eq_add_one, Nat.pow_succ, Nat.mul_comm, ← hk] at hdvd

/-- Beyond 53 bits only even whole numbers are doubles. -/
theorem even_nearestWhole (h : 2 ^ 53 ≤ n) : Even (nearestWhole n) := by
  obtain ⟨q, hq⟩ : 2 * unit ∣ nearestUnits (n * unit) 1 := by
    rw [nearestUnits_one]
    exact Nat.dvd_trans (two_mul_unit_dvd h) (Nat.dvd_mul_left _ _)
  refine ⟨q, ?_⟩
  rw [nearestWhole, hq, Nat.mul_right_comm, Nat.mul_div_cancel _ unit_pos, Nat.two_mul]

theorem nearestWhole_pos (h : 0 < n) : 0 < nearestWhole n := by
  rcases Nat.le_total n (2 ^ 53) with hle | hge
  · rwa [nearestWhole_of_le hle]
  · have hpow := Nat.le_of_dvd (Nat.two_pow_pos _) (two_mul_unit_dvd hge)
    have hunit := unit_pos
    have hexcess : 0 < excess (n * unit) := by
      by_contra hzero
      rw [Nat.eq_zero_of_not_pos hzero] at hpow
      omega
    have hround := two_pow_le_nearestUnits hexcess
    exact Nat.div_pos (by omega) unit_pos

/-- The whole numbers that are rounded to a double. -/
theorem nearestUnits_whole_lt_iff : nearestUnits (n * unit) 1 < bound ↔ n < wholeBound := by
  obtain ⟨k, hpow, hsum⟩ : ∃ k, bound = 2 ^ 53 * 2 ^ (k + 1) ∧ bound = wholeBound * unit + 2 ^ k :=
    ⟨2044, by decide +kernel, by decide +kernel⟩
  rw [hpow, nearestUnits_lt_iff, ← hpow, hsum, Nat.add_lt_add_iff_right,
    Nat.mul_lt_mul_right unit_pos]

/-- The double nearest to a whole number that is in the range of the doubles. -/
theorem exists_ofInt? (h : n < wholeBound) :
    ∃ y, ofInt? n = some y ∧ y.truncate = nearestWhole n := by
  have hlt := nearestUnits_whole_lt_iff.2 h
  refine ⟨.finite false _ (representable_nearestUnits hlt), ?_, rfl⟩
  rw [ofInt?, Int.natAbs_natCast, decide_eq_false (Int.not_lt.2 (Int.natCast_nonneg n)), ofRatio,
    dif_pos hlt]
  rfl

theorem ofInt?_eq_none (h : wholeBound ≤ n) : ofInt? n = none := by
  have hlt : ¬nearestUnits (n * unit) 1 < bound :=
    mt nearestUnits_whole_lt_iff.1 (Nat.not_lt.2 h)
  rw [ofInt?, Int.natAbs_natCast, ofRatio, dif_neg hlt]
  rfl

/-! ## Powers of minus one, zero and one -/

/-- A finite number that is the given whole number. Zero has two signs. -/
def IsInt (x : Binary64) (z : Int) : Prop := x.isFinite = true ∧ x.signedUnits = z * unit

variable {x : Binary64} {z : Int}

theorem isInt_one : IsInt one 1 := ⟨rfl, (Int.one_mul _).symm⟩

theorem isInt_zero (s : Bool) : IsInt (.finite s 0 representable_zero) 0 := by
  refine ⟨rfl, ?_⟩
  rw [Int.zero_mul]
  cases s <;> rfl

theorem IsInt.neg (h : x.IsInt z) : x.neg.IsInt (-z) := by
  cases x with
  | finite s u hu =>
    refine ⟨rfl, ?_⟩
    have hunits := h.2
    rw [Int.neg_mul, ← hunits]
    cases s <;> simp [signedUnits, Binary64.neg]
  | infinite s => cases h.1
  | nan => cases h.1

/-- A number is no two whole numbers. -/
theorem IsInt.unique {w : Int} (hz : x.IsInt z) (hw : x.IsInt w) : z = w := by
  have hpos := unit_pos
  have := hz.2.symm.trans hw.2
  exact Int.eq_of_mul_eq_mul_right (by omega) this

theorem finite_eq_one {s : Bool} {u : Nat} {hu : Representable u} :
    Binary64.finite s u hu = one ↔ s = false ∧ u = unit := by
  rw [one, Binary64.finite.injEq]

theorem finite_eq_neg_one {s : Bool} {u : Nat} {hu : Representable u} :
    Binary64.finite s u hu = one.neg ↔ s = true ∧ u = unit := by
  rw [one, Binary64.neg, Binary64.finite.injEq, Bool.not_false]

theorem finite_eq_zero {s t : Bool} {u : Nat} {hu : Representable u} :
    Binary64.finite s u hu = .finite t 0 representable_zero ↔ s = t ∧ u = 0 := by
  rw [Binary64.finite.injEq]

/-- The three numbers whose powers are themselves such numbers. -/
theorem IsInt.eq_of_natAbs_le (h : x.IsInt z) (hz : z.natAbs ≤ 1) :
    (z = 0 ∧ ∃ s, x = .finite s 0 representable_zero) ∨ (z = 1 ∧ x = one) ∨
      (z = -1 ∧ x = one.neg) := by
  have hpos := unit_pos
  cases x with
  | infinite s => cases h.1
  | nan => cases h.1
  | finite s u hu =>
    obtain ⟨hplus, hminus⟩ : (s = false → (u : Int) = z * unit) ∧
        (s = true → -(u : Int) = z * unit) := by
      have hunits := h.2
      constructor
      · rintro rfl
        exact hunits
      · rintro rfl
        exact hunits
    obtain rfl | rfl | rfl : z = 0 ∨ z = 1 ∨ z = -1 := by omega
    · refine .inl ⟨rfl, s, finite_eq_zero.2 ⟨rfl, ?_⟩⟩
      rw [Int.zero_mul] at hplus hminus
      cases s with
      | false => have := hplus rfl; omega
      | true => have := hminus rfl; omega
    · refine .inr (.inl ⟨rfl, finite_eq_one.2 ?_⟩)
      cases s with
      | false => exact ⟨rfl, by have := hplus rfl; omega⟩
      | true => have := hminus rfl; omega
    · refine .inr (.inr ⟨rfl, finite_eq_neg_one.2 ?_⟩)
      cases s with
      | false => have := hplus rfl; omega
      | true => exact ⟨rfl, by have := hminus rfl; omega⟩

theorem IsInt.eq_one (h : x.IsInt 1) : x = one := by
  rcases h.eq_of_natAbs_le (by decide) with ⟨h, -⟩ | ⟨-, h⟩ | ⟨h, -⟩
  · cases h
  · exact h
  · cases h

/-- A power of minus one has a sign by the parity of the exponent. -/
theorem signedPower_one (k : Nat) :
    ∃ y, signedPower ((k : Int) % 2 == 1) one = .ok y ∧ y.IsInt ((-1) ^ k) := by
  rcases Nat.even_or_odd k with hk | hk
  · have hmod : ((k : Int) % 2 == 1) = false := by
      have := Nat.even_iff.1 hk
      simp
      omega
    rw [hmod, hk.neg_one_pow]
    exact ⟨one, rfl, isInt_one⟩
  · have hmod : ((k : Int) % 2 == 1) = true := by
      have := Nat.odd_iff.1 hk
      simp
      omega
    rw [hmod, hk.neg_one_pow]
    exact ⟨one.neg, rfl, isInt_one.neg⟩

/-- The powers of minus one, zero and one with a double that is a natural number. -/
theorem powWhole_of_isInt {y : Binary64} {k : Nat} (h : x.IsInt z) (hz : z.natAbs ≤ 1)
    (hk : y.truncate = k) : ∃ p, x.powWhole y = .ok p ∧ p.IsInt (z ^ k) := by
  simp only [powWhole, hk]
  by_cases hzero : (k : Int) = 0
  · obtain rfl : k = 0 := by omega
    exact ⟨one, rfl, (Int.pow_zero z).symm ▸ isInt_one⟩
  rw [if_neg hzero]
  rcases h.eq_of_natAbs_le hz with ⟨rfl, s, rfl⟩ | ⟨rfl, rfl⟩ | ⟨rfl, rfl⟩
  · rw [Int.zero_pow (by omega)]
    refine ⟨_, ?_, isInt_zero (s && (k : Int) % 2 == 1)⟩
    dsimp only
    rw [if_pos rfl, if_neg (Int.not_lt.2 (Int.natCast_nonneg k))]
  · rw [Int.one_pow]
    refine ⟨one, ?_, isInt_one⟩
    simp only [one]
    rw [if_neg (Nat.ne_of_gt unit_pos), magnitudePow_unit, Bool.false_and]
    rfl
  · simp only [one, Binary64.neg, Bool.not_false, Bool.true_and]
    rw [if_neg (Nat.ne_of_gt unit_pos), magnitudePow_unit]
    exact signedPower_one k

/-- The powers of minus one, zero and one are those with the whole number that the exponent is
rounded to. -/
theorem pow_whole (h : x.IsInt z) (hz : z.natAbs ≤ 1) (hn : n < wholeBound) :
    ∃ y, x.pow n = .ok y ∧ y.IsInt (z ^ nearestWhole n) := by
  obtain ⟨y, hy, hk⟩ := exists_ofInt? hn
  rw [pow, hy]
  exact powWhole_of_isInt h hz hk

/-- The exponent may be rounded, unless it is odd and the number is minus one. -/
theorem pow_nearestWhole_eq_iff (hz : z.natAbs ≤ 1) :
    z ^ nearestWhole n = z ^ n ↔ (z = -1 → n % 2 = 1 → n < 2 ^ 53) := by
  rcases Nat.le_total n (2 ^ 53) with hle | hge
  · rw [nearestWhole_of_le hle]
    refine iff_of_true rfl fun _ hodd => ?_
    omega
  have heven := even_nearestWhole hge
  have hn : 0 < n := Nat.lt_of_lt_of_le (by decide) hge
  obtain rfl | rfl | rfl : z = 0 ∨ z = 1 ∨ z = -1 := by omega
  · rw [Int.zero_pow (Nat.ne_of_gt (nearestWhole_pos hn)), Int.zero_pow (Nat.ne_of_gt hn)]
    simp
  · simp
  · rw [heven.neg_one_pow]
    rcases Nat.even_or_odd n with hparity | hparity
    · rw [hparity.neg_one_pow]
      refine iff_of_true rfl fun _ hodd => ?_
      have := Nat.even_iff.1 hparity
      omega
    · rw [hparity.neg_one_pow]
      refine iff_of_false (by decide) fun h => ?_
      exact Nat.not_lt.2 hge (h rfl (Nat.odd_iff.1 hparity))

theorem pow_eq_tooBig (x : Binary64) (hn : wholeBound ≤ n) : x.pow n = .error .tooBig := by
  rw [pow, ofInt?_eq_none hn]
  rfl

end Binary64
end Reckon
