import Mathlib.Tactic.NormNum
import Reckon.Proofs.Decimal.Grid
import Reckon.Proofs.Decimal.Numeral

/-!
# How many digits the shortest decimal has

A quotient that is off a double by no more than one part in twice `10 ^ 16` is
rounded to it, and the nearest decimal of seventeen digits is no farther off. So
the search for the shortest decimal always ends within seventeen digits, and the
decimal with all digits of the double is never needed.

Results:

* `nearestUnits_of_near`: which quotients are rounded to a double.
* `readsBack_seventeen`: the nearest decimal of seventeen digits is read back.
* `coefficient_lt_of_toDecimal?`: the shortest decimal has at most seventeen digits.
* `exponent_nonneg_of_isWhole`: a whole double has no places after the point.
* `exists_denotes`: a finite double is written as its shortest decimal.
-/

namespace Reckon

/-- A quotient that is less than half a unit off a whole number is rounded to it. -/
theorem halfEven_eq_of_near {n d k : Nat} (hlow : 2 * (k * d) < 2 * n + d)
    (hhigh : 2 * n < 2 * (k * d) + d) : halfEven n d = k := by
  have hd : 0 < d := by omega
  have habove := two_mul_halfEven_le n d hd
  have hbelow := le_two_mul_halfEven n d hd
  rcases Nat.lt_trichotomy (halfEven n d) k with hlt | heq | hgt
  · have hmul : (halfEven n d + 1) * d ≤ k * d := Nat.mul_le_mul_right d hlt
    rw [Nat.add_mul, Nat.one_mul] at hmul
    omega
  · exact heq
  · have hmul : (k + 1) * d ≤ halfEven n d * d := Nat.mul_le_mul_right d hgt
    rw [Nat.add_mul, Nat.one_mul] at hmul
    omega

namespace Binary64

/-! ## What is rounded to a double -/

/-- A quotient that is off a double by at most one part in twice `10 ^ 16` is rounded to it. The
doubles next to it are farther off than that, because `2 ^ 53` is less than `10 ^ 16`. -/
theorem nearestUnits_of_near {n d u : Nat} (hd : 0 < d) (hu : Representable u)
    (hlow : (2 * 10 ^ 16 - 1) * (u * d) ≤ 2 * 10 ^ 16 * n)
    (hhigh : 2 * 10 ^ 16 * n ≤ (2 * 10 ^ 16 + 1) * (u * d)) : nearestUnits n d = u := by
  -- the quotient has no more low bits to drop than the double
  have hexcess : excess (n / d) ≤ excess u := by
    obtain ⟨m, hm⟩ := Nat.dvd_of_mod_eq_zero hu.1
    have hbits : 2 ^ excess u * m < 2 ^ excess u * 2 ^ 53 := by
      rw [← hm, ← Nat.pow_add, Nat.add_comm]
      exact lt_two_pow_excess u
    have hm53 : m ≤ 2 ^ 53 - 1 := Nat.le_sub_one_of_lt (Nat.lt_of_mul_lt_mul_left hbits)
    have hud : u * d = m * (2 ^ excess u * d) := by
      calc u * d = 2 ^ excess u * m * d := by rw [← hm]
        _ = m * (2 ^ excess u * d) := by ac_rfl
    have hpos : 0 < 2 ^ excess u * d := Nat.mul_pos (Nat.two_pow_pos _) hd
    have hle := Nat.mul_le_mul_right (2 ^ excess u * d) hm53
    rw [← hud] at hle
    apply excess_le
    rw [Nat.div_lt_iff_lt_mul hd, Nat.pow_add, Nat.mul_assoc]
    omega
  obtain ⟨m, hm⟩ : 2 ^ excess (n / d) ∣ u :=
    Nat.dvd_trans (Nat.pow_dvd_pow 2 hexcess) (Nat.dvd_of_mod_eq_zero hu.1)
  have hquotient : n < 2 ^ 53 * (d * 2 ^ excess (n / d)) := by
    have hlt := lt_two_pow_excess (n / d)
    rwa [Nat.div_lt_iff_lt_mul hd, Nat.pow_add, Nat.mul_assoc, Nat.mul_comm (2 ^ _) d] at hlt
  have hud : u * d = m * (d * 2 ^ excess (n / d)) := by
    calc u * d = 2 ^ excess (n / d) * m * d := by rw [← hm]
      _ = m * (d * 2 ^ excess (n / d)) := by ac_rfl
  have hround : halfEven n (d * 2 ^ excess (n / d)) = m := by
    rw [hud] at hlow hhigh
    apply halfEven_eq_of_near <;> omega
  rw [nearestUnits, hround, Nat.mul_comm, ← hm]

/-- A decimal number in range that is rounded to a double is read as it. -/
theorem readsBack_of_nearestUnits {u c : Nat} {e : Int} (hu : Representable u) (hc : c ≠ 0)
    (hlow : -400 ≤ (Decimal.mk false c e).magnitudePlace)
    (hhigh : (Decimal.mk false c e).magnitudePlace ≤ 400)
    (h : nearestUnits (c * 10 ^ e.toNat * unit) (10 ^ (-e).toNat) = u) : readsBack u c e = true := by
  have hratio := Decimal.toBinary64_eq_ofRatio (d := ⟨false, c, e⟩) hc hlow hhigh
  dsimp only at hratio
  subst h
  unfold readsBack
  rw [hratio, ofRatio, dif_pos hu.2]
  exact beq_self_eq_true _

/-! ## Seventeen digits -/

/-- The nearest decimal of seventeen digits is read back. -/
theorem readsBack_seventeen {u : Nat} (hu : Representable u) (h0 : u ≠ 0) :
    readsBack u (halfEven (u * 10 ^ (-(leadingPlace u - (16 : Nat))).toNat)
      (unit * 10 ^ (leadingPlace u - (16 : Nat)).toNat)) (leadingPlace u - (16 : Nat)) = true := by
  have hwidth := mul_width_le h0 16
  have hle := nearOnGrid_le h0 16
  have hplace := leadingPlace_le hu.2
  have hplace' := le_leadingPlace u
  generalize he : leadingPlace u - ((16 : Nat) : Int) = e at hwidth hle ⊢
  have hpos : 0 < unit * 10 ^ e.toNat := Nat.mul_pos unit_pos (ten_pow_pos _)
  have habove := two_mul_halfEven_le (u * 10 ^ (-e).toNat) _ hpos
  have hbelow := le_two_mul_halfEven (u * 10 ^ (-e).toNat) _ hpos
  generalize halfEven (u * 10 ^ (-e).toNat) (unit * 10 ^ e.toNat) = c at hle habove hbelow ⊢
  have hc : c ≠ 0 := by
    rintro rfl
    omega
  have hlength : (Decimal.digits c).length ≤ 18 :=
    (Decimal.length_digits_le_iff (by decide)).2 (Nat.lt_of_le_of_lt hle (by decide))
  have hlength' := Decimal.length_digits_pos c
  have hmagnitude : (Decimal.mk false c e).magnitudePlace = (Decimal.digits c).length + e := rfl
  apply readsBack_of_nearestUnits hu hc (by omega) (by omega)
  rw [Nat.mul_assoc, Nat.mul_comm _ unit]
  apply nearestUnits_of_near (ten_pow_pos _) hu <;> omega

/-- The search for the shortest decimal ends within seventeen digits, with the fewest that do. -/
theorem exists_neighbour {u : Nat} (hu : Representable u) (h0 : u ≠ 0) :
    ∃ k ≤ 16, ∃ d, neighbour? u (leadingPlace u - (k : Nat)) = some d ∧
      (∀ j < k, neighbour? u (leadingPlace u - (j : Nat)) = none) ∧ shortest u = d.normalize := by
  have hlast : (neighbour? u (leadingPlace u - (16 : Nat))).isSome = true := by
    unfold neighbour?
    rw [onGrid_eq]
    dsimp only
    rw [if_pos (readsBack_seventeen hu h0)]
    rfl
  have hsome : ((List.range 17).findSome? fun k : Nat =>
      neighbour? u (leadingPlace u - k)).isSome = true :=
    List.findSome?_isSome_iff.2 ⟨16, by decide, hlast⟩
  obtain ⟨d, hd⟩ := Option.isSome_iff_exists.1 hsome
  obtain ⟨before, k, after, hrange, hfound, hnone⟩ := List.findSome?_eq_some_iff.1 hd
  have hmem : ∀ j, j ∈ before ++ k :: after ↔ j < 17 := fun j => by rw [← hrange, List.mem_range]
  have hk := (hmem k).1 (List.mem_append_right before List.mem_cons_self)
  refine ⟨k, by omega, d, hfound, ?_, ?_⟩
  · intro j hj
    have hsorted : (before ++ k :: after).Pairwise (· < ·) := hrange ▸ List.pairwise_lt_range
    rcases List.mem_append.1 ((hmem j).2 (by omega)) with hbefore | hafter
    · exact hnone j hbefore
    · rcases List.mem_cons.1 hafter with rfl | hafter
      · omega
      · have := (List.pairwise_cons.1 (List.pairwise_append.1 hsorted).2.1).1 j hafter
        omega
  · unfold shortest
    rw [if_neg h0, hd]
    rfl

/-- What is found on the grid of `k + 1` digits has `k + 1` digits, or is the next power of ten. -/
theorem neighbour?_eq_some {u k : Nat} {d : Decimal} (h0 : u ≠ 0)
    (h : neighbour? u (leadingPlace u - (k : Nat)) = some d) :
    ∃ c, d = ⟨false, c, leadingPlace u - (k : Nat)⟩ ∧ 10 ^ k ≤ c ∧ c ≤ 10 ^ (k + 1) := by
  have hwidth := mul_width_le h0 k
  have hgrid := units_lt_grid h0 k
  have hle := nearOnGrid_le h0 k
  unfold neighbour? at h
  rw [onGrid_eq] at h
  dsimp only at h
  generalize leadingPlace u - (k : Int) = e at hwidth hgrid hle h ⊢
  have hpos : 0 < unit * 10 ^ e.toNat := Nat.mul_pos unit_pos (ten_pow_pos _)
  generalize unit * 10 ^ e.toNat = w at hwidth hgrid hle h hpos
  generalize u * 10 ^ (-e).toNat = n at hwidth hgrid hle h
  have hlow : 10 ^ k ≤ n / w := (Nat.le_div_iff_mul_le hpos).2 hwidth
  have hhigh : n / w < 10 ^ (k + 1) := (Nat.div_lt_iff_lt_mul hpos).2 hgrid
  have hround := div_le_halfEven n w
  obtain ⟨far, hfar⟩ : ∃ far, far = if halfEven n w = n / w then halfEven n w + 1 else n / w :=
    ⟨_, rfl⟩
  rw [← hfar] at h
  split at h
  · cases h
    exact ⟨_, rfl, by omega, hle⟩
  · split at h
    · cases h
      refine ⟨far, rfl, ?_, ?_⟩ <;> rw [hfar] <;> split <;> omega
    · cases h

/-! ## The shortest decimal -/

/-- Taking trailing zeros off splits a power of ten off the coefficient. -/
theorem exists_normalize (s : Bool) {c : Nat} (hc : c ≠ 0) (e : Int) :
    ∃ m t, c = m * 10 ^ t ∧ m % 10 ≠ 0 ∧
      (Decimal.mk s c e).normalize = ⟨s, m, e + (t : Nat)⟩ := by
  refine ⟨(Decimal.stripZeros c).1, (Decimal.stripZeros c).2, (Decimal.stripZeros_mul c).symm,
    Decimal.stripZeros_mod hc, ?_⟩
  unfold Decimal.normalize
  rw [if_neg hc]

/-- The shortest decimal has at most seventeen digits, and its exponent is hardly above the leading
place. -/
theorem shortest_bounds {u : Nat} (hu : Representable u) (h0 : u ≠ 0) :
    (shortest u).coefficient < 10 ^ 17 ∧ (shortest u).exponent ≤ leadingPlace u + 1 := by
  obtain ⟨k, hk, d, hd, -, hshortest⟩ := exists_neighbour hu h0
  obtain ⟨c, rfl, hlow, hhigh⟩ := neighbour?_eq_some h0 hd
  have hc : c ≠ 0 := by
    have := ten_pow_pos k
    omega
  obtain ⟨m, t, rfl, hm, hnormalize⟩ := exists_normalize false hc (leadingPlace u - (k : Nat))
  rw [hshortest, hnormalize]
  dsimp only
  constructor
  · have hle : m ≤ m * 10 ^ t := Nat.le_mul_of_pos_right m (ten_pow_pos t)
    have hseventeen : 10 ^ (k + 1) ≤ 10 ^ 17 := Nat.pow_le_pow_right (by decide) (by omega)
    omega
  · have hle : 10 ^ t ≤ m * 10 ^ t := Nat.le_mul_of_pos_left _ (by omega)
    have hpow := (Nat.pow_le_pow_iff_right (by decide)).1 (Nat.le_trans hle hhigh)
    omega

theorem coefficient_shortest_lt {u : Nat} (hu : Representable u) :
    (shortest u).coefficient < 10 ^ 17 := by
  by_cases h0 : u = 0
  · subst h0
    decide
  · exact (shortest_bounds hu h0).1

/-! ## Whole doubles and others -/

/-- A whole double is on the grid of whole numbers. -/
theorem isSome_neighbour?_of_whole {u : Nat} (hu : Representable u) (h0 : u ≠ 0)
    (hwhole : u % unit = 0) : (neighbour? u 0).isSome = true := by
  obtain ⟨w, hw⟩ := Nat.dvd_of_mod_eq_zero hwhole
  have hw0 : w ≠ 0 := by
    rintro rfl
    exact h0 (hw.trans (Nat.mul_zero unit))
  have hlength := Decimal.length_digits_pos w
  have hplace : leadingPlace u = (Decimal.digits w).length - 1 := by
    have hle : unit ≤ u := hw ▸ Nat.le_mul_of_pos_right _ (Nat.pos_of_ne_zero hw0)
    rw [leadingPlace, if_pos hle, hw, Nat.mul_div_cancel_left w unit_pos]
  have hhigh := leadingPlace_le hu.2
  have hmagnitude : (Decimal.mk false w 0).magnitudePlace = (Decimal.digits w).length + 0 := rfl
  have hzero : (0 : Int).toNat = 0 := rfl
  have hread : readsBack u w 0 = true := by
    apply readsBack_of_nearestUnits hu hw0 (by omega) (by omega)
    have hunits : w * 1 * unit = u * 1 := by rw [Nat.mul_one, Nat.mul_one, Nat.mul_comm, ← hw]
    rw [Int.neg_zero, hzero, Nat.pow_zero, hunits]
    exact nearestUnits_of_representable hu Nat.one_pos
  have hround : halfEven u unit = w := by
    rw [hw, Nat.mul_comm]
    exact halfEven_mul w unit unit_pos
  unfold neighbour?
  rw [onGrid_eq, Int.neg_zero, hzero, Nat.pow_zero, Nat.mul_one, Nat.mul_one]
  dsimp only
  rw [hround, if_pos hread]
  rfl

/-- The shortest decimal of a whole double has no places after the point. -/
theorem exponent_shortest_nonneg {u : Nat} (hu : Representable u) (hwhole : u % unit = 0) :
    0 ≤ (shortest u).exponent := by
  by_cases h0 : u = 0
  · subst h0
    decide
  obtain ⟨k, hk, d, hd, hnone, hshortest⟩ := exists_neighbour hu h0
  -- the grid of whole numbers would have been found first
  have hplace : (k : Int) ≤ leadingPlace u := by
    by_contra hlt
    have hle : unit ≤ u := Nat.le_of_dvd (Nat.pos_of_ne_zero h0) (Nat.dvd_of_mod_eq_zero hwhole)
    have hnonneg : 0 ≤ leadingPlace u := by
      have := Decimal.length_digits_pos (u / unit)
      rw [leadingPlace, if_pos hle]
      omega
    have hzero : leadingPlace u - ((leadingPlace u).toNat : Nat) = 0 := by omega
    have := hnone (leadingPlace u).toNat (by omega)
    rw [hzero] at this
    have hsome := isSome_neighbour?_of_whole hu h0 hwhole
    rw [this] at hsome
    cases hsome
  obtain ⟨c, rfl, hlow, -⟩ := neighbour?_eq_some h0 hd
  have hc : c ≠ 0 := by
    have := ten_pow_pos k
    omega
  obtain ⟨m, t, -, -, hnormalize⟩ := exists_normalize false hc (leadingPlace u - (k : Nat))
  rw [hshortest, hnormalize]
  show 0 ≤ leadingPlace u - (k : Int) + (t : Int)
  omega

/-- A double that is large is a multiple of a power of two. -/
theorem pow_dvd_of_le {u k : Nat} (hu : Representable u) (h : 2 ^ (53 + k) ≤ u) : 2 ^ k ∣ u := by
  have hexcess := excess_mono h
  rw [excess_two_pow] at hexcess
  exact Nat.dvd_trans (Nat.pow_dvd_pow 2 (Nat.le_of_succ_le hexcess))
    (Nat.dvd_of_mod_eq_zero hu.1)

/-- A double with a fractional part is less than `2 ^ 53`. -/
theorem lt_of_not_whole {u : Nat} (hu : Representable u) (h : u % unit ≠ 0) :
    u < 2 ^ 53 * unit := by
  obtain ⟨k, hunit⟩ := exists_unit_eq
  by_contra hle
  rw [hunit, ← Nat.pow_add] at hle
  have hdvd := pow_dvd_of_le hu (Nat.le_of_not_lt hle)
  rw [← hunit] at hdvd
  exact h (Nat.mod_eq_zero_of_dvd hdvd)

theorem leadingPlace_le_of_not_whole {u : Nat} (hu : Representable u) (h : u % unit ≠ 0) :
    leadingPlace u ≤ 15 := by
  have hlt := lt_of_not_whole hu h
  unfold leadingPlace
  split
  · have hq : u / unit < 10 ^ 16 :=
      Nat.lt_trans ((Nat.div_lt_iff_lt_mul unit_pos).2 hlt) (by decide)
    have := (Decimal.length_digits_le_iff (by decide)).2 hq
    omega
  · omega

/-! ## The decimal of a double -/

/-- Only a finite double has a decimal, the shortest one with its sign. -/
theorem eq_finite_of_toDecimal? {x : Binary64} {d : Decimal} (h : x.toDecimal? = some d) :
    ∃ s u, ∃ hu : Representable u, x = .finite s u hu ∧ d = { shortest u with negative := s } := by
  cases x with
  | finite s u hu => exact ⟨s, u, hu, rfl, (Option.some.inj h).symm⟩
  | infinite s => cases h
  | nan => cases h

theorem coefficient_lt_of_toDecimal? {x : Binary64} {d : Decimal} (h : x.toDecimal? = some d) :
    d.coefficient < 10 ^ 17 := by
  obtain ⟨s, u, hu, rfl, rfl⟩ := eq_finite_of_toDecimal? h
  exact coefficient_shortest_lt hu

theorem exponent_nonneg_of_isWhole {x : Binary64} {d : Decimal} (h : x.toDecimal? = some d)
    (hwhole : x.isWhole = true) : 0 ≤ d.exponent := by
  obtain ⟨s, u, hu, rfl, rfl⟩ := eq_finite_of_toDecimal? h
  exact exponent_shortest_nonneg hu (beq_iff_eq.1 hwhole)

theorem exponent_le_of_not_isWhole {x : Binary64} {d : Decimal} (h : x.toDecimal? = some d)
    (hwhole : ¬ x.isWhole = true) : d.exponent ≤ 16 := by
  obtain ⟨s, u, hu, rfl, rfl⟩ := eq_finite_of_toDecimal? h
  have hmod : u % unit ≠ 0 := fun hzero => hwhole (beq_iff_eq.2 hzero)
  have h0 : u ≠ 0 := by
    rintro rfl
    exact hmod (Nat.zero_mod unit)
  have hplace := leadingPlace_le_of_not_whole hu hmod
  have hexponent := (shortest_bounds hu h0).2
  show (shortest u).exponent ≤ 16
  omega

/-- The numeral that is written for a double stands for a ratio. -/
def Denotes (x : Binary64) (q : Rat) : Prop :=
  ∃ n : Numeral, n.WellFormed ∧ n.text = x.written ∧ n.toDecimal.toRat = q

/-- A finite double is written as its shortest decimal. -/
theorem exists_denotes {x : Binary64} (hx : x.isFinite = true) :
    ∃ d, x.toDecimal? = some d ∧ x.Denotes d.toRat := by
  cases x with
  | finite s u hu =>
    obtain ⟨n, hn, -⟩ := Numeral.exists_numeral .exact { shortest u with negative := s }
    exact ⟨_, rfl, n, hn.toWellFormed, hn.text_eq, hn.ratio⟩
  | infinite s => cases hx
  | nan => cases hx

end Binary64
end Reckon
