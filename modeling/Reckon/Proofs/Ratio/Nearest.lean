import Mathlib.Algebra.Order.Field.Basic
import Mathlib.Data.Rat.Cast.Order
import Mathlib.Tactic.LinearCombination
import Mathlib.Tactic.Linarith
import Mathlib.Tactic.Positivity
import Mathlib.Tactic.Ring
import Reckon.Ratio.Nearest

/-!
# The nearest fraction is the best one

Between two neighbouring fractions `p / q < p' / q'`, with `p' q - p q' = 1`,
every fraction has a denominator of at least `q + q'`. The search for the
nearest fraction ends with two neighbours around the ratio whose denominators
are within the limit, and whose sum is not, so no other fraction within the
limit is nearer to the ratio than the nearer one of them.

Results:

* `add_le_den_of_between`: the denominators between two neighbours.
* `Convergents.Approaches.neighbours`: what the search along the continued fraction ends with.
* `den_nearest_le`, `abs_sub_nearest_le`: the nearest fraction is within the
  limit, and no fraction within the limit is nearer.
-/

namespace Reckon
namespace Ratio

/-! ## Comparing fractions -/

theorem mkRat_le_iff {q : Nat} (hq : 0 < q) {p : Int} {x : Rat} :
    mkRat p q ≤ x ↔ p * x.den ≤ x.num * q := by
  have h := @Rat.divInt_le_divInt p q x.num x.den (Int.natCast_pos.2 hq)
    (Int.natCast_pos.2 x.den_pos)
  rwa [← Rat.mkRat_eq_divInt, Rat.num_divInt_den] at h

theorem le_mkRat_iff {q : Nat} (hq : 0 < q) {p : Int} {x : Rat} :
    x ≤ mkRat p q ↔ x.num * q ≤ p * x.den := by
  have h := @Rat.divInt_le_divInt x.num x.den p q (Int.natCast_pos.2 x.den_pos)
    (Int.natCast_pos.2 hq)
  rwa [Rat.num_divInt_den, ← Rat.mkRat_eq_divInt] at h

theorem den_mkRat_le (p : Int) {q : Nat} (hq : 0 < q) : (mkRat p q).den ≤ q := by
  rw [Rat.den_mkRat, if_neg (by omega)]
  exact Nat.div_le_self _ _

/-! ## Neighbouring fractions -/

/-- Two fractions next to each other, the first less than the second. -/
structure Neighbours (p : Int) (q : Nat) (p' : Int) (q' : Nat) : Prop where
  left : 0 < q
  right : 0 < q'
  step : p' * q - p * q' = 1

variable {p p' : Int} {q q' : Nat}

/-- A fraction between two neighbours has at least the sum of their denominators. -/
theorem Neighbours.add_le_den_of_between (h : Neighbours p q p' q') {s : Rat}
    (hlow : mkRat p q < s) (hhigh : s < mkRat p' q') : q + q' ≤ s.den := by
  rw [← not_le, le_mkRat_iff h.left] at hlow
  rw [← not_le, mkRat_le_iff h.right] at hhigh
  have habove : 1 ≤ s.num * q - p * s.den := by omega
  have hbelow : 1 ≤ p' * s.den - s.num * q' := by omega
  have hsum : (s.den : Int) = q * (p' * s.den - s.num * q') + q' * (s.num * q - p * s.den) := by
    linear_combination (-(s.den : Int)) * h.step
  have hleft : (q : Int) ≤ q * (p' * s.den - s.num * q') :=
    le_mul_of_one_le_right (by positivity) hbelow
  have hright : (q' : Int) ≤ q' * (s.num * q - p * s.den) :=
    le_mul_of_one_le_right (by positivity) habove
  omega

/-- A ratio between two neighbours is nearer to one of them than to any fraction whose denominator
is less than the sum of theirs. -/
theorem Neighbours.nearer (h : Neighbours p q p' q') {x s : Rat} (hlow : mkRat p q ≤ x)
    (hhigh : x ≤ mkRat p' q') (hs : s.den < q + q') :
    |x - mkRat p q| ≤ |x - s| ∨ |x - mkRat p' q'| ≤ |x - s| := by
  rcases le_or_gt s (mkRat p q) with hleft | hleft
  · left
    rw [abs_of_nonneg (sub_nonneg.2 hlow), abs_of_nonneg (by linarith)]
    linarith
  · rcases le_or_gt (mkRat p' q') s with hright | hright
    · right
      rw [abs_of_nonpos (sub_nonpos.2 hhigh), abs_of_nonpos (by linarith)]
      linarith
    · have := h.add_le_den_of_between hleft hright
      omega

/-! ## Convergents -/

namespace Convergents

/-- The convergents stand for a ratio with `n` and `d` as their weights, and are next to each
other. -/
structure Approaches (c : Convergents) (x : Rat) (n : Int) (d : Nat) : Prop where
  num : c.newer.1 * n + c.older.1 * d = x.num
  den : c.newer.2 * n + c.older.2 * d = x.den
  step : c.newer.1 * c.older.2 - c.older.1 * c.newer.2 = 1 ∨
    c.newer.1 * c.older.2 - c.older.1 * c.newer.2 = -1
  nonneg : 0 ≤ n ∨ c.newer.2 = 0

variable {c : Convergents} {x : Rat} {n : Int} {d limit : Nat}

theorem approaches_start (x : Rat) : start.Approaches x x.num x.den where
  num := by simp [start]
  den := by simp [start]
  step := by simp [start]
  nonneg := .inr rfl

/-- A partial quotient below zero does not reach the denominators. -/
theorem Approaches.toNat_mul (h : c.Approaches x n d) :
    (((n / d).toNat * c.newer.2 : Nat) : Int) = n / d * c.newer.2 := by
  rcases h.nonneg with hn | hzero
  · rw [Nat.cast_mul, Int.toNat_of_nonneg (Int.ediv_nonneg hn (Int.natCast_nonneg d))]
  · simp [hzero]

/-- One step of the continued fraction. -/
theorem Approaches.next (h : c.Approaches x n d) (hd : 0 < d) :
    (c.next (n / d)).Approaches x d (n % d).toNat := by
  have hmod : ((n % d).toNat : Int) = n % d :=
    Int.toNat_of_nonneg (Int.emod_nonneg n (by omega))
  have hdiv : n % d + d * (n / d) = n := Int.emod_add_mul_ediv n d
  have hden := h.toNat_mul
  push_cast at hden
  unfold Convergents.next
  constructor
  · dsimp only
    rw [hmod]
    linear_combination h.num + c.newer.1 * hdiv
  · dsimp only
    rw [hmod]
    push_cast
    rw [hden]
    linear_combination h.den + (c.newer.2 : Int) * hdiv
  · dsimp only
    push_cast
    rw [hden]
    rcases h.step with hstep | hstep
    · exact .inr (by linear_combination -hstep)
    · exact .inl (by linear_combination -hstep)
  · left
    omega

/-- The search stops here: both denominators are within the limit, and the next one is not. -/
structure Stops (c : Convergents) (limit : Nat) (n : Int) (d : Nat) : Prop where
  pos : 0 < d
  older : c.older.2 ≤ limit
  newer : c.newer.2 ≤ limit
  further : limit < (c.next (n / d)).newer.2

/-- The denominator of a ratio without a rest is that of the newer convergent. -/
theorem Approaches.den_of_zero (h : c.Approaches x n 0) : c.newer.2 = x.den := by
  have hnum : c.newer.1 * n = x.num := by simpa using h.num
  have hden : c.newer.2 * n = x.den := by simpa using h.den
  have hone : n.natAbs = 1 := by
    apply Nat.dvd_one.1
    rw [← x.reduced.gcd_eq_one]
    apply Nat.dvd_gcd
    · exact Int.natAbs_dvd_natAbs.2 (hnum ▸ Int.dvd_mul_left _ _)
    · exact Int.natAbs_dvd_natAbs.2 (hden ▸ Int.dvd_mul_left _ _ : n ∣ (x.den : Int))
  have habs := congrArg Int.natAbs hden
  rwa [Int.natAbs_mul, hone, Nat.mul_one] at habs

/-- The search along the continued fraction stops at convergents that still stand for the ratio. -/
theorem Approaches.within (h : c.Approaches x n d) (hx : limit < x.den)
    (holder : c.older.2 ≤ limit) (hnewer : c.newer.2 ≤ limit) :
    ∃ n' d', (c.within limit n d).Approaches x n' d' ∧ (c.within limit n d).Stops limit n' d' := by
  fun_induction Convergents.within c limit n d with
  | case1 c n =>
    have := h.den_of_zero
    omega
  | case2 c n d hd further hfurther =>
    exact ⟨n, d, h, Nat.pos_of_ne_zero hd, holder, hnewer, hfurther⟩
  | case3 c n d hd further hfurther ih =>
    exact ih (h.next (Nat.pos_of_ne_zero hd)) hnewer (Nat.le_of_not_lt hfurther)

/-- How far one can go from the older convergent in the direction of the newer one. -/
def steps (c : Convergents) (limit : Nat) : Nat := (limit - c.older.2) / c.newer.2

theorem Stops.newer_pos (h : c.Stops limit n d) : 0 < c.newer.2 := by
  have hfurther : limit < c.older.2 + (n / d).toNat * c.newer.2 := h.further
  have holder := h.older
  by_contra hzero
  rw [Nat.eq_zero_of_not_pos hzero, Nat.mul_zero] at hfurther
  omega

/-- The farthest fraction on the way is within the limit, but not the sum of its denominator and
that of the newer convergent. -/
theorem Stops.between_steps (h : c.Stops limit n d) :
    (c.between (c.steps limit)).2 ≤ limit ∧ limit < (c.between (c.steps limit)).2 + c.newer.2 := by
  have hle := Nat.div_mul_le_self (limit - c.older.2) c.newer.2
  have hlt := Nat.lt_div_mul_add (a := limit - c.older.2) h.newer_pos
  have holder := h.older
  unfold between steps
  dsimp only
  omega

/-- The way does not lead as far as the next convergent. -/
theorem Stops.steps_mul_le (h : c.Stops limit n d) : (c.steps limit * d : Int) ≤ n := by
  have hfurther : limit < c.older.2 + (n / d).toNat * c.newer.2 := h.further
  have holder := h.older
  have hlt : c.steps limit < (n / d).toNat := by
    rw [steps, Nat.div_lt_iff_lt_mul h.newer_pos]
    omega
  have hle : (c.steps limit : Int) ≤ n / d := by omega
  exact (Int.le_ediv_iff_mul_le (Int.natCast_pos.2 h.pos)).1 hle

/-! ## Where the search stops -/

/-- How far the ratio is from the newer convergent. -/
theorem Approaches.from_newer (h : c.Approaches x n d) :
    c.newer.1 * x.den - x.num * c.newer.2 =
      (c.newer.1 * c.older.2 - c.older.1 * c.newer.2) * d := by
  rw [← h.num, ← h.den]
  ring

/-- How far the ratio is from a fraction on the way to the next convergent. -/
theorem Approaches.from_between (h : c.Approaches x n d) (k : Nat) :
    x.num * (c.between k).2 - (c.between k).1 * x.den =
      (c.newer.1 * c.older.2 - c.older.1 * c.newer.2) * (n - k * d) := by
  rw [← h.num, ← h.den, between]
  push_cast
  ring

/-- A fraction on the way to the next convergent is next to the newer one, as the older one is. -/
theorem between_step (c : Convergents) (k : Nat) :
    c.newer.1 * (c.between k).2 - (c.between k).1 * c.newer.2 =
      c.newer.1 * c.older.2 - c.older.1 * c.newer.2 := by
  rw [between]
  push_cast
  ring

/-- Where the search stops, the ratio lies between the newer convergent and the farthest fraction on
the way to the next one, and these are neighbours. -/
theorem Approaches.neighbours (h : c.Approaches x n d) (hs : c.Stops limit n d) :
    (Neighbours (c.between (c.steps limit)).1 (c.between (c.steps limit)).2 c.newer.1 c.newer.2 ∧
        mkRat (c.between (c.steps limit)).1 (c.between (c.steps limit)).2 ≤ x ∧
        x ≤ mkRat c.newer.1 c.newer.2) ∨
      (Neighbours c.newer.1 c.newer.2 (c.between (c.steps limit)).1 (c.between (c.steps limit)).2 ∧
        mkRat c.newer.1 c.newer.2 ≤ x ∧
        x ≤ mkRat (c.between (c.steps limit)).1 (c.between (c.steps limit)).2) := by
  have hnewer := hs.newer_pos
  have hbetween : 0 < (c.between (c.steps limit)).2 := by
    have := hs.between_steps.2
    have := hs.newer
    omega
  have hweight := sub_nonneg.2 hs.steps_mul_le
  have hd : (0 : Int) ≤ d := Int.natCast_nonneg d
  have hfirst := h.from_newer
  have hsecond := h.from_between (c.steps limit)
  have hstep := c.between_step (c.steps limit)
  rw [mkRat_le_iff hbetween, le_mkRat_iff hnewer, mkRat_le_iff hnewer, le_mkRat_iff hbetween]
  -- The convergents come from either side in turn.
  rcases h.step with hside | hside
  · rw [hside] at hfirst hsecond hstep
    exact .inl ⟨⟨hbetween, hnewer, hstep⟩, by linarith, by linarith⟩
  · rw [hside] at hfirst hsecond hstep
    exact .inr ⟨⟨hnewer, hbetween, by linarith⟩, by linarith, by linarith⟩

end Convergents

/-! ## The nearest fraction -/

theorem distance_eq (a b : Rat) : distance a b = |b - a| := by
  unfold distance
  split
  · rw [abs_of_nonneg (by linarith)]
  · rw [abs_of_nonpos (by linarith), neg_sub]

/-- A ratio that is beyond the limit lies between two neighbours, both within the limit, the sum of
whose denominators is not. The nearest fraction is the nearer one of them. -/
theorem nearest_cases {limit : Nat} {x : Rat} (hlimit : 0 < limit) (hx : limit < x.den) :
    ∃ p q p' q', Neighbours p q p' q' ∧ mkRat p q ≤ x ∧ x ≤ mkRat p' q' ∧
      q ≤ limit ∧ q' ≤ limit ∧ limit < q + q' ∧
      (nearest limit x = mkRat p q ∧ |x - mkRat p q| ≤ |x - mkRat p' q'| ∨
        nearest limit x = mkRat p' q' ∧ |x - mkRat p' q'| ≤ |x - mkRat p q|) := by
  obtain ⟨n, d, happroaches, hstops⟩ :=
    (Convergents.approaches_start x).within hx hlimit (Nat.zero_le limit)
  have hnearest : nearest limit x = _ := if_neg (Nat.not_le.2 hx)
  generalize Convergents.start.within limit x.num x.den = c at happroaches hstops hnearest
  have hbetween := hstops.between_steps
  have hnewer := hstops.newer
  have hchoice : nearest limit x = mkRat c.newer.1 c.newer.2 ∧
        |x - mkRat c.newer.1 c.newer.2| ≤
          |x - mkRat (c.between (c.steps limit)).1 (c.between (c.steps limit)).2| ∨
      nearest limit x = mkRat (c.between (c.steps limit)).1 (c.between (c.steps limit)).2 ∧
        |x - mkRat (c.between (c.steps limit)).1 (c.between (c.steps limit)).2| ≤
          |x - mkRat c.newer.1 c.newer.2| := by
    dsimp only at hnearest
    rw [distance_eq, distance_eq] at hnearest
    split at hnearest
    · exact .inl ⟨hnearest, by assumption⟩
    · exact .inr ⟨hnearest, (not_le.1 (by assumption)).le⟩
  rcases happroaches.neighbours hstops with ⟨hside, hlow, hhigh⟩ | ⟨hside, hlow, hhigh⟩
  · exact ⟨_, _, _, _, hside, hlow, hhigh, hbetween.1, hnewer, hbetween.2, hchoice.symm⟩
  · exact ⟨_, _, _, _, hside, hlow, hhigh, hnewer, hbetween.1, by omega, hchoice⟩

/-- The nearest fraction is within the limit. -/
theorem den_nearest_le {limit : Nat} (hlimit : 0 < limit) (x : Rat) :
    (nearest limit x).den ≤ limit := by
  rcases Nat.lt_or_ge limit x.den with hx | hx
  · obtain ⟨p, q, p', q', hside, -, -, hq, hq', -, h | h⟩ := nearest_cases hlimit hx
    · exact h.1 ▸ (den_mkRat_le p hside.left).trans hq
    · exact h.1 ▸ (den_mkRat_le p' hside.right).trans hq'
  · rwa [nearest, if_pos hx]

/-- No fraction within the limit is nearer. -/
theorem abs_sub_nearest_le {limit : Nat} (hlimit : 0 < limit) (x : Rat) {s : Rat}
    (hs : s.den ≤ limit) : |x - nearest limit x| ≤ |x - s| := by
  rcases Nat.lt_or_ge limit x.den with hx | hx
  · obtain ⟨p, q, p', q', hside, hlow, hhigh, -, -, hsum, hchoice⟩ := nearest_cases hlimit hx
    have hnearer := hside.nearer hlow hhigh (Nat.lt_of_le_of_lt hs hsum)
    rcases hchoice with ⟨hnearest, hless⟩ | ⟨hnearest, hless⟩
    · rw [hnearest]
      exact hnearer.elim id hless.trans
    · rw [hnearest]
      exact hnearer.elim hless.trans id
  · rw [nearest, if_pos hx, sub_self, abs_zero]
    exact abs_nonneg _

end Ratio
end Reckon
