/-!
# The nearest fraction with a bounded denominator

The best approximations of a ratio are among the convergents of its continued
fraction and the fractions between two of them. The search follows the
continued fraction as long as the denominators stay within the limit, and then
compares the last convergent with the farthest fraction on the way to the next
one. If both are equally near, the last convergent is taken.
-/

namespace Reckon
namespace Ratio

/-- Two successive convergents of a continued fraction. -/
structure Convergents where
  /-- Numerator and denominator of the older one. -/
  older : Int × Nat
  /-- Numerator and denominator of the newer one. -/
  newer : Int × Nat
deriving DecidableEq, Repr

namespace Convergents

/-- Before the first partial quotient. -/
def start : Convergents := ⟨(0, 1), (1, 0)⟩

/-- The fraction `k` steps from the older convergent in the direction of the newer. -/
def between (c : Convergents) (k : Nat) : Int × Nat :=
  (c.older.1 + k * c.newer.1, c.older.2 + k * c.newer.2)

/-- Goes on by a partial quotient; the first may be negative. -/
def next (c : Convergents) (a : Int) : Convergents :=
  ⟨c.newer, (c.older.1 + a * c.newer.1, c.older.2 + a.toNat * c.newer.2)⟩

/-- The last two convergents of `n / d` whose denominators are within the limit. -/
def within (c : Convergents) (limit : Nat) (n : Int) (d : Nat) : Convergents :=
  if d = 0 then c
  else
    let further := c.next (n / d)
    if limit < further.newer.2 then c
    else further.within limit d (n % d).toNat
termination_by d
decreasing_by
  have hd : (0 : Int) < d := by omega
  have := Int.emod_lt_of_pos n hd
  have := Int.emod_nonneg n (Int.ne_of_gt hd)
  omega

end Convergents

/-- The distance between two ratios. -/
def distance (a b : Rat) : Rat := if a ≤ b then b - a else a - b

/-- The ratio itself if its denominator is within the limit, and otherwise the fraction within
the limit that is nearest to it. -/
def nearest (limit : Nat) (x : Rat) : Rat :=
  if x.den ≤ limit then x
  else
    let c := Convergents.start.within limit x.num x.den
    let convergent := mkRat c.newer.1 c.newer.2
    let (p, q) := c.between ((limit - c.older.2) / c.newer.2)
    if distance convergent x ≤ distance (mkRat p q) x then convergent else mkRat p q

end Ratio
end Reckon
