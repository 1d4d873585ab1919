import Reckon.Rounding

/-!
# Double-precision numbers

A finite double is a whole number of *units* of `2 ^ -1074`, the least positive
double, with a sign of its own, so that zero has two signs. Not every number of
units is a double: it has at most 53 significant bits (`Representable`) and is
less than `2 ^ 2098` units, which is `2 ^ 1024`.

Every operation computes its exact result as a quotient of units and rounds it
once (`ofRatio`).

Results:

* `representable_nearestUnits`: what rounding gives is representable.
* `nearestUnits_of_representable`: a representable quotient is kept.
* `ofRatio_units`: a double is its own rounding.
-/

namespace Reckon
namespace Binary64

/-! ## Representable magnitudes -/

/-- The low bits of `u` that a significand of 53 bits has no room for. -/
def excess (u : Nat) : Nat := u.log2 - 52

/-- The units of `2 ^ 1024`, the first power of two that no double reaches. -/
def bound : Nat := 2 ^ (2098 : Nat)

/-- The units of the number one. -/
def unit : Nat := 2 ^ (1074 : Nat)

/-- A magnitude that a finite double has: 53 significant bits and below `2 ^ 1024`. -/
def Representable (u : Nat) : Prop := u % 2 ^ excess u = 0 ∧ u < bound

instance (u : Nat) : Decidable (Representable u) := inferInstanceAs (Decidable (_ ∧ _))

/-- The 53-bit multiple of a power of two that is nearest to `n / d`, ties to even. -/
def nearestUnits (n d : Nat) : Nat :=
  halfEven n (d * 2 ^ excess (n / d)) * 2 ^ excess (n / d)

theorem lt_two_pow_excess (u : Nat) : u < 2 ^ (53 + excess u) := by
  have h := Nat.lt_log2_self (n := u)
  have : 2 ^ (u.log2 + 1) ≤ 2 ^ (53 + excess u) :=
    Nat.pow_le_pow_right (by decide) (by unfold excess; omega)
  omega

/-- Fewer significant bits leave fewer low bits to drop. -/
theorem excess_le {u k : Nat} (h : u < 2 ^ (53 + k)) : excess u ≤ k := by
  by_cases hu : u = 0
  · simp [excess, hu]
  · have := (Nat.log2_lt hu).2 h
    unfold excess
    omega

theorem excess_two_pow (k : Nat) : excess (2 ^ (53 + k)) = k + 1 := by
  simp [excess, Nat.log2_two_pow]
  omega

/-- A multiple `m * 2 ^ k` with `m ≤ 2 ^ 53` has at most 53 significant bits. -/
theorem mod_excess_of_le {m k : Nat} (h : m ≤ 2 ^ (53 : Nat)) :
    m * 2 ^ k % 2 ^ excess (m * 2 ^ k) = 0 := by
  rcases Nat.lt_or_eq_of_le h with hlt | rfl
  · have hb : m * 2 ^ k < 2 ^ (53 + k) := by
      rw [Nat.pow_add]
      exact Nat.mul_lt_mul_of_pos_right hlt (Nat.two_pow_pos k)
    exact Nat.mod_eq_zero_of_dvd
      (Nat.dvd_trans (Nat.pow_dvd_pow 2 (excess_le hb)) (Nat.dvd_mul_left _ _))
  · rw [← Nat.pow_add, excess_two_pow]
    exact Nat.mod_eq_zero_of_dvd (Nat.pow_dvd_pow 2 (by omega))

/-- The significand that `nearestUnits` chooses has at most 53 bits, or is `2 ^ 53`. -/
theorem halfEven_excess_le (n d : Nat) :
    halfEven n (d * 2 ^ excess (n / d)) ≤ 2 ^ (53 : Nat) := by
  have h := halfEven_le n (d * 2 ^ excess (n / d))
  have hlt : n / d / 2 ^ excess (n / d) < 2 ^ (53 : Nat) := by
    rw [Nat.div_lt_iff_lt_mul (Nat.two_pow_pos _), ← Nat.pow_add]
    exact lt_two_pow_excess _
  rw [Nat.div_div_eq_div_mul] at hlt
  omega

/-- What rounding gives has at most 53 significant bits. -/
theorem nearestUnits_mod (n d : Nat) :
    nearestUnits n d % 2 ^ excess (nearestUnits n d) = 0 :=
  mod_excess_of_le (halfEven_excess_le n d)

/-- What rounding gives, unless it is too large, is representable. -/
theorem representable_nearestUnits {n d : Nat} (h : nearestUnits n d < bound) :
    Representable (nearestUnits n d) :=
  ⟨nearestUnits_mod n d, h⟩

/-- A quotient that is representable is its own rounding. -/
theorem nearestUnits_of_representable {u : Nat} (h : Representable u) {d : Nat} (hd : 0 < d) :
    nearestUnits (u * d) d = u := by
  obtain ⟨q, hq⟩ := Nat.dvd_of_mod_eq_zero h.1
  unfold nearestUnits
  rw [Nat.mul_div_cancel _ hd]
  have hpos : 0 < d * 2 ^ excess u := Nat.mul_pos hd (Nat.two_pow_pos _)
  have he : u * d = q * (d * 2 ^ excess u) := by
    calc u * d = 2 ^ excess u * q * d := by rw [← hq]
      _ = q * (d * 2 ^ excess u) := by simp [Nat.mul_comm, Nat.mul_left_comm]
  rw [he, halfEven_mul _ _ hpos, Nat.mul_comm q, ← hq]

@[simp] theorem nearestUnits_zero (d : Nat) : nearestUnits 0 d = 0 := by
  simp [nearestUnits]

theorem bound_pos : 0 < bound := by decide +kernel

theorem unit_pos : 0 < unit := by decide +kernel

theorem exists_unit_eq : ∃ k : Nat, unit = 2 ^ k := ⟨1074, by rw [unit]⟩

theorem representable_zero : Representable 0 := ⟨Nat.zero_mod _, bound_pos⟩

theorem representable_unit : Representable unit := by decide +kernel

end Binary64

/-! ## The numbers -/

/-- A double-precision number; a finite one is a representable number of units with a sign. -/
inductive Binary64 where
  | finite (negative : Bool) (units : Nat) (exact : Binary64.Representable units)
  | infinite (negative : Bool)
  | nan
deriving DecidableEq

namespace Binary64

/-- The double nearest to `n / d` units, ties to even; from `2 ^ 1024` on, infinity. -/
def ofRatio (negative : Bool) (n d : Nat) : Binary64 :=
  if h : nearestUnits n d < bound then
    .finite negative (nearestUnits n d) (representable_nearestUnits h)
  else .infinite negative

/-- Zero with a positive sign. -/
def zero : Binary64 := .finite false 0 representable_zero

/-- The number one. -/
def one : Binary64 := .finite false unit representable_unit

instance : Inhabited Binary64 := ⟨zero⟩

/-- Neither infinite nor nan. -/
def isFinite : Binary64 → Bool
  | .finite _ _ _ => true
  | _ => false

/-- Zero of either sign. -/
def isZero : Binary64 → Bool
  | .finite _ u _ => u == 0
  | _ => false

/-- Less than zero. -/
def isBelowZero : Binary64 → Bool
  | .finite s u _ => s && u != 0
  | .infinite s => s
  | .nan => false

/-- The number without a fractional part; infinity and nan have none to speak of. -/
def isWhole : Binary64 → Bool
  | .finite _ u _ => u % unit == 0
  | _ => false

/-- The number with the other sign. -/
def neg : Binary64 → Binary64
  | .finite s u h => .finite (!s) u h
  | .infinite s => .infinite (!s)
  | .nan => .nan

/-- The same number; the two zeros are the same one, and a nan stands for itself. -/
def same (x y : Binary64) : Bool := x == y || (x.isZero && y.isZero)

/-- The number itself unless it is infinite or nan. -/
def onlyFinite? : Binary64 → Option Binary64
  | .finite s u h => some (.finite s u h)
  | _ => none

/-- The double nearest to a whole number, if the number is in range. -/
def ofInt? (n : Int) : Option Binary64 :=
  (ofRatio (decide (n < 0)) (n.natAbs * unit) 1).onlyFinite?

/-- A double is its own rounding. -/
theorem ofRatio_units (s : Bool) {u : Nat} (h : Representable u) {d : Nat} (hd : 0 < d) :
    ofRatio s (u * d) d = .finite s u h := by
  unfold ofRatio
  simp [nearestUnits_of_representable h hd, h.2]

theorem ofRatio_zero (s : Bool) (d : Nat) : ofRatio s 0 d = .finite s 0 representable_zero := by
  simp [ofRatio, bound_pos]

theorem ofInt?_zero : ofInt? 0 = some zero := by
  have h := ofRatio_zero (decide ((0 : Int) < 0)) 1
  unfold ofInt?
  rw [Int.natAbs_zero, Nat.zero_mul, h]
  rfl

@[simp] theorem isFinite_neg (x : Binary64) : x.neg.isFinite = x.isFinite := by
  cases x <;> rfl

theorem onlyFinite?_eq_some {x y : Binary64} :
    x.onlyFinite? = some y ↔ x.isFinite = true ∧ x = y := by
  cases x <;> simp [onlyFinite?, isFinite]

end Binary64
end Reckon
