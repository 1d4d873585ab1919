import Reckon.Decimal.Layout
import Reckon.Proofs.Decimal.Ratio
import Reckon.Proofs.Decimal.Value
import Reckon.Proofs.Text.Run

/-!
# The parts of a numeral

Whatever layout a decimal number is written in, the numeral has digits before
the point, perhaps digits after it, and perhaps a power of ten (`Numeral`), and
these parts stand for a number that is the same ratio and is read as the same
double. Who reads numerals needs to know no more about how they are written.

Results:

* `exists_numeral`: the parts of what is written for a decimal number.
* `writes_whole`, `writes_places`: the parts of a numeral without a power of ten.
* `exists_exponentDigits`: the parts of an exponent.
-/

namespace Reckon

/-- The parts of a numeral. Without digits after it there is no point. -/
structure Numeral where
  negative : Bool
  /-- The digits before the point. -/
  whole : List Char
  /-- The digits after the point. -/
  places : List Char
  power : Option Int

namespace Numeral

open Decimal (digits ofDigits)

/-- The point and the digits after it. -/
def placesText (places : List Char) : List Char := if places = [] then [] else '.' :: places

/-- The power of ten. -/
def powerText : Option Int → List Char
  | none => []
  | some e => 'e' :: Decimal.exponentText e

/-- The numeral without its sign. -/
def magnitude (n : Numeral) : List Char := n.whole ++ (placesText n.places ++ powerText n.power)

/-- The numeral. -/
def text (n : Numeral) : List Char := Decimal.sign n.negative ++ n.magnitude

/-- The number that the numeral stands for. -/
def toDecimal (n : Numeral) : Decimal :=
  ⟨n.negative, ofDigits (n.whole ++ n.places), n.power.getD 0 - n.places.length⟩

/-- There are digits before the point, and they begin with a zero only if it is the only one. -/
structure WellFormed (n : Numeral) : Prop where
  whole_ne_nil : n.whole ≠ []
  whole : ∀ c ∈ n.whole, Text.isAsciiDigit c = true
  places : ∀ c ∈ n.places, Text.isAsciiDigit c = true
  leading : n.whole = ['0'] ∨ n.whole.head? ≠ some '0'

/-- There is something besides the digits before the point. -/
def IsFractional (n : Numeral) : Prop := n.places ≠ [] ∨ n.power ≠ none

/-- A decimal number written in a numeral. -/
structure Writes (n : Numeral) (d : Decimal) (text : List Char) : Prop extends n.WellFormed where
  text_eq : n.text = text
  negative : n.negative = d.negative
  ratio : n.toDecimal.toRat = d.toRat
  value : n.toDecimal.toBinary64 = d.toBinary64

/-! ## Exponents -/

/-- An exponent is a sign and digits. -/
theorem exists_exponentDigits (e : Int) :
    ∃ ds, Decimal.exponentText e = (if e < 0 then '-' else '+') :: ds ∧ ds ≠ [] ∧
      (∀ c ∈ ds, Text.isAsciiDigit c = true) ∧ ofDigits ds = e.natAbs := by
  have hdigits : ∀ c ∈ Decimal.padded 1 e.natAbs, Text.isAsciiDigit c = true :=
    fun c hc => Decimal.isAsciiDigit_of_mem_padded hc
  exact ⟨_, rfl, Decimal.padded_ne_nil 1 e.natAbs, hdigits, Decimal.ofDigits_padded 1 e.natAbs⟩

/-! ## Written numbers -/

theorem leading_digits (m : Nat) : digits m = ['0'] ∨ (digits m).head? ≠ some '0' := by
  by_cases hm : m = 0
  · subst hm
    exact .inl Decimal.digits_zero
  · exact .inr (Decimal.head?_digits_ne_zero hm)

/-- A zero after the point is a zero more in the coefficient. -/
theorem toDecimal_whole (s : Bool) (c k : Nat) (point : Bool) :
    toDecimal ⟨s, digits (c * 10 ^ k), if point then ['0'] else [], none⟩ =
      ⟨s, c * 10 ^ (k + if point then 1 else 0), -(if point then 1 else 0 : Nat)⟩ := by
  unfold toDecimal
  cases point with
  | false => simp
  | true =>
    have hdigits : ofDigits (digits (c * 10 ^ k) ++ ['0']) = c * 10 ^ (k + 1) := by
      have := Decimal.ofDigits_append_replicate (digits (c * 10 ^ k)) 1
      rw [Decimal.ofDigits_digits, Nat.mul_assoc, ← Nat.pow_succ] at this
      exact this
    simp [hdigits]

/-- A whole number in positional notation, perhaps with a point and a zero after it. -/
theorem writes_whole (s : Bool) (c k : Nat) (point : Bool) :
    Writes ⟨s, digits (c * 10 ^ k), if point then ['0'] else [], none⟩ ⟨s, c, k⟩
      (Decimal.plain ⟨s, c, k⟩ ++ if point then ['.', '0'] else []) where
  whole_ne_nil := Decimal.digits_ne_nil _
  whole _ := Decimal.isAsciiDigit_of_mem_digits
  places d hd := by
    cases point with
    | false => cases hd
    | true =>
      obtain rfl : d = '0' := by simpa using hd
      decide
  leading := leading_digits _
  text_eq := by
    have hplain : Decimal.plain ⟨s, c, k⟩ = Decimal.sign s ++ digits (c * 10 ^ k) := by
      by_cases hc : c = 0
      · simp [Decimal.plain, hc, Decimal.digits_zero]
      · simp [Decimal.plain, hc, Decimal.digits_mul_pow hc]
    rw [hplain]
    cases point <;> simp [text, magnitude, placesText, powerText]
  negative := rfl
  ratio := by
    rw [toDecimal_whole, Decimal.toRat_mul_pow]
    cases point <;> simp
  value := by
    rw [toDecimal_whole, Decimal.toBinary64_mul_pow]
    cases point <;> simp

/-- The parts of a numeral with `k` digits after the point. -/
def withPlaces (s : Bool) (c k : Nat) : Numeral :=
  let ds := Decimal.padded k c
  ⟨s, ds.take (ds.length - k), ds.drop (ds.length - k), none⟩

theorem length_places_withPlaces (s : Bool) (c k : Nat) : (withPlaces s c k).places.length = k := by
  have hlength := Decimal.lt_length_padded k c
  show ((Decimal.padded k c).drop ((Decimal.padded k c).length - k)).length = k
  rw [List.length_drop]
  omega

theorem places_withPlaces_ne_nil (s : Bool) (c k : Nat) :
    (withPlaces s c (k + 1)).places ≠ [] := by
  rw [← List.length_pos_iff, length_places_withPlaces]
  exact Nat.succ_pos k

theorem toDecimal_withPlaces (s : Bool) (c k : Nat) : (withPlaces s c k).toDecimal = ⟨s, c, -k⟩ := by
  have hdigits : (withPlaces s c k).whole ++ (withPlaces s c k).places = Decimal.padded k c :=
    List.take_append_drop _ _
  unfold toDecimal
  rw [hdigits, length_places_withPlaces, Decimal.ofDigits_padded]
  simp [withPlaces]

/-- A number with places after the point in positional notation. -/
theorem writes_places (s : Bool) (c k : Nat) :
    (withPlaces s c (k + 1)).Writes ⟨s, c, .negSucc k⟩ (Decimal.plain ⟨s, c, .negSucc k⟩) := by
  have hlength := Decimal.lt_length_padded (k + 1) c
  have hdigits : ∀ d ∈ Decimal.padded (k + 1) c, Text.isAsciiDigit d = true :=
    fun d hd => Decimal.isAsciiDigit_of_mem_padded hd
  have hne := places_withPlaces_ne_nil s c k
  exact
    { whole_ne_nil := by
        rw [withPlaces, ← List.length_pos_iff, List.length_take]
        omega
      whole := fun d hd => hdigits d (List.mem_of_mem_take hd)
      places := fun d hd => hdigits d (List.mem_of_mem_drop hd)
      leading := Decimal.leading_take_padded (Nat.succ_pos k) c
      text_eq := by
        rw [text, magnitude, placesText, if_neg hne]
        simp [withPlaces, powerText, Decimal.plain, Decimal.withPoint, Decimal.padded]
      negative := rfl
      ratio := by
        rw [toDecimal_withPlaces]
        rfl
      value := by
        rw [toDecimal_withPlaces]
        rfl }

/-- A number with a power of ten. -/
theorem writes_power {l : Decimal.Layout} {d : Decimal}
    (h : ¬ (-4 ≤ d.leadingExponent ∧ d.leadingExponent < l.positionalBelow)) :
    ∃ n : Numeral, n.Writes d (Decimal.written l d) ∧ n.IsFractional := by
  obtain ⟨first, rest, hds⟩ := List.exists_cons_of_ne_nil (Decimal.digits_ne_nil d.coefficient)
  have hdigits : ∀ c ∈ first :: rest, Text.isAsciiDigit c = true := by
    rw [← hds]
    exact fun c hc => Decimal.isAsciiDigit_of_mem_digits hc
  have hvalue : toDecimal ⟨d.negative, [first], rest, some d.leadingExponent⟩ = d := by
    have hread : ofDigits (first :: rest) = d.coefficient := by
      rw [← hds, Decimal.ofDigits_digits]
    have hlength : (digits d.coefficient).length = rest.length + 1 := by
      rw [hds, List.length_cons]
    have hexp : d.leadingExponent - rest.length = d.exponent := by
      unfold Decimal.leadingExponent
      omega
    unfold toDecimal
    dsimp only [Option.getD]
    rw [List.singleton_append, hread, hexp]
  refine ⟨⟨d.negative, [first], rest, some d.leadingExponent⟩, ?_, .inr (by simp)⟩
  exact
    { whole_ne_nil := List.cons_ne_nil _ _
      whole := fun c hc => hdigits c (by simpa using .inl (by simpa using hc))
      places := fun c hc => hdigits c (List.mem_cons_of_mem first hc)
      leading := by
        by_cases hfirst : first = '0'
        · exact .inl (by rw [hfirst])
        · exact .inr (by simpa using hfirst)
      text_eq := by
        rw [Decimal.written, if_neg h, hds]
        cases rest <;> simp [text, magnitude, placesText, powerText]
      negative := rfl
      ratio := by rw [hvalue]
      value := by rw [hvalue] }

/-- The parts of what is written for a decimal number. In a layout that keeps the point in whole
numbers every numeral has a point or a power of ten. -/
theorem exists_numeral (l : Decimal.Layout) (d : Decimal) :
    ∃ n : Numeral, n.Writes d (Decimal.written l d) ∧ (l.wholePoint = true → n.IsFractional) := by
  by_cases hpositional : -4 ≤ d.leadingExponent ∧ d.leadingExponent < l.positionalBelow
  · rw [Decimal.written, if_pos hpositional]
    obtain ⟨s, c, e⟩ := d
    cases e with
    | ofNat k =>
      have hpoint : (l.wholePoint = true ∧ 0 ≤ Int.ofNat k) ↔ l.wholePoint = true :=
        and_iff_left (Int.natCast_nonneg k)
      simp only [hpoint]
      refine ⟨_, writes_whole s c k l.wholePoint, fun h => .inl ?_⟩
      simp [h]
    | negSucc k =>
      have hpoint : ¬ (l.wholePoint = true ∧ 0 ≤ Int.negSucc k) := by
        rintro ⟨-, h⟩
        omega
      rw [if_neg hpoint, List.append_nil]
      exact ⟨_, writes_places s c k, fun _ => .inl (places_withPlaces_ne_nil s c k)⟩
  · obtain ⟨n, hn, hfractional⟩ := writes_power hpositional
    exact ⟨n, hn, fun _ => hfractional⟩

end Numeral
end Reckon
