import Reckon.Decimal.Basic
import Reckon.Text.DecimalDigit

/-!
# Digits of whole numbers

Digits that are written are read back, and zeros before or after them do what
zeros do.

Results:

* `ofDigits_digits`: the digits of a number stand for it.
* `digits_mul_pow`: a power of ten adds zeros at the end.
* `length_digits_le_iff`, `pow_le_of_length_digits`: how many digits a number has.
* `leading_take_padded`: how digits begin that stand before a point.
-/

namespace Reckon
namespace Decimal

@[simp] theorem ofDigits_nil : ofDigits [] = 0 := rfl

@[simp] theorem ofDigits_digits (n : Nat) : ofDigits (digits n) = n :=
  Nat.ofDigitChars_ten_toDigits

theorem ofDigits_append (a b : List Char) :
    ofDigits (a ++ b) = ofDigits a * 10 ^ b.length + ofDigits b := by
  unfold ofDigits
  rw [Nat.ofDigitChars_append, Nat.ofDigitChars_eq_ofDigitChars_zero, Nat.mul_comm]

theorem ofDigits_replicate (k : Nat) : ofDigits (List.replicate k '0') = 0 := by
  unfold ofDigits
  rw [Nat.ofDigitChars_replicate_zero, Nat.mul_zero]

/-- Zeros before the digits change nothing. -/
@[simp] theorem ofDigits_replicate_append (k : Nat) (ds : List Char) :
    ofDigits (List.replicate k '0' ++ ds) = ofDigits ds := by
  rw [ofDigits_append, ofDigits_replicate, Nat.zero_mul, Nat.zero_add]

/-- Each zero after the digits makes the number ten times as great. -/
@[simp] theorem ofDigits_append_replicate (ds : List Char) (k : Nat) :
    ofDigits (ds ++ List.replicate k '0') = ofDigits ds * 10 ^ k := by
  rw [ofDigits_append, ofDigits_replicate, List.length_replicate, Nat.add_zero]

theorem ofDigits_lt (ds : List Char) (h : ∀ d ∈ ds, Text.isAsciiDigit d = true) :
    ofDigits ds < 10 ^ ds.length := by
  induction ds with
  | nil => decide
  | cons d ds ih =>
    have hd : d.toNat - '0'.toNat ≤ 9 := by
      have hdigit := h d List.mem_cons_self
      simp only [Text.isAsciiDigit, Bool.and_eq_true, decide_eq_true_eq, Char.le_def] at hdigit
      have : d.toNat ≤ '9'.toNat := hdigit.2
      have : '9'.toNat - '0'.toNat = 9 := rfl
      omega
    have hone : ofDigits [d] = d.toNat - '0'.toNat := by
      simp [ofDigits, Nat.ofDigitChars_cons]
    have hrest := ih fun c hc => h c (List.mem_cons_of_mem d hc)
    have happend := ofDigits_append [d] ds
    rw [hone] at happend
    rw [← List.singleton_append, happend, List.singleton_append, List.length_cons, Nat.pow_succ]
    calc (d.toNat - '0'.toNat) * 10 ^ ds.length + ofDigits ds
        < 9 * 10 ^ ds.length + 10 ^ ds.length :=
          Nat.add_lt_add_of_le_of_lt (Nat.mul_le_mul_right _ hd) hrest
      _ = 10 ^ ds.length * 10 := by omega

/-! ## Written digits -/

theorem digits_ne_nil (n : Nat) : digits n ≠ [] :=
  Nat.toDigits_ne_nil

theorem digits_zero : digits 0 = ['0'] :=
  Nat.toDigits_zero 10

theorem isAsciiDigit_of_mem_digits {n : Nat} {c : Char} (h : c ∈ digits n) :
    Text.isAsciiDigit c = true := by
  have hdigit := Nat.isDigit_of_mem_toDigits (by decide) (by decide) h
  simpa [Char.isDigit, Text.isAsciiDigit, Char.le_def, and_comm] using hdigit

/-- A number that is not zero does not begin with a zero. -/
theorem head?_digits_ne_zero {n : Nat} (hn : n ≠ 0) : (digits n).head? ≠ some '0' := by
  induction n using Nat.strongRecOn with
  | ind n ih =>
    rw [digits, Nat.toDigits_eq_if (by decide)]
    split
    · rename_i hlt
      have hall : ∀ m < 10, m ≠ 0 → [Nat.digitChar m].head? ≠ some '0' := by decide
      exact hall n hlt hn
    · rename_i hle
      have hrest : (Nat.toDigits 10 (n / 10)).head? ≠ some '0' := ih (n / 10) (by omega) (by omega)
      obtain ⟨d, ds, hds⟩ := List.exists_cons_of_ne_nil
        (Nat.toDigits_ne_nil (n := n / 10) (b := 10))
      rwa [hds] at hrest ⊢

/-- The last digit is what is left over by the tens. -/
theorem getLast?_digits (n : Nat) : (digits n).getLast? = some (Nat.digitChar (n % 10)) := by
  rw [digits, Nat.toDigits_eq_if (by decide)]
  split
  · rename_i hlt
    rw [Nat.mod_eq_of_lt hlt]
    rfl
  · rw [List.getLast?_concat]

theorem getLast?_digits_ne_zero {n : Nat} (h : n % 10 ≠ 0) : (digits n).getLast? ≠ some '0' := by
  have hall : ∀ m < 10, m ≠ 0 → some (Nat.digitChar m) ≠ some '0' := by decide
  rw [getLast?_digits]
  exact hall _ (Nat.mod_lt n (by decide)) h

/-- A power of ten adds zeros at the end. -/
theorem digits_mul_pow {c : Nat} (hc : c ≠ 0) (k : Nat) :
    digits (c * 10 ^ k) = digits c ++ List.replicate k '0' := by
  induction k with
  | zero => simp
  | succ k ih =>
    have hpos : 0 < c * 10 ^ k := Nat.mul_pos (Nat.pos_of_ne_zero hc) (Nat.pow_pos (by decide))
    have hsplit : c * 10 ^ (k + 1) = 10 * (c * 10 ^ k) + 0 := by
      rw [Nat.pow_succ, Nat.add_zero, ← Nat.mul_assoc, Nat.mul_comm]
    have happend := Nat.toDigits_append_toDigits (b := 10) (by decide) hpos (d := 0) (by decide)
    rw [hsplit, digits, ← happend, Nat.toDigits_zero]
    show digits (c * 10 ^ k) ++ ['0'] = _
    rw [ih, List.append_assoc, ← List.replicate_succ']

theorem length_digits_le_iff {n k : Nat} (hk : 0 < k) : (digits n).length ≤ k ↔ n < 10 ^ k :=
  Nat.length_toDigits_le_iff (by decide) hk

theorem length_digits_ofDigits_le {ds : List Char} (hne : ds ≠ [])
    (h : ∀ d ∈ ds, Text.isAsciiDigit d = true) : (digits (ofDigits ds)).length ≤ ds.length :=
  (length_digits_le_iff (List.length_pos_iff.2 hne)).2 (ofDigits_lt ds h)

theorem length_digits_pos (n : Nat) : 0 < (digits n).length :=
  Nat.length_toDigits_pos

theorem lt_pow_length_digits (n : Nat) : n < 10 ^ (digits n).length :=
  (length_digits_le_iff (length_digits_pos n)).1 (Nat.le_refl _)

/-- A number with many digits is at least the power of ten of its first digit. -/
theorem pow_le_of_length_digits {n : Nat} (hn : n ≠ 0) : 10 ^ ((digits n).length - 1) ≤ n := by
  rcases Nat.eq_zero_or_pos ((digits n).length - 1) with hzero | hpos
  · rw [hzero]
    exact Nat.pos_of_ne_zero hn
  · have hlength := length_digits_pos n
    refine Nat.le_of_not_lt fun hlt => ?_
    have hle := (length_digits_le_iff hpos).2 hlt
    omega

/-! ## Digits after zeros -/

/-- The digits of a number, with zeros before them as far as it takes for more than `k` digits. -/
def padded (k n : Nat) : List Char := List.replicate (k + 1 - (digits n).length) '0' ++ digits n

theorem lt_length_padded (k n : Nat) : k < (padded k n).length := by
  rw [padded, List.length_append, List.length_replicate]
  omega

theorem padded_ne_nil (k n : Nat) : padded k n ≠ [] :=
  List.ne_nil_of_length_pos (Nat.zero_lt_of_lt (lt_length_padded k n))

theorem isAsciiDigit_of_mem_padded {k n : Nat} {c : Char} (h : c ∈ padded k n) :
    Text.isAsciiDigit c = true := by
  rcases List.mem_append.1 h with hzero | hdigit
  · rw [List.eq_of_mem_replicate hzero]
    decide
  · exact isAsciiDigit_of_mem_digits hdigit

theorem ofDigits_padded (k n : Nat) : ofDigits (padded k n) = n := by
  rw [padded, ofDigits_replicate_append, ofDigits_digits]

/-- Before the last `k` digits there is one zero, or what is there does not begin with a zero: it is
the zero that has been put there, or the digits of a number that has as many. -/
theorem leading_take_padded {k : Nat} (hk : 0 < k) (n : Nat) :
    (padded k n).take ((padded k n).length - k) = ['0'] ∨
      ((padded k n).take ((padded k n).length - k)).head? ≠ some '0' := by
  have hlength := lt_length_padded k n
  by_cases hshort : (digits n).length ≤ k
  · left
    have hone : (padded k n).length - k = 1 := by
      rw [padded, List.length_append, List.length_replicate]
      omega
    obtain ⟨m, hm⟩ : ∃ m, k + 1 - (digits n).length = m + 1 := ⟨k - (digits n).length, by omega⟩
    rw [hone, padded, hm]
    rfl
  · right
    have hnone : k + 1 - (digits n).length = 0 := by omega
    have hdigits : padded k n = digits n := by
      rw [padded, hnone]
      rfl
    have hn : n ≠ 0 := by
      rintro rfl
      rw [digits_zero] at hshort
      exact hshort hk
    rw [List.head?_take, if_neg (by omega), hdigits]
    exact head?_digits_ne_zero hn

end Decimal
end Reckon
