import Mathlib.Data.List.TakeWhile
import Reckon.Text.DecimalDigit

/-!
# Runs of characters

A run of characters of a class ends where a character of another class follows,
or the text.
-/

namespace Reckon
namespace Text

variable {p : Char → Bool}

/-- The text does not go on with a character of the class. -/
def Stops (p : Char → Bool) (rest : List Char) : Prop := ∀ c ∈ rest.head?, p c = false

theorem stops_nil : Stops p [] := by
  intro c hc
  cases hc

theorem stops_cons {c : Char} {cs : List Char} : Stops p (c :: cs) ↔ p c = false := by
  simp [Stops]

/-- What is left after the longest run does not go on with it. -/
theorem stops_dropWhile (p : Char → Bool) (cs : List Char) : Stops p (cs.dropWhile p) := by
  intro c hc
  have h := List.head?_dropWhile_not p cs
  rw [Option.mem_def.1 hc] at h
  exact h

/-- A run is all that is taken of the text. -/
theorem takeWhile_run {run rest : List Char} (h : ∀ c ∈ run, p c = true) (hrest : Stops p rest) :
    (run ++ rest).takeWhile p = run := by
  rw [List.takeWhile_append_of_pos h]
  cases rest with
  | nil => simp
  | cons c rest =>
    have hc : ¬ p c = true := by simp [stops_cons.1 hrest]
    rw [List.takeWhile_cons_of_neg hc, List.append_nil]

/-- What comes after a run is left. -/
theorem dropWhile_run {run rest : List Char} (h : ∀ c ∈ run, p c = true) (hrest : Stops p rest) :
    (run ++ rest).dropWhile p = rest := by
  rw [List.dropWhile_append_of_pos h]
  cases rest with
  | nil => rfl
  | cons c rest =>
    have hc : ¬ p c = true := by simp [stops_cons.1 hrest]
    exact List.dropWhile_cons_of_neg hc

/-- A digit is one of ten characters. -/
theorem mem_of_isAsciiDigit {c : Char} (h : isAsciiDigit c = true) : c ∈ "0123456789".toList := by
  simp only [isAsciiDigit, Bool.and_eq_true, decide_eq_true_eq] at h
  have h0 : 48 ≤ c.toNat := h.1
  have h9 : c.toNat ≤ 57 := h.2
  have hall : ∀ n < 10, Char.ofNat (48 + n) ∈ "0123456789".toList := by decide
  have hc := hall (c.toNat - 48) (by omega)
  rwa [Nat.add_sub_cancel' h0, Char.ofNat_toNat] at hc

end Text
end Reckon
