import Mathlib.Tactic.Common
import Reckon.Json.Reader
import Reckon.Json.Writer

/-!
# Strings that are written and read

Every character is read back from what is written for it, whether it stands for
itself, after a backslash, or by its number in one half or two.

Results:

* `escapes_escape`: in which ways a character is written.
* `gives_readChars_escape`: one character is read back.
* `gives_readChars_writeString`: a string, from its first character to the closing quote.
-/

namespace Reckon
namespace Json

/-- Reading gives a value and leaves a rest of the text. -/
def Gives {α : Type} {n : Nat} (r : Except ReadFault (Read α n)) (a : α) (rest : List Char) :
    Prop :=
  ∃ h, r = .ok ⟨a, rest, h⟩

theorem Gives.map {α β : Type} {n m : Nat} {r : Except ReadFault (Read α n)} {a : α}
    {rest : List Char} (h : Gives r a rest) (f : α → β) (hle : n ≤ m) :
    Gives (r.map fun r => (r.map f).weaken hle) (f a) rest := by
  obtain ⟨hshorter, rfl⟩ := h
  exact ⟨Nat.lt_of_lt_of_le hshorter hle, rfl⟩

/-! ## Hexadecimal digits -/

/-- The last digit of more than one. -/
theorem hex_succ {w : Nat} (hw : 0 < w) (n : Nat) :
    Text.hex (w + 1) n = Text.hex w (n / 16) ++ [Nat.digitChar (n % 16)] := by
  obtain ⟨w, rfl⟩ := Nat.exists_eq_succ_of_ne_zero (Nat.ne_of_gt hw)
  unfold Text.hex
  rw [Nat.toDigits_eq_if (n := n) (by decide)]
  split
  · rename_i hlt
    rw [Nat.div_eq_of_lt hlt, Nat.mod_eq_of_lt hlt, Nat.toDigits_zero]
    simp [List.replicate_succ']
  · simp

theorem hex_four {n : Nat} (h : n < 0x10000) :
    Text.hex 4 n = [Nat.digitChar (n / 4096), Nat.digitChar (n / 256 % 16),
      Nat.digitChar (n / 16 % 16), Nat.digitChar (n % 16)] := by
  have hone : Text.hex 1 (n / 4096) = [Nat.digitChar (n / 4096)] := by
    unfold Text.hex
    rw [Nat.toDigits_eq_if (by decide), if_pos (by omega)]
    rfl
  have hsixteen : n / 16 / 16 = n / 256 := Nat.div_div_eq_div_mul n 16 16
  have hfirst : n / 256 / 16 = n / 4096 := Nat.div_div_eq_div_mul n 256 16
  rw [hex_succ (by decide), hex_succ (by decide), hex_succ (by decide), hsixteen, hfirst, hone]
  rfl

theorem hexValue?_digitChar {k : Nat} (h : k < 16) : hexValue? (Nat.digitChar k) = some k := by
  have hall : ∀ k < 16, hexValue? (Nat.digitChar k) = some k := by decide
  exact hall k h

/-- Four digits are read as the number they have been written for. -/
theorem exists_hex4 {n : Nat} (h : n < 0x10000) :
    ∃ a b c d, hex4 n = ['\\', 'u', a, b, c, d] ∧ hex4? a b c d = some n := by
  refine ⟨_, _, _, _, by rw [hex4, hex_four h], ?_⟩
  unfold hex4?
  rw [hexValue?_digitChar (by omega), hexValue?_digitChar (by omega),
    hexValue?_digitChar (by omega), hexValue?_digitChar (by omega)]
  simp
  omega

/-! ## Characters -/

variable {cs s rest : List Char}

theorem gives_readChars_plain {c : Char} (hcontrol : 0x20 ≤ c.toNat) (hquote : c ≠ '"')
    (hbackslash : c ≠ '\\') (h : Gives (readChars cs) s rest) :
    Gives (readChars (c :: cs)) (c :: s) rest := by
  rw [readChars]
  · have hplain : ¬ (c.toNat < 0x20 ∨ c = '\\') := not_or.2 ⟨Nat.not_lt.2 hcontrol, hbackslash⟩
    rw [if_neg hplain]
    exact h.map (c :: ·) _
  all_goals simp_all

theorem gives_readChars_escaped {c e : Char} (hu : c ≠ 'u') (he : escaped? c = some e)
    (h : Gives (readChars cs) s rest) : Gives (readChars ('\\' :: c :: cs)) (e :: s) rest := by
  rw [readChars]
  · rw [he]
    exact h.map (e :: ·) _
  all_goals simp_all

theorem gives_readChars_hex4 {n : Nat} (hn : n < 0x10000) (hhigh : isHighHalf n = false)
    (h : Gives (readChars cs) s rest) : Gives (readChars (hex4 n ++ cs)) (charOf n :: s) rest := by
  obtain ⟨a, b, c, d, htext, hread⟩ := exists_hex4 hn
  rw [htext]
  show Gives (readChars ('\\' :: 'u' :: a :: b :: c :: d :: cs)) _ _
  rw [readChars, hread]
  dsimp only
  rw [hhigh]
  exact h.map (charOf n :: ·) _

/-- Two halves are read as one character. -/
theorem gives_readChars_pair {n m : Nat} (hn : n < 0x10000) (hhigh : isHighHalf n = true)
    (hm : m < 0x10000) (hlow : isLowHalf m = true) (h : Gives (readChars cs) s rest) :
    Gives (readChars (hex4 n ++ (hex4 m ++ cs)))
      (charOf (0x10000 + (n - 0xD800) * 0x400 + (m - 0xDC00)) :: s) rest := by
  obtain ⟨a, b, c, d, htext, hread⟩ := exists_hex4 hn
  obtain ⟨a', b', c', d', htext', hread'⟩ := exists_hex4 hm
  have hhalf : ∃ hlt,
      lowHalf? ('\\' :: 'u' :: a' :: b' :: c' :: d' :: cs) = some (m, ⟨cs, hlt⟩) := by
    rw [lowHalf?, hread']
    dsimp only
    rw [if_pos hlow]
    exact ⟨_, rfl⟩
  obtain ⟨hlt, hhalf⟩ := hhalf
  rw [htext, htext']
  show Gives (readChars ('\\' :: 'u' :: a :: b :: c :: d ::
    '\\' :: 'u' :: a' :: b' :: c' :: d' :: cs)) _ _
  rw [readChars, hread]
  dsimp only
  rw [if_pos hhigh, hhalf]
  exact h.map (_ :: ·) _

theorem charOf_toNat (c : Char) : charOf c.toNat = c := by
  have hvalid : c.toNat.isValidChar := c.valid
  rw [charOf, if_pos hvalid, Char.ofNat_toNat]

/-- The ways in which a character is written. -/
inductive Escapes (c : Char) : List Char → Prop
  | escaped {e : Char} (ne : e ≠ 'u') (stands : escaped? e = some c) : Escapes c ['\\', e]
  | plain (control : 0x20 ≤ c.toNat) (quote : c ≠ '"') (backslash : c ≠ '\\') : Escapes c [c]
  | half (small : c.toNat < 0x10000) : Escapes c (hex4 c.toNat)
  | pair (large : 0x10000 ≤ c.toNat) : Escapes c
      (hex4 (0xD800 + (c.toNat - 0x10000) / 0x400) ++ hex4 (0xDC00 + (c.toNat - 0x10000) % 0x400))

theorem escapes_escape (c : Char) : Escapes c (escape c) := by
  unfold escape
  by_cases hquote : c = '"'
  · subst hquote
    exact .escaped (by decide) rfl
  by_cases hbackslash : c = '\\'
  · subst hbackslash
    exact .escaped (by decide) rfl
  rw [if_neg hquote, if_neg hbackslash]
  iterate 5
    split
    · subst c
      exact .escaped (by decide) rfl
  split
  · rename_i hplain
    exact .plain hplain.1 hquote hbackslash
  split
  · exact .half ‹_›
  · exact .pair (Nat.not_lt.1 ‹_›)

/-- A character is read from what is written for it. -/
theorem gives_readChars_escape (c : Char) (h : Gives (readChars cs) s rest) :
    Gives (readChars (escape c ++ cs)) (c :: s) rest := by
  have hvalid : c.toNat < 0xD800 ∨ (0xDFFF < c.toNat ∧ c.toNat < 0x110000) := c.valid
  have hescapes := escapes_escape c
  generalize escape c = text at hescapes ⊢
  cases hescapes with
  | escaped ne stands => exact gives_readChars_escaped ne stands h
  | plain control quote backslash => exact gives_readChars_plain control quote backslash h
  | half small =>
    have hhigh : isHighHalf c.toNat = false := by
      unfold isHighHalf
      rw [Bool.and_eq_false_iff, decide_eq_false_iff_not, decide_eq_false_iff_not]
      omega
    have hread := gives_readChars_hex4 small hhigh h
    rwa [charOf_toNat] at hread
  | pair large =>
    have hhigh : isHighHalf (0xD800 + (c.toNat - 0x10000) / 0x400) = true := by
      unfold isHighHalf
      rw [Bool.and_eq_true, decide_eq_true_eq, decide_eq_true_eq]
      omega
    have hlow : isLowHalf (0xDC00 + (c.toNat - 0x10000) % 0x400) = true := by
      unfold isLowHalf
      rw [Bool.and_eq_true, decide_eq_true_eq, decide_eq_true_eq]
      omega
    have hread := gives_readChars_pair (by omega) hhigh (by omega) hlow h
    have hwhole : 0x10000 + (0xD800 + (c.toNat - 0x10000) / 0x400 - 0xD800) * 0x400 +
        (0xDC00 + (c.toNat - 0x10000) % 0x400 - 0xDC00) = c.toNat := by omega
    rw [hwhole, charOf_toNat] at hread
    rwa [List.append_assoc]

/-- A string is read from what is written for it, from its first character on. -/
theorem gives_readChars_writeString (s rest : List Char) :
    Gives (readChars (s.flatMap escape ++ '"' :: rest)) s rest := by
  induction s with
  | nil =>
    rw [List.flatMap_nil, List.nil_append, readChars]
    exact ⟨_, rfl⟩
  | cons c s ih =>
    rw [List.flatMap_cons, List.append_assoc]
    exact gives_readChars_escape c ih

end Json
end Reckon
