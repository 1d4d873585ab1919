import Reckon.Proofs.Entry.Numeral
import Reckon.Proofs.Json.Strings

/-!
# Numbers that are written and read

Settings text takes the numerals that are written for doubles, and tells them
from whole numbers by their point or their power of ten. What follows a number
must not go on with it (`Ends`).

Results:

* `number_text`: what a numeral is read as.
* `number_integerNumeral`, `exists_numeral_written`: a whole number and a double are read back.
* `gives_readWord?`: so are the words.
-/

namespace Reckon
namespace Json

open Decimal (ofDigits)

/-- A character that a number may go on with. -/
def inNumber (c : Char) : Bool := Text.isAsciiDigit c || c == '.' || c == 'e' || c == 'E'

/-- A number ends before the text. -/
def Ends (rest : List Char) : Prop := Text.Stops inNumber rest

variable {rest : List Char}

theorem Ends.digit (h : Ends rest) : Text.Stops Text.isAsciiDigit rest := by
  intro c hc
  have := h c hc
  simp only [inNumber, Bool.or_eq_false_iff] at this
  exact this.1.1.1

theorem Ends.point (h : Ends rest) : rest.head? ≠ some '.' := by
  intro hc
  exact absurd (h '.' hc) (by decide)

theorem Ends.power (h : Ends rest) : rest.head? ≠ some 'e' ∧ rest.head? ≠ some 'E' := by
  refine ⟨fun hc => ?_, fun hc => ?_⟩
  · exact absurd (h 'e' hc) (by decide)
  · exact absurd (h 'E' hc) (by decide)

theorem ends_nil : Ends [] := Text.stops_nil

theorem ends_cons {c : Char} {cs : List Char} (h : inNumber c = false) : Ends (c :: cs) :=
  Text.stops_cons.2 h

/-! ## The parts of a numeral -/

theorem digitRun_run {ds : List Char} (h : ∀ c ∈ ds, Text.isAsciiDigit c = true)
    (hrest : Text.Stops Text.isAsciiDigit rest) : digitRun (ds ++ rest) = (ds, rest) := by
  rw [digitRun, Text.takeWhile_run h hrest, Text.dropWhile_run h hrest]

theorem wholeRun_whole {n : Numeral} (hn : n.WellFormed)
    (hrest : Text.Stops Text.isAsciiDigit rest) : wholeRun (n.whole ++ rest) = (n.whole, rest) := by
  rcases hn.leading with hzero | hleading
  · rw [hzero]
    rfl
  · rw [wholeRun, digitRun_run hn.whole hrest]
    rintro tail heq
    obtain ⟨c, cs, hwhole⟩ := List.exists_cons_of_ne_nil hn.whole_ne_nil
    rw [hwhole] at heq hleading
    cases heq
    exact hleading rfl

theorem placesRun_placesText {places : List Char} (h : ∀ c ∈ places, Text.isAsciiDigit c = true)
    (hrest : Text.Stops Text.isAsciiDigit rest) (hpoint : rest.head? ≠ some '.') :
    placesRun (Numeral.placesText places ++ rest) = (places, rest) := by
  unfold Numeral.placesText
  split
  · rename_i hnil
    subst hnil
    rw [List.nil_append, placesRun]
    rintro tail rfl
    exact hpoint rfl
  · rename_i hne
    rw [List.cons_append, placesRun, digitRun_run h hrest, if_neg hne]

theorem powerRun_powerText (power : Option Int) (hrest : Ends rest) :
    powerRun (Numeral.powerText power ++ rest) = (power, rest) := by
  cases power with
  | none =>
    cases rest with
    | nil => rfl
    | cons c rest =>
      have hc : ¬ (c = 'e' ∨ c = 'E') := by
        rintro (rfl | rfl)
        · exact hrest.power.1 rfl
        · exact hrest.power.2 rfl
      exact if_neg hc
  | some e =>
    obtain ⟨ds, htext, hne, hds, hvalue⟩ := Numeral.exists_exponentDigits e
    rw [Numeral.powerText, htext]
    show powerRun ('e' :: (if e < 0 then '-' else '+') :: (ds ++ rest)) = _
    rw [powerRun, if_pos (.inl rfl), Entry.splitSign_exponent]
    dsimp only
    rw [digitRun_run hds hrest.digit]
    dsimp only
    rw [if_neg hne, hvalue, Entry.signed_natAbs]

theorem stops_power_append (power : Option Int) (hrest : Ends rest) :
    Text.Stops Text.isAsciiDigit (Numeral.powerText power ++ rest) ∧
      (Numeral.powerText power ++ rest).head? ≠ some '.' := by
  cases power with
  | none => exact ⟨hrest.digit, hrest.point⟩
  | some e => exact ⟨Text.stops_cons.2 (by decide), by simp [Numeral.powerText]⟩

theorem stops_places_append (n : Numeral) (hrest : Ends rest) :
    Text.Stops Text.isAsciiDigit
      (Numeral.placesText n.places ++ (Numeral.powerText n.power ++ rest)) := by
  unfold Numeral.placesText
  split
  · exact (stops_power_append n.power hrest).1
  · exact Text.stops_cons.2 (by decide)

/-! ## Numbers -/

/-- What a numeral is read as: a whole number if there is nothing but the digits before a point. -/
theorem number_text {n : Numeral} (hn : n.WellFormed) (hrest : Ends rest) :
    number (n.text ++ rest) =
      if n.places = [] ∧ n.power = none then
        if Entry.maxDigits < n.whole.length then .error .integerTooLong
        else
          .ok (.integer (if n.negative then -(ofDigits n.whole : Int) else ofDigits n.whole), rest)
      else .ok (.float n.toDecimal.toBinary64, rest) := by
  have hpower := stops_power_append n.power hrest
  have hwhole := wholeRun_whole hn (stops_places_append n hrest)
  have hplaces := placesRun_placesText hn.places hpower.1 hpower.2
  have htext : n.text ++ rest = Decimal.sign n.negative ++ (n.whole ++
      (Numeral.placesText n.places ++ (Numeral.powerText n.power ++ rest))) := by
    simp [Numeral.text, Numeral.magnitude]
  rw [htext]
  cases hnegative : n.negative with
  | true =>
    show number ('-' :: (n.whole ++ _)) = _
    simp only [number, hwhole, hplaces, powerRun_powerText n.power hrest]
    rw [if_neg hn.whole_ne_nil, Numeral.toDecimal, hnegative]
  | false =>
    obtain ⟨c, cs, hcons⟩ := List.exists_cons_of_ne_nil hn.whole_ne_nil
    have hc : c ≠ '-' := by
      rintro rfl
      exact absurd (hn.whole '-' (by rw [hcons]; exact List.mem_cons_self)) (by decide)
    show number (n.whole ++ _) = _
    rw [hcons, List.cons_append] at hwhole
    rw [hcons, List.cons_append, Numeral.toDecimal, hnegative, hcons]
    simp [number, hc, hwhole, hplaces, powerRun_powerText n.power hrest]

/-- A numeral is read as a value, and what follows it is left. -/
theorem gives_readNumber {n : Numeral} (hn : n.WellFormed) {v : Value}
    (h : number (n.text ++ rest) = .ok (v, rest)) : Gives (readNumber (n.text ++ rest)) v rest := by
  have hshorter : rest.length < (n.text ++ rest).length := by
    have hlength := List.length_pos_iff.2 hn.whole_ne_nil
    simp only [Numeral.text, Numeral.magnitude, List.length_append]
    omega
  unfold readNumber
  rw [h]
  dsimp only
  rw [dif_pos hshorter]
  exact ⟨hshorter, rfl⟩

/-- The numeral of a whole number. -/
def integerNumeral (n : Int) : Numeral := ⟨n < 0, Decimal.digits n.natAbs, [], none⟩

theorem text_integerNumeral (n : Int) : (integerNumeral n).text = Decimal.ofInt n := by
  simp [integerNumeral, Numeral.text, Numeral.magnitude, Numeral.placesText, Numeral.powerText,
    Decimal.ofInt]

theorem wellFormed_integerNumeral (n : Int) : (integerNumeral n).WellFormed where
  whole_ne_nil := Decimal.digits_ne_nil _
  whole _ := Decimal.isAsciiDigit_of_mem_digits
  places c hc := by cases hc
  leading := Numeral.leading_digits _

/-- A whole number that has not too many digits is read back. -/
theorem number_integerNumeral {n : Int} (h : (Decimal.digits n.natAbs).length ≤ Entry.maxDigits)
    (hrest : Ends rest) : number ((integerNumeral n).text ++ rest) = .ok (.integer n, rest) := by
  have hdigits : ¬ Entry.maxDigits < (integerNumeral n).whole.length := Nat.not_lt.2 h
  have hvalue : ofDigits (integerNumeral n).whole = n.natAbs := Decimal.ofDigits_digits _
  have hnegative : (integerNumeral n).negative = decide (n < 0) := rfl
  rw [number_text (wellFormed_integerNumeral n) hrest, if_pos ⟨rfl, rfl⟩, if_neg hdigits, hvalue,
    hnegative, Entry.signed_natAbs]

/-- A double is written in a numeral that is read back. -/
theorem exists_numeral_written (s : Bool) {u : Nat} (h : Binary64.Representable u) :
    ∃ n : Numeral, n.WellFormed ∧ n.text = (Binary64.finite s u h).written ∧
      ∀ rest, Ends rest → number (n.text ++ rest) = .ok (.float (.finite s u h), rest) := by
  obtain ⟨n, hn, hfractional⟩ :=
    Numeral.exists_numeral .exact { Binary64.shortest u with negative := s }
  have hparts : ¬ (n.places = [] ∧ n.power = none) := by
    rintro ⟨hplaces, hpower⟩
    exact (hfractional rfl).elim (· hplaces) (· hpower)
  refine ⟨n, hn.toWellFormed, hn.text_eq, fun rest hrest => ?_⟩
  rw [number_text hn.toWellFormed hrest, if_neg hparts, hn.value, Decimal.toBinary64_shortest h]

/-! ## Words -/

theorem readWord?_eq_none {cs : List Char} (h : ∀ w ∈ words, ¬ w.1 <+: cs) :
    readWord? cs = none := by
  unfold readWord?
  rw [List.findSome?_eq_none_iff]
  rintro ⟨word, v⟩ hw
  exact dif_neg fun hword => h _ hw hword.2

/-- The words are read as what they stand for. -/
theorem gives_readWord? {word : List Char} {v : Value} (h : (word, v) ∈ words) (rest : List Char) :
    ∃ hlt, readWord? (word ++ rest) = some ⟨v, rest, hlt⟩ := by
  simp only [words, List.mem_cons, Prod.mk.injEq, List.not_mem_nil, or_false] at h
  rcases h with ⟨rfl, rfl⟩ | ⟨rfl, rfl⟩ | ⟨rfl, rfl⟩ | ⟨rfl, rfl⟩ | ⟨rfl, rfl⟩ | ⟨rfl, rfl⟩ <;>
    exact ⟨_, rfl⟩

/-- A word begins with a letter, after a sign or without one. -/
theorem exists_word_cons {w : List Char × Value} (h : w ∈ words) :
    ∃ a b cs, w.1 = a :: b :: cs ∧ Text.isAsciiDigit a = false ∧
      (a = '-' → Text.isAsciiDigit b = false) := by
  simp only [words, List.mem_cons, List.not_mem_nil, or_false] at h
  rcases h with rfl | rfl | rfl | rfl | rfl | rfl <;>
    exact ⟨_, _, _, rfl, by decide, by decide⟩

theorem readWord?_numeral {n : Numeral} (hn : n.WellFormed) (rest : List Char) :
    readWord? (n.text ++ rest) = none := by
  obtain ⟨c, cs, hcons⟩ := List.exists_cons_of_ne_nil hn.whole_ne_nil
  have hc : Text.isAsciiDigit c = true := hn.whole c (by rw [hcons]; exact List.mem_cons_self)
  apply readWord?_eq_none
  rintro w hw ⟨tail, htail⟩
  obtain ⟨a, b, word, hword, ha, hb⟩ := exists_word_cons hw
  have htext : a :: b :: (word ++ tail) = Decimal.sign n.negative ++ c :: (cs ++
      (Numeral.placesText n.places ++ Numeral.powerText n.power) ++ rest) := by
    rw [hword] at htail
    simpa [Numeral.text, Numeral.magnitude, hcons] using htail
  cases hnegative : n.negative with
  | false =>
    rw [hnegative] at htext
    have hac : a = c := (List.cons.inj htext).1
    rw [← hac, ha] at hc
    cases hc
  | true =>
    rw [hnegative] at htext
    obtain ⟨hminus, hrest⟩ := List.cons.inj htext
    have hbc : b = c := (List.cons.inj hrest).1
    rw [← hbc, hb hminus] at hc
    cases hc

end Json
end Reckon
