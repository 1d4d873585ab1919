import Mathlib.Data.Bool.AllAny
import Reckon.Entry
import Reckon.Proofs.Decimal.Numeral

/-!
# Numerals in fields

A field takes every numeral that is written for a double, and reads it as the
double that its digits stand for.

Results:

* `magnitude?_magnitude`: the number that a numeral without its sign is read as.
* `binary64?_text`: the double that a numeral is read as.
-/

namespace Reckon
namespace Entry

open Decimal (ofDigits)

/-! ## Characters of numerals -/

/-- The characters that numerals consist of. -/
def numeralChars : List Char := "0123456789+-.e".toList

theorem mem_numeralChars_of_isAsciiDigit {c : Char} (h : Text.isAsciiDigit c = true) :
    c ∈ numeralChars := by
  have hdigits : "0123456789".toList ⊆ numeralChars := by decide
  exact hdigits (Text.mem_of_isAsciiDigit h)

theorem mem_numeralChars_of_mem_powerText {power : Option Int} {c : Char}
    (h : c ∈ Numeral.powerText power) : c ∈ numeralChars := by
  cases power with
  | none => cases h
  | some e =>
    obtain ⟨ds, htext, -, hds, -⟩ := Numeral.exists_exponentDigits e
    rw [Numeral.powerText, htext] at h
    rcases List.mem_cons.1 h with rfl | h
    · decide
    · rcases List.mem_cons.1 h with rfl | h
      · split <;> decide
      · exact mem_numeralChars_of_isAsciiDigit (hds c h)

theorem mem_numeralChars_of_mem_text {n : Numeral} (hn : n.WellFormed) {c : Char}
    (h : c ∈ n.text) : c ∈ numeralChars := by
  rcases List.mem_append.1 h with hsign | hmagnitude
  · cases hnegative : n.negative with
    | false =>
      rw [hnegative] at hsign
      cases hsign
    | true =>
      rw [hnegative] at hsign
      obtain rfl : c = '-' := by simpa [Decimal.sign] using hsign
      decide
  rcases List.mem_append.1 hmagnitude with hwhole | hrest
  · exact mem_numeralChars_of_isAsciiDigit (hn.whole c hwhole)
  rcases List.mem_append.1 hrest with hplaces | hpower
  · unfold Numeral.placesText at hplaces
    split at hplaces
    · cases hplaces
    · rcases List.mem_cons.1 hplaces with rfl | hplaces
      · decide
      · exact mem_numeralChars_of_isAsciiDigit (hn.places c hplaces)
  · exact mem_numeralChars_of_mem_powerText hpower

/-- Nothing is blank, an underscore or a digit of another script in a numeral. -/
theorem plain_numeralChars {c : Char} (h : c ∈ numeralChars) :
    Text.isBlank c = false ∧ asciiDigit c = c ∧ c ≠ '_' := by
  have hall : ∀ d ∈ numeralChars, Text.isBlank d = false ∧ asciiDigit d = d ∧ d ≠ '_' :=
    List.all_iff_forall_prop.1 (by decide +kernel)
  exact hall c h

theorem trim_of_not_blank {cs : List Char} (h : ∀ c ∈ cs, Text.isBlank c = false) :
    Text.trim cs = cs := by
  have hdrop : ∀ ds : List Char, (∀ c ∈ ds, Text.isBlank c = false) →
      ds.dropWhile Text.isBlank = ds := by
    intro ds hds
    cases ds with
    | nil => rfl
    | cons d ds =>
      have hd : ¬ Text.isBlank d = true := by simp [hds d List.mem_cons_self]
      exact List.dropWhile_cons_of_neg hd
  rw [Text.trim, hdrop cs h, hdrop cs.reverse fun c hc => h c (List.mem_reverse.1 hc),
    List.reverse_reverse]

theorem dropSeparators_of_no_underscore {cs : List Char} (h : ∀ c ∈ cs, c ≠ '_') (after : Bool) :
    dropSeparators after cs = some cs := by
  induction cs generalizing after with
  | nil => rfl
  | cons c cs ih =>
    have hc : c ≠ '_' := h c List.mem_cons_self
    have hrest := ih fun d hd => h d (List.mem_cons_of_mem c hd)
    rw [dropSeparators, if_neg hc, hrest]
    · rfl
    · rintro d ds rfl -
      exact hc rfl

/-! ## Reading -/

theorem splitSign_digit {c : Char} (hc : Text.isAsciiDigit c = true) (cs : List Char) :
    splitSign (c :: cs) = (false, c :: cs) := by
  have hplus : c ≠ '+' := by
    rintro rfl
    exact absurd hc (by decide)
  have hminus : c ≠ '-' := by
    rintro rfl
    exact absurd hc (by decide)
  simp [splitSign, hplus, hminus]

theorem splitSign_text {n : Numeral} (hn : n.WellFormed) :
    splitSign n.text = (n.negative, n.magnitude) := by
  obtain ⟨c, cs, hwhole⟩ := List.exists_cons_of_ne_nil hn.whole_ne_nil
  unfold Numeral.text
  cases n.negative with
  | true => rfl
  | false =>
    have hc : Text.isAsciiDigit c = true := hn.whole c (by simp [hwhole])
    show splitSign n.magnitude = (false, n.magnitude)
    rw [Numeral.magnitude, hwhole, List.cons_append]
    exact splitSign_digit hc _

theorem splitSign_exponent (e : Int) (ds : List Char) :
    splitSign ((if e < 0 then '-' else '+') :: ds) = (decide (e < 0), ds) := by
  by_cases he : e < 0 <;> simp [he, splitSign]

theorem signed_natAbs (e : Int) :
    (if decide (e < 0) = true then -(e.natAbs : Int) else e.natAbs) = e := by
  by_cases he : e < 0
  · rw [decide_eq_true he, if_pos rfl]
    omega
  · rw [decide_eq_false he, if_neg Bool.false_ne_true]
    omega

theorem natAbs_signed (negative : Bool) (n : Nat) :
    (if negative then -(n : Int) else n).natAbs = n := by
  cases negative <;> simp

/-- An exponent is read as it has been written. -/
theorem exponent?_exponentText (e : Int) : exponent? (Decimal.exponentText e) = some e := by
  obtain ⟨ds, htext, hne, hds, hvalue⟩ := Numeral.exists_exponentDigits e
  have hall : ds ≠ [] ∧ ds.all Text.isAsciiDigit := ⟨hne, List.all_eq_true.2 hds⟩
  rw [htext, exponent?, splitSign_exponent]
  dsimp only
  rw [if_pos hall, hvalue, signed_natAbs]

theorem stops_powerText (power : Option Int) :
    Text.Stops Text.isAsciiDigit (Numeral.powerText power) := by
  cases power with
  | none => exact Text.stops_nil
  | some e => exact Text.stops_cons.2 (by decide)

theorem stops_placesText_append (places : List Char) (power : Option Int) :
    Text.Stops Text.isAsciiDigit (Numeral.placesText places ++ Numeral.powerText power) := by
  unfold Numeral.placesText
  split
  · exact stops_powerText power
  · exact Text.stops_cons.2 (by decide)

/-- The number that a numeral without its sign is read as. -/
theorem magnitude?_magnitude {n : Numeral} (hn : n.WellFormed) :
    magnitude? n.magnitude = some { n.toDecimal with negative := false } := by
  obtain ⟨negative, whole, places, power⟩ := n
  have hstops := stops_placesText_append places power
  have htake := Text.takeWhile_run hn.whole hstops
  have hdrop := Text.dropWhile_run hn.whole hstops
  have hwhole : whole ≠ [] := hn.whole_ne_nil
  have hplaces : ∀ c ∈ places, Text.isAsciiDigit c = true := hn.places
  have htakePlaces := Text.takeWhile_run hplaces (stops_powerText power)
  have hdropPlaces := Text.dropWhile_run hplaces (stops_powerText power)
  unfold magnitude? Numeral.magnitude
  dsimp only at htake hdrop ⊢
  rw [htake, hdrop]
  by_cases hnil : places = []
  · subst hnil
    cases power with
    | none => simp [Numeral.placesText, Numeral.powerText, Numeral.toDecimal, hwhole]
    | some e =>
      simp [Numeral.placesText, Numeral.powerText, Numeral.toDecimal, hwhole,
        exponent?_exponentText]
  · rw [Numeral.placesText, if_neg hnil, List.cons_append]
    simp only [htakePlaces, hdropPlaces]
    cases power with
    | none => simp [Numeral.powerText, Numeral.toDecimal, hwhole]
    | some e =>
      simp [Numeral.powerText, Numeral.toDecimal, hwhole, exponent?_exponentText]

/-- The double that a numeral is read as. -/
theorem binary64?_text {n : Numeral} (hn : n.WellFormed) :
    binary64? n.text = some n.toDecimal.toBinary64 := by
  have hchars : ∀ c ∈ n.text, Text.isBlank c = false ∧ asciiDigit c = c ∧ c ≠ '_' :=
    fun c hc => plain_numeralChars (mem_numeralChars_of_mem_text hn hc)
  have htrim : Text.trim n.text = n.text := trim_of_not_blank fun c hc => (hchars c hc).1
  have hmap : n.text.map asciiDigit = n.text := by
    rw [List.map_congr_left fun c hc => (hchars c hc).2.1, List.map_id']
  have hdrop : dropSeparators false n.text = some n.text :=
    dropSeparators_of_no_underscore (fun c hc => (hchars c hc).2.2) false
  -- a numeral begins with a digit, so that it is no word
  obtain ⟨c, cs, hwhole⟩ := List.exists_cons_of_ne_nil hn.whole_ne_nil
  have hword : ∀ w ∈ ["inf", "infinity", "nan"],
      String.ofList (n.magnitude.map Char.toLower) ≠ w := by
    intro w hw heq
    have hhead : (n.magnitude.map Char.toLower).head? = some c.toLower := by
      simp [Numeral.magnitude, hwhole]
    have hc : c ∈ "0123456789".toList := Text.mem_of_isAsciiDigit (hn.whole c (by simp [hwhole]))
    have hne : ∀ d ∈ "0123456789".toList, ∀ w ∈ ["inf", "infinity", "nan"],
        w.toList.head? ≠ some d.toLower := List.all_iff_forall_prop.1 (by decide)
    apply hne c hc w hw
    rw [← heq, String.toList_ofList, hhead]
  unfold binary64?
  rw [htrim, hmap, hdrop]
  simp only [Option.bind_eq_bind, Option.bind_some, splitSign_text hn]
  rw [if_neg (not_or.2 ⟨hword _ (by simp), hword _ (by simp)⟩), if_neg (hword _ (by simp)),
    magnitude?_magnitude hn]
  rfl

/-! ## Whole numbers -/

/-- Without its underscores a text has only characters that it had with them. -/
theorem mem_of_mem_dropSeparators {cs ds : List Char} {after : Bool}
    (h : dropSeparators after cs = some ds) : ∀ d ∈ ds, d ∈ cs ∧ d ≠ '_' := by
  fun_induction dropSeparators after cs generalizing ds with
  | case1 =>
    cases h
    intro d hd
    cases hd
  | case2 after d cs hdigit ih =>
    obtain ⟨es, hes, rfl⟩ := Option.map_eq_some_iff.1 h
    have hd : Text.isAsciiDigit d = true := (Bool.and_eq_true_iff.1 hdigit).2
    intro e he
    rcases List.mem_cons.1 he with rfl | he
    · refine ⟨by simp, ?_⟩
      rintro rfl
      exact absurd hd (by decide)
    · exact ⟨by simp [(ih hes e he).1], (ih hes e he).2⟩
  | case3 => cases h
  | case4 => cases h
  | case5 after c cs hne hc ih =>
    obtain ⟨es, hes, rfl⟩ := Option.map_eq_some_iff.1 h
    intro e he
    rcases List.mem_cons.1 he with rfl | he
    · exact ⟨List.mem_cons_self, hc⟩
    · exact ⟨List.mem_cons_of_mem c (ih hes e he).1, (ih hes e he).2⟩

/-- A whole number that has been read has not too many digits. -/
theorem length_digits_of_integer {text : List Char} {n : Int} (h : integer text = .ok n) :
    (Decimal.digits n.natAbs).length ≤ maxDigits := by
  unfold integer at h
  dsimp only at h
  split at h
  · cases h
  · rename_i ds hds
    split at h
    · cases h
    · rename_i hlength
      split at h
      · cases h
      · rename_i hne
        have hdigits : ∀ d ∈ ds, Text.isAsciiDigit d = true := by
          intro d hd
          obtain ⟨hmem, hunderscore⟩ := mem_of_mem_dropSeparators hds d hd
          have := List.mem_takeWhile_imp hmem
          simpa [hunderscore] using this
        rw [← Except.ok.inj h, natAbs_signed]
        exact Nat.le_trans (Decimal.length_digits_ofDigits_le (not_or.1 hne).1 hdigits)
          (Nat.not_lt.1 hlength)

end Entry
end Reckon
