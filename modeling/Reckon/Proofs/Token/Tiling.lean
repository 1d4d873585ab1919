import Reckon.Proofs.Text.Run
import Reckon.Proofs.Token.Place

/-!
# The tokens of a formula and the text between them

The tokens of the lenient scan cut the formula up: they stand in it one after
the other, exactly the blanks are outside of them, and no number and no
identifier could go on where it ends. Of tokens that stand so it is known which of
them the strict scan refuses, and why.

Results:

* `lexeme_cases`: what can be taken where a token begins.
* `tiles_scan`: the tokens of a formula cut it up.
* `refusal?_eq_some_iff`: which of them are refused.
* `scan_tiles_and_check`: both scans of a formula.
-/

namespace Reckon
namespace Token

/-- The tokens cut up the formula. -/
structure Tiles (formula : List Char) (ts : List Token) : Prop where
  ne_nil : ∀ t ∈ ts, t.text ≠ []
  increasing : ts.Pairwise fun t u => t.stop ≤ u.start
  slice : ∀ t ∈ ts, formula.extract t.start t.stop = t.text
  /-- Exactly the blanks are outside of the tokens. -/
  blank : ∀ (i : Nat) (c : Char), formula[i]? = some c →
    (Text.isBlank c = true ↔ ∀ t ∈ ts, ¬(t.start ≤ i ∧ i < t.stop))
  number_ends : ∀ t ∈ ts, t.kind = .number → ∀ c ∈ t.next? formula, Text.isAsciiDigit c = false
  identifier_ends : ∀ t ∈ ts, t.kind = .identifier → ∀ c ∈ t.next? formula, isWordChar c = false
  other_single : ∀ t ∈ ts, t.kind = .other → ∃ c, t.text = [c]

/-! ## One token -/

/-- What can be taken: the longest number, the longest identifier, or a single character. -/
theorem lexeme_cases (c : Char) (cs : List Char) :
    (leadingNumber (c :: cs) ≠ [] ∧ lexeme c cs = (.number, leadingNumber (c :: cs))) ∨
    lexeme c cs = (.identifier, c :: cs.takeWhile isWordChar) ∨
    ∃ kind, kind ≠ .number ∧ kind ≠ .identifier ∧ lexeme c cs = (kind, [c]) := by
  unfold lexeme
  split
  · rename_i d ds h
    exact .inl ⟨by simp [h], by rw [h]⟩
  · split_ifs
    · exact .inr (.inl rfl)
    all_goals exact .inr (.inr ⟨_, by simp, by simp, rfl⟩)

theorem not_isBlank_of_isWordChar {c : Char} (h : isWordChar c = true) :
    ¬Text.isBlank c = true := by
  simp only [isWordChar, isLetter, Bool.or_eq_true, Bool.and_eq_true, decide_eq_true_eq,
    beq_iff_eq] at h
  rcases h with ((⟨hlow, hhigh⟩ | ⟨hlow, hhigh⟩) | rfl) | h
  · have hlow : 0x61 ≤ c.toNat := hlow
    have hhigh : c.toNat ≤ 0x7A := hhigh
    simp only [Text.isBlank, Bool.or_eq_true, Bool.and_eq_true, decide_eq_true_eq, beq_iff_eq]
    omega
  · have hlow : 0x41 ≤ c.toNat := hlow
    have hhigh : c.toNat ≤ 0x5A := hhigh
    simp only [Text.isBlank, Bool.or_eq_true, Bool.and_eq_true, decide_eq_true_eq, beq_iff_eq]
    omega
  · decide
  · exact not_isBlank_of_isAsciiDigit h

/-- No blank is taken with the characters before it. -/
theorem not_isBlank_of_mem_lexeme {c d : Char} {cs : List Char} (hc : ¬Text.isBlank c = true)
    (hd : d ∈ (lexeme c cs).2) : ¬Text.isBlank d = true := by
  rcases lexeme_cases c cs with ⟨-, h⟩ | h | ⟨kind, -, -, h⟩
  · rw [h] at hd
    rcases digits_leadingNumber hd with hdigit | rfl
    · exact not_isBlank_of_isAsciiDigit hdigit
    · decide
  · rw [h] at hd
    rcases List.mem_cons.1 hd with rfl | hd
    · exact hc
    · exact not_isBlank_of_isWordChar (List.mem_takeWhile_imp hd)
  · rw [h] at hd
    rwa [List.mem_singleton.1 hd]

/-- A number is a run of digits without a point, or with one and digits beside it. -/
theorem leadingNumber_cases {cs : List Char} (h : leadingNumber cs ≠ []) :
    (∃ whole rest, (∀ c ∈ whole, Text.isAsciiDigit c = true) ∧ Text.Stops Text.isAsciiDigit rest ∧
      rest.head? ≠ some '.' ∧ cs = whole ++ rest ∧ leadingNumber cs = whole) ∨
    ∃ whole places rest, (∀ c ∈ whole, Text.isAsciiDigit c = true) ∧
      (∀ c ∈ places, Text.isAsciiDigit c = true) ∧ Text.Stops Text.isAsciiDigit rest ∧
      ¬(whole = [] ∧ places = []) ∧ cs = whole ++ '.' :: (places ++ rest) ∧
      leadingNumber cs = whole ++ '.' :: places := by
  have hsplit := List.takeWhile_append_dropWhile (p := Text.isAsciiDigit) (l := cs)
  have hwhole : ∀ c ∈ cs.takeWhile Text.isAsciiDigit, Text.isAsciiDigit c = true :=
    fun c => List.mem_takeWhile_imp
  generalize hl : leadingNumber cs = text at h ⊢
  unfold leadingNumber at hl
  split at hl
  · rename_i after hpoint
    have hafter := List.takeWhile_append_dropWhile (p := Text.isAsciiDigit) (l := after)
    dsimp only at hl
    split_ifs at hl with hnil
    · exact absurd hl.symm h
    · refine .inr ⟨_, _, after.dropWhile Text.isAsciiDigit, hwhole, fun c => List.mem_takeWhile_imp,
        Text.stops_dropWhile _ _, hnil, ?_, hl.symm⟩
      rw [hafter, ← hpoint, hsplit]
  · rename_i hpoint
    refine .inl ⟨_, _, hwhole, Text.stops_dropWhile _ _, ?_, hsplit.symm, hl.symm⟩
    intro hhead
    obtain ⟨after, hafter⟩ := List.head?_eq_some_iff.1 hhead
    exact hpoint after hafter

/-- The longest number ends where no digit follows. -/
theorem exists_rest_leadingNumber {cs : List Char} (hne : leadingNumber cs ≠ []) :
    ∃ rest, cs = leadingNumber cs ++ rest ∧ Text.Stops Text.isAsciiDigit rest := by
  rcases leadingNumber_cases hne with ⟨whole, rest, -, hstops, -, hcs, hl⟩ |
    ⟨whole, places, rest, -, -, hstops, -, hcs, hl⟩
  · exact ⟨rest, hl.symm ▸ hcs, hstops⟩
  · refine ⟨rest, ?_, hstops⟩
    rw [hl, List.append_assoc, List.cons_append]
    exact hcs

/-- What follows a number is no digit. -/
theorem Begins.stops_number {t : Token} {after : List Char} (h : t.Begins (t.text ++ after))
    (hk : t.kind = .number) : Text.Stops Text.isAsciiDigit after := by
  obtain ⟨c, cs, hcs, hl⟩ := h
  rcases lexeme_cases c cs with ⟨hne, hn⟩ | hn | ⟨kind, hn, -, hl'⟩
  · rw [hn] at hl
    have htext : leadingNumber (c :: cs) = t.text := congrArg Prod.snd hl
    obtain ⟨rest, hrest, hstops⟩ := exists_rest_leadingNumber hne
    rw [htext, ← hcs] at hrest
    rwa [List.append_cancel_left hrest]
  · rw [hn, hk] at hl
    cases hl
  · rw [hl', hk] at hl
    exact absurd (congrArg Prod.fst hl) hn

/-- What follows an identifier does not go on with it. -/
theorem Begins.stops_identifier {t : Token} {after : List Char}
    (h : t.Begins (t.text ++ after)) (hk : t.kind = .identifier) :
    Text.Stops isWordChar after := by
  obtain ⟨c, cs, hcs, hl⟩ := h
  rcases lexeme_cases c cs with ⟨-, hn⟩ | hn | ⟨kind, -, hn, hl'⟩
  · rw [hn, hk] at hl
    cases hl
  · rw [hn] at hl
    have htext : c :: cs.takeWhile isWordChar = t.text := congrArg Prod.snd hl
    have hrest : cs = cs.takeWhile isWordChar ++ after := by
      rw [← htext] at hcs
      exact (List.cons.inj hcs).2.symm
    have hsplit := List.takeWhile_append_dropWhile (p := isWordChar) (l := cs)
    rw [← List.append_cancel_left (hsplit.trans hrest)]
    exact Text.stops_dropWhile _ _
  · rw [hl', hk] at hl
    exact absurd (congrArg Prod.fst hl) hn

/-- A character that begins no token is a token alone. -/
theorem Begins.single_of_other {t : Token} {text : List Char} (h : t.Begins text)
    (hk : t.kind = .other) : ∃ c, t.text = [c] := by
  obtain ⟨c, cs, -, hl⟩ := h
  rcases lexeme_cases c cs with ⟨-, hn⟩ | hn | ⟨kind, -, -, hn⟩
  · rw [hn, hk] at hl
    cases hl
  · rw [hn, hk] at hl
    cases hl
  · rw [hn] at hl
    exact ⟨c, (congrArg Prod.snd hl).symm⟩

/-! ## All tokens -/

theorem not_isBlank_of_mem_scanFrom {p : Nat} {cs : List Char} {t : Token}
    (h : t ∈ scanFrom p cs) : ∀ c ∈ t.text, ¬Text.isBlank c = true :=
  of_mem_scanFrom (P := fun t => ∀ c ∈ t.text, ¬Text.isBlank c = true)
    (fun _ _ _ hb _ => not_isBlank_of_mem_lexeme hb) h

/-- Where a token stands. -/
theorem StandIn.exists_place {p : Nat} {text : List Char} {ts : List Token} {t : Token}
    (h : StandIn p text ts) (ht : t ∈ ts) :
    ∃ before after, text = before ++ (t.text ++ after) ∧ t.start = p + before.length ∧
      t.Begins (t.text ++ after) := by
  induction h with
  | nil => exact absurd ht List.not_mem_nil
  | @cons p gap rest u us blank start begins next ih =>
    rcases List.mem_cons.1 ht with rfl | ht
    · exact ⟨gap, rest, rfl, start, begins⟩
    · obtain ⟨before, after, rfl, hstart, hbegins⟩ := ih ht
      refine ⟨gap ++ (u.text ++ before), after, by simp, ?_, hbegins⟩
      rw [hstart, stop, start, List.length_append, List.length_append]
      omega

theorem StandIn.le_start {p : Nat} {text : List Char} {ts : List Token} {t : Token}
    (h : StandIn p text ts) (ht : t ∈ ts) : p ≤ t.start := by
  obtain ⟨before, -, -, hstart, -⟩ := h.exists_place ht
  omega

theorem StandIn.increasing {p : Nat} {text : List Char} {ts : List Token} (h : StandIn p text ts) :
    ts.Pairwise fun t u => t.stop ≤ u.start := by
  induction h with
  | nil => exact List.Pairwise.nil
  | cons _ _ _ next ih => exact List.Pairwise.cons (fun u hu => next.le_start hu) ih

/-- Exactly the blanks are outside of the tokens, if there is none in them. -/
theorem StandIn.isBlank_iff {p : Nat} {text : List Char} {ts : List Token}
    (h : StandIn p text ts) (hts : ∀ t ∈ ts, ∀ c ∈ t.text, ¬Text.isBlank c = true) {i : Nat}
    {c : Char} (hc : text[i]? = some c) :
    Text.isBlank c = true ↔ ∀ t ∈ ts, ¬(t.start ≤ p + i ∧ p + i < t.stop) := by
  induction h generalizing i with
  | nil blank =>
    have hb := blank c (List.mem_of_getElem? hc)
    exact iff_of_true hb (List.forall_mem_nil _)
  | @cons p gap rest t ts blank start begins next ih =>
    have hstop : t.stop = p + gap.length + t.text.length := by rw [stop, start]
    obtain ⟨htext, hts⟩ := List.forall_mem_cons.1 hts
    rw [List.forall_mem_cons]
    rw [List.getElem?_append] at hc
    split at hc
    · -- before the token
      have hb := blank c (List.mem_of_getElem? hc)
      refine iff_of_true hb ⟨by omega, fun u hu => ?_⟩
      have := next.le_start hu
      omega
    rw [List.getElem?_append] at hc
    split at hc
    · -- in the token
      have hb := htext c (List.mem_of_getElem? hc)
      exact iff_of_false hb fun hout => hout.1 (by omega)
    · -- after the token
      have hpos : t.stop + (i - gap.length - t.text.length) = p + i := by omega
      rw [ih hts hc, hpos]
      exact ⟨fun hout => ⟨by omega, hout⟩, And.right⟩

/-- The tokens of a formula cut it up. -/
theorem tiles_scan (formula : List Char) : Tiles formula (scan formula) := by
  have hstand := standIn_scan formula
  have place : ∀ t ∈ scan formula, t.Begins (t.text ++ formula.drop t.stop) ∧
      formula.extract t.start t.stop = t.text := by
    intro t ht
    obtain ⟨before, after, hformula, hstart, hbegins⟩ := hstand.exists_place ht
    rw [Nat.zero_add] at hstart
    have hdrop : formula.drop t.start = t.text ++ after := by
      rw [hformula, hstart, List.drop_left]
    have hafter : formula.drop t.stop = after := by
      rw [stop, ← List.drop_drop, hdrop, List.drop_left]
    have hlength : t.stop - t.start = t.text.length := by
      rw [stop]
      omega
    exact ⟨hafter ▸ hbegins, by rw [List.extract, hdrop, hlength, List.take_left]⟩
  have next : ∀ t, next? formula t = (formula.drop t.stop).head? := fun t => List.head?_drop.symm
  constructor
  case ne_nil => exact fun t ht => (lexical_of_mem_scan ht).ne_nil
  case increasing => exact hstand.increasing
  case slice => exact fun t ht => (place t ht).2
  case blank =>
    intro i c hc
    simpa using hstand.isBlank_iff (fun t ht => not_isBlank_of_mem_scanFrom ht) hc
  case number_ends =>
    intro t ht hk
    rw [next]
    exact (place t ht).1.stops_number hk
  case identifier_ends =>
    intro t ht hk
    rw [next]
    exact (place t ht).1.stops_identifier hk
  case other_single => exact fun t ht => (place t ht).1.single_of_other

/-! ## The strict scan -/

/-- Which tokens are refused, and why. -/
theorem refusal?_eq_some_iff {formula : List Char} {ts : List Token} (h : Tiles formula ts)
    {t : Token} (ht : t ∈ ts) {f : Fault} :
    refusal? formula t = some f ↔
      (t.kind = .other ∧ (∃ c, t.text = [c] ∧ f = .unexpectedCharacter c) ∧ f.code = "3000") ∨
      (t.kind = .number ∧ t.next? formula = some '.' ∧ f = .secondPoint t.start ∧
        f.code = "3001") := by
  unfold refusal?
  split_ifs with hother hpoint
  · obtain ⟨c, hc⟩ := h.other_single t ht hother
    rw [hc]
    constructor
    · intro hf
      cases hf
      exact .inl ⟨hother, ⟨c, rfl, rfl⟩, rfl⟩
    · rintro (⟨-, ⟨d, hd, rfl⟩, -⟩ | ⟨hk, -⟩)
      · rw [List.singleton_inj.1 hd]
        rfl
      · rw [hother] at hk
        cases hk
  · constructor
    · intro hf
      cases hf
      exact .inr ⟨hpoint.1, hpoint.2, rfl, rfl⟩
    · rintro (⟨hk, -⟩ | ⟨-, -, rfl, -⟩)
      · exact absurd hk hother
      · rfl
  · refine iff_of_false (by simp) ?_
    rintro (⟨hk, -⟩ | ⟨hk, hnext, -⟩)
    · exact hother hk
    · exact hpoint ⟨hk, hnext⟩

/-- The tokens of the lenient scan cut up the formula. The strict scan takes the same ones if none of
them is refused, and otherwise ends with the fault of the first that is: a character that begins no
token, or a number with a second point, by its place. -/
theorem scan_tiles_and_check (formula : List Char) :
    Tiles formula (scan formula) ∧
      (∀ ts, check formula = .ok ts ↔
        ts = scan formula ∧ ∀ t ∈ scan formula, refusal? formula t = none) ∧
      (∀ f, check formula = .error f ↔
        ∃ before t after, scan formula = before ++ t :: after ∧ refusal? formula t = some f ∧
          ∀ u ∈ before, refusal? formula u = none) ∧
      ∀ t ∈ scan formula, ∀ f, refusal? formula t = some f ↔
        (t.kind = .other ∧ (∃ c, t.text = [c] ∧ f = .unexpectedCharacter c) ∧ f.code = "3000") ∨
        (t.kind = .number ∧ t.next? formula = some '.' ∧ f = .secondPoint t.start ∧
          f.code = "3001") := by
  have htiles := tiles_scan formula
  have hstart : formula.drop 0 = formula := rfl
  exact ⟨htiles, fun ts => checkFrom_eq_ok_iff hstart, fun f => checkFrom_eq_error_iff hstart,
    fun t ht f => refusal?_eq_some_iff htiles ht⟩

/-- Both tokens of a number with two points at its end are refused. -/
example : (scan "1..".toList).map (refusal? "1..".toList) =
    [some (.secondPoint 0), some (.unexpectedCharacter '.')] := by
  have hscan : scan "1..".toList = [⟨.number, "1.".toList, 0⟩, ⟨.other, ".".toList, 2⟩] := by
    have hnumber : lexeme '1' ['.', '.'] = (.number, ['1', '.']) := by decide
    have hother : lexeme '.' [] = (.other, ['.']) := by decide
    show scanFrom 0 ['1', '.', '.'] = _
    simp +decide [scanFrom_cons, hnumber, hother]
  rw [hscan]
  decide

end Token
end Reckon
