import Reckon.Proofs.Expr.Evaluation

/-!
# What formulas come to

A formula that is not blank has a finite value or a fault that keeps the
formula, unless it comes to an exponent of too many digits: there reading breaks
down, and no outcome is left to show.

Results:

* `settled_evaluate`: what the evaluation of a formula can come to.
* `undefined_of_evaluate`: which names are undefined.
* `regular_iff_not_overlong`: the formulas that break down are the ones with such
  an exponent.
-/

namespace Reckon
namespace Outcome

open Reckon.Grammar (OverlongFormula)

variable {formula : List Char} {b : Bindings}

/-! ## From formulas to values -/

theorem evaluate_of_parse {e : Expr} (h : Expr.parse formula = .ok e) :
    evaluate formula b = e.value b := by
  rw [evaluate, h]
  rfl

theorem evaluate_of_parse_error {f : Failure} (h : Expr.parse formula = .error f) :
    evaluate formula b = .error f := by
  rw [evaluate, h]
  rfl

/-- A fault that is shown is the one that the evaluation ends with. -/
theorem evaluate_of_ofFormula {f : Fault} {equation : Option (List Char)}
    (h : ofFormula formula b = .ok (.fault f equation)) :
    evaluate formula b = .error (.fault f) := by
  rw [ofFormula] at h
  split_ifs at h
  · cases h
  generalize evaluate formula b = r at h ⊢
  cases r with
  | ok x => cases h
  | error failure =>
    cases failure with
    | fault cause =>
      cases h
      rfl
    | breakdown cause => cases h

/-- What the evaluation of a formula can come to. -/
theorem settled_evaluate (formula : List Char) (b : Bindings) :
    (∃ e, Expr.parse formula = .ok e ∧
      Settled b e.names (·.isFinite = true) (evaluate formula b)) ∨
    (evaluate formula b = .error (.breakdown .exponentTooLong) ∧ OverlongFormula formula) ∨
    ∃ f : Fault, evaluate formula b = .error (.fault f) ∧ f.IsSyntax := by
  rcases Grammar.parse_cases formula with ⟨_, e, _, hok, _⟩ | ⟨herror, hover⟩ | ⟨f, herror, hf⟩
  · refine .inl ⟨e, hok, ?_⟩
    rw [evaluate_of_parse hok]
    exact Expr.settled_value (Grammar.proper_of_parse hok)
  · exact .inr (.inl ⟨evaluate_of_parse_error herror, hover⟩)
  · exact .inr (.inr ⟨f, evaluate_of_parse_error herror, hf⟩)

/-- Only an identifier of the formula that is not bound is told to be undefined. -/
theorem undefined_of_evaluate {name : List Char}
    (h : evaluate formula b = .error (.fault (.undefinedVariable name))) :
    name ∈ Token.identifiers formula ∧ b.lookup name = none := by
  rcases settled_evaluate formula b with ⟨e, hok, hvalue⟩ | ⟨hlong, -⟩ | ⟨f, herror, hf⟩
  · rw [h] at hvalue
    cases hvalue with
    | undefined mem unbound _ =>
      rw [Grammar.names_of_parse hok] at mem
      exact ⟨Token.mem_firstAppearances.2 mem, unbound⟩
    | calculation kind => cases kind
  · rw [h] at hlong
    cases hlong
  · rw [h] at herror
    cases herror
    cases hf.1

/-! ## Regular outcomes -/

/-- A formula has an outcome that can be shown: a prompt, a finite value, or a fault with the
formula. -/
inductive Regular (formula : List Char) : Except Breakdown Outcome → Prop
  | blank : Regular formula (.ok .blank)
  | value {x : Binary64} (isFinite : x.isFinite = true) : Regular formula (.ok (.value x))
  | fault (f : Fault) : Regular formula (.ok (.fault f (some formula)))

/-- Blanks have no exponent. -/
theorem not_overlong_of_blank (h : isBlankFormula formula = true) : ¬OverlongFormula formula := by
  rintro ⟨ts, hts, hover⟩
  rw [Token.check_of_blank (by simpa [isBlankFormula] using h)] at hts
  cases hts
  generalize hnil : ([] : List Token) = us at hover
  obtain ⟨-, -, -, -, -, -⟩ := hover
  simp at hnil

theorem ofFormula_of_overlong (h : OverlongFormula formula) (b : Bindings) :
    ofFormula formula b = .error .exponentTooLong := by
  have hblank : ¬isBlankFormula formula = true := fun hb => not_overlong_of_blank hb h
  rw [ofFormula, if_neg hblank, evaluate_of_parse_error (Grammar.parse_of_overlong h)]
  rfl

theorem regular_of_not_overlong (h : ¬OverlongFormula formula) (b : Bindings) :
    Regular formula (ofFormula formula b) := by
  rw [ofFormula]
  split_ifs
  · exact .blank
  rcases settled_evaluate formula b with ⟨e, -, hvalue⟩ | ⟨-, hover⟩ | ⟨f, herror, -⟩
  · generalize evaluate formula b = r at hvalue
    cases hvalue with
    | result finite => exact .value finite
    | undefined => exact .fault _
    | calculation => exact .fault _
  · exact absurd hover h
  · rw [herror]
    exact .fault f

/-- Exactly the formulas that come to an exponent of too many digits are neither read nor refused
with a fault of the text, and have no outcome that can be shown. -/
theorem regular_iff_not_overlong (formula : List Char) :
    ((((∃ e, Expr.parse formula = .ok e) ∨
          ∃ f : Fault, Expr.parse formula = .error (.fault f) ∧ f.IsSyntax) ∧
        ∀ b, Regular formula (ofFormula formula b)) ↔ ¬OverlongFormula formula) ∧
      (Expr.parse formula = .error (.breakdown .exponentTooLong) ↔ OverlongFormula formula) ∧
      ∀ b, ofFormula formula b = .error .exponentTooLong ↔ OverlongFormula formula := by
  refine ⟨⟨?_, ?_⟩, ⟨?_, Grammar.parse_of_overlong⟩, fun b => ⟨?_, fun h => ?_⟩⟩
  · rintro ⟨-, hregular⟩ hover
    have := hregular []
    rw [ofFormula_of_overlong hover] at this
    cases this
  · intro h
    refine ⟨?_, regular_of_not_overlong h⟩
    rcases Grammar.parse_cases formula with ⟨_, e, _, hok, _⟩ | ⟨_, hover⟩ | hfault
    · exact .inl ⟨e, hok⟩
    · exact absurd hover h
    · exact .inr hfault
  · intro h
    exact (Grammar.parse_eq_breakdown_iff.1 h).2
  · intro h
    by_contra hover
    have := regular_of_not_overlong hover b
    rw [h] at this
    cases this
  · exact ofFormula_of_overlong h b

/-! ## The exponent zero, written with too many digits -/

theorem check_power {ds : List Char} (hne : ds ≠ []) (h : ∀ d ∈ ds, Text.isAsciiDigit d = true) :
    Token.check ('a' :: '^' :: ds) =
      .ok [⟨.identifier, ['a'], 0⟩, ⟨.caret, ['^'], 1⟩, ⟨.number, ds, 2⟩] := by
  have ha : Token.lexeme 'a' ('^' :: ds) = (.identifier, ['a']) := rfl
  have hc : Token.lexeme '^' ds = (.caret, ['^']) := rfl
  rw [Token.check, Token.checkFrom_of_lexeme (by decide) ha (by simp) (by simp)]
  simp only [List.length_singleton, Nat.sub_self, List.drop_zero]
  rw [Token.checkFrom_of_lexeme (by decide) hc (by simp) (by simp)]
  simp only [List.length_singleton, Nat.sub_self, List.drop_zero]
  rw [Token.checkFrom_of_digits _ hne h]
  rfl

theorem overlong_power {ds : List Char} (h : ∀ d ∈ ds, Text.isAsciiDigit d = true)
    (hlong : Entry.maxDigits < ds.length) : OverlongFormula ('a' :: '^' :: ds) := by
  have hne : ds ≠ [] := List.ne_nil_of_length_pos (by omega)
  refine ⟨_, check_power hne h, ?_⟩
  have whole : Token.IsWhole ⟨.number, ds, 2⟩ := ⟨rfl, h⟩
  have hname : Grammar.Derives .factor [⟨.identifier, ['a'], 0⟩] (.var ['a']) := .name rfl
  have hpower := Grammar.Derives.power (c := ⟨.caret, ['^'], 1⟩) hname rfl rfl whole
  exact .intro (k := 0) (e := .power (.var ['a']) (Decimal.ofDigits ds)) rfl whole hlong
    (Grammar.exponentsWithin_singleton _ _) (by simp) (.term (.operand (.unsigned hpower)))

/-- A power with the exponent zero, written with one digit too many, is neither read nor refused
with a fault, and it has no outcome. -/
theorem not_regular_power_zeros :
    ¬(((∃ e, Expr.parse ('a' :: '^' :: List.replicate 4301 '0') = .ok e) ∨
        ∃ f : Fault, Expr.parse ('a' :: '^' :: List.replicate 4301 '0') = .error (.fault f) ∧
          f.IsSyntax) ∧
      ∀ b, Regular ('a' :: '^' :: List.replicate 4301 '0')
        (ofFormula ('a' :: '^' :: List.replicate 4301 '0') b)) ∧
    ofFormula ('a' :: '^' :: List.replicate 4301 '0') [(['a'], .double .one)] =
      .error .exponentTooLong := by
  have hover : OverlongFormula ('a' :: '^' :: List.replicate 4301 '0') := by
    refine overlong_power (fun d hd => ?_) ?_
    · rw [List.eq_of_mem_replicate hd]
      rfl
    · rw [List.length_replicate]
      decide
  refine ⟨?_, ofFormula_of_overlong hover _⟩
  rintro ⟨-, hregular⟩
  have := hregular []
  rw [ofFormula_of_overlong hover] at this
  cases this

end Outcome
end Reckon
