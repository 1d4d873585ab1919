import Mathlib.Data.List.TakeWhile
import Reckon.Token.Lexer

/-!
# What the tokens of a formula look like

The two scans take the same tokens. The strict one looks at each of them alone to
tell whether it is refused (`refusal?`), and ends with the first that is. So a fact
about tokens is proved of the one that a scan takes at a position, and holds of all.

Results:

* `checkFrom_eq`: the strict scan as a look at the tokens of the lenient one.
* `scan_of_check`: where the strict scan succeeds, the lenient one agrees.
* `lexical_of_mem_scan`: no token is empty, and a number consists of digits and
  points.
* `syntaxFault_of_check`: the strict scan fails with a fault of the text only.
* `check_of_blank`: a formula of blanks has no tokens.
-/

namespace Reckon

/-- The codes of what can be wrong with the text of a formula. -/
def Fault.syntaxCodes : List String :=
  ["3000", "3001", "3002", "3003", "3004", "3005", "3006", "3007"]

/-- A fault of the text of a formula, whatever the names in it stand for. -/
def Fault.IsSyntax (f : Fault) : Prop := f.kind = .malformed ∧ f.code ∈ Fault.syntaxCodes

/-- Of the malformed formulas only an unknown operator has another code. -/
theorem Fault.isSyntax_of_malformed {f : Fault} (h : f.kind = .malformed)
    (hop : ∀ text, f ≠ .unknownOperator text) : f.IsSyntax := by
  refine ⟨h, ?_⟩
  cases f <;> simp_all [kind, code, syntaxCodes]

namespace Token

/-- What every token of a scan satisfies. -/
structure Lexical (t : Token) : Prop where
  ne_nil : t.text ≠ []
  digits : t.kind = .number → ∀ c ∈ t.text, Text.isAsciiDigit c = true ∨ c = '.'

/-- The character of the formula directly after a token. -/
def next? (formula : List Char) (t : Token) : Option Char := formula[t.stop]?

/-- The fault that a token of a formula is refused with: a character that begins no token, or a
number that goes on with a second point. -/
def refusal? (formula : List Char) (t : Token) : Option Fault :=
  if t.kind = .other then t.text.head?.map .unexpectedCharacter
  else if t.kind = .number ∧ t.next? formula = some '.' then some (.secondPoint t.start)
  else none

/-! ## The steps of the scans -/

@[simp] theorem scanFrom_nil (p : Nat) : scanFrom p [] = [] := by
  rw [scanFrom.eq_def]

theorem scanFrom_cons (p : Nat) (c : Char) (cs : List Char) :
    scanFrom p (c :: cs) =
      if Text.isBlank c then scanFrom (p + 1) cs
      else
        ⟨(lexeme c cs).1, (lexeme c cs).2, p⟩ ::
          scanFrom (p + (lexeme c cs).2.length) (cs.drop ((lexeme c cs).2.length - 1)) := by
  rw [scanFrom.eq_def]

@[simp] theorem checkFrom_nil (p : Nat) : checkFrom p [] = .ok [] := by
  rw [checkFrom.eq_def]

theorem checkFrom_cons (p : Nat) (c : Char) (cs : List Char) :
    checkFrom p (c :: cs) =
      if Text.isBlank c then checkFrom (p + 1) cs
      else if (lexeme c cs).1 = .other then .error (.unexpectedCharacter c)
      else if (lexeme c cs).1 = .number ∧
          (cs.drop ((lexeme c cs).2.length - 1)).head? = some '.' then
        .error (.secondPoint p)
      else
        (checkFrom (p + (lexeme c cs).2.length) (cs.drop ((lexeme c cs).2.length - 1))).map
          (⟨(lexeme c cs).1, (lexeme c cs).2, p⟩ :: ·) := by
  rw [checkFrom.eq_def]

/-! ## One token -/

theorem digits_leadingNumber {c : Char} {cs : List Char} (h : c ∈ leadingNumber cs) :
    Text.isAsciiDigit c = true ∨ c = '.' := by
  unfold leadingNumber at h
  split at h
  · dsimp only at h
    split at h
    · exact absurd h List.not_mem_nil
    · rcases List.mem_append.1 h with h | h
      · exact .inl (List.mem_takeWhile_imp h)
      · rcases List.mem_cons.1 h with rfl | h
        · exact .inr rfl
        · exact .inl (List.mem_takeWhile_imp h)
  · exact .inl (List.mem_takeWhile_imp h)

/-- Only the longest number at its place is a token of that kind. -/
theorem text_of_lexeme_number {c : Char} {cs : List Char} (h : (lexeme c cs).1 = .number) :
    (lexeme c cs).2 = leadingNumber (c :: cs) := by
  unfold lexeme at h ⊢
  split
  · rename_i hn
    exact hn.symm
  · rename_i hn
    rw [hn] at h
    dsimp only at h
    repeat' split at h
    all_goals cases h

theorem lexical_lexeme (c : Char) (cs : List Char) (p : Nat) :
    Lexical ⟨(lexeme c cs).1, (lexeme c cs).2, p⟩ where
  ne_nil := by
    obtain ⟨more, h, -⟩ := lexeme_eq_append c cs
    simp [h]
  digits hk d hd := by
    dsimp only at hk hd
    rw [text_of_lexeme_number hk] at hd
    exact digits_leadingNumber hd

theorem text_of_lexeme_operator {c : Char} {cs : List Char} (h : (lexeme c cs).1 = .operator) :
    (lexeme c cs).2 ∈ [['+'], ['-'], ['*'], ['/']] := by
  revert h
  unfold lexeme
  split
  · simp
  · split_ifs with _ hop <;> simp_all [isOperator, or_assoc]

/-! ## All tokens -/

/-- What holds of whatever is taken at a position holds of all tokens. -/
theorem of_mem_scanFrom {P : Token → Prop}
    (hP : ∀ c cs p, ¬Text.isBlank c = true → P ⟨(lexeme c cs).1, (lexeme c cs).2, p⟩) {p : Nat}
    {cs : List Char} {t : Token} (h : t ∈ scanFrom p cs) : P t := by
  fun_induction scanFrom p cs with
  | case1 => exact absurd h List.not_mem_nil
  | case2 p c cs hb ih => exact ih h
  | case3 p c cs hb kind text hl ih =>
    rcases List.mem_cons.1 h with rfl | h
    · have := hP c cs p hb
      rwa [hl] at this
    · exact ih h

theorem lexical_of_mem_scanFrom {p : Nat} {cs : List Char} {t : Token}
    (h : t ∈ scanFrom p cs) : t.Lexical :=
  of_mem_scanFrom (fun c cs p _ => lexical_lexeme c cs p) h

/-- The text of an operator is one of four. -/
theorem operator_of_mem_scan {formula : List Char} {t : Token} (h : t ∈ scan formula) :
    t.kind = .operator → t.text ∈ [['+'], ['-'], ['*'], ['/']] :=
  of_mem_scanFrom (P := fun t => t.kind = .operator → t.text ∈ [['+'], ['-'], ['*'], ['/']])
    (fun _ _ _ _ => text_of_lexeme_operator) h

theorem lexical_of_mem_scan {formula : List Char} {t : Token} (h : t ∈ scan formula) : t.Lexical :=
  lexical_of_mem_scanFrom h

/-! ## The strict scan -/

/-- The text after the token that is taken first. -/
theorem drop_of_lexeme {formula : List Char} {p : Nat} {c : Char} {cs text : List Char}
    {kind : Kind} (h : formula.drop p = c :: cs) (hl : lexeme c cs = (kind, text)) :
    formula.drop (p + text.length) = cs.drop (text.length - 1) := by
  obtain ⟨more, htext, -⟩ := lexeme_eq_append c cs
  rw [hl] at htext
  dsimp only at htext
  rw [← List.drop_drop, h, htext]
  rfl

theorem next?_of_lexeme {formula : List Char} {p : Nat} {c : Char} {cs text : List Char}
    {kind : Kind} (h : formula.drop p = c :: cs) (hl : lexeme c cs = (kind, text)) :
    next? formula ⟨kind, text, p⟩ = (cs.drop (text.length - 1)).head? := by
  rw [next?, ← List.head?_drop]
  exact congrArg List.head? (drop_of_lexeme h hl)

/-- The strict scan takes the tokens of the lenient one, unless one of them is refused: then it
ends with the fault of the first. -/
theorem checkFrom_eq {formula : List Char} {p : Nat} {cs : List Char} (h : formula.drop p = cs) :
    checkFrom p cs =
      ((scanFrom p cs).findSome? (refusal? formula)).elim (.ok (scanFrom p cs)) .error := by
  fun_induction checkFrom p cs with
  | case1 => simp
  | case2 p c cs hb ih =>
    rw [scanFrom_cons, if_pos hb]
    refine ih ?_
    rw [← List.drop_drop, h]
    rfl
  | case3 p c cs hb text hl =>
    obtain ⟨more, htext, -⟩ := lexeme_eq_append c cs
    rw [hl] at htext
    dsimp only at htext
    have hrefused : refusal? formula ⟨.other, text, p⟩ = some (.unexpectedCharacter c) := by
      rw [refusal?, if_pos rfl, htext]
      rfl
    rw [scanFrom_cons, if_neg hb, hl, List.findSome?_cons, hrefused]
    rfl
  | case4 p c cs hb kind text hl rest hother hpoint =>
    have hrefused : refusal? formula ⟨kind, text, p⟩ = some (.secondPoint p) := by
      rw [refusal?, if_neg hother, next?_of_lexeme h hl, if_pos hpoint]
    rw [scanFrom_cons, if_neg hb, hl, List.findSome?_cons, hrefused]
    rfl
  | case5 p c cs hb kind text hl rest hother hpoint ih =>
    have haccepted : refusal? formula ⟨kind, text, p⟩ = none := by
      rw [refusal?, if_neg hother, next?_of_lexeme h hl, if_neg hpoint]
    rw [scanFrom_cons, if_neg hb, hl, List.findSome?_cons, haccepted, ih (drop_of_lexeme h hl)]
    dsimp only
    cases (scanFrom (p + text.length) rest).findSome? (refusal? formula) <;> rfl

theorem checkFrom_eq_ok_iff {formula : List Char} {p : Nat} {cs : List Char}
    (h : formula.drop p = cs) {ts : List Token} :
    checkFrom p cs = .ok ts ↔
      ts = scanFrom p cs ∧ ∀ t ∈ scanFrom p cs, refusal? formula t = none := by
  rw [checkFrom_eq h, ← List.findSome?_eq_none_iff]
  cases (scanFrom p cs).findSome? (refusal? formula) with
  | none => simp [eq_comm]
  | some g => simp

theorem checkFrom_eq_error_iff {formula : List Char} {p : Nat} {cs : List Char}
    (h : formula.drop p = cs) {f : Fault} :
    checkFrom p cs = .error f ↔
      ∃ before t after, scanFrom p cs = before ++ t :: after ∧ refusal? formula t = some f ∧
        ∀ u ∈ before, refusal? formula u = none := by
  rw [checkFrom_eq h, ← List.findSome?_eq_some_iff]
  cases (scanFrom p cs).findSome? (refusal? formula) with
  | none => simp
  | some g => simp

/-- Every text is the end of a formula from any place on. -/
theorem exists_drop_eq (p : Nat) (cs : List Char) : ∃ formula : List Char, formula.drop p = cs :=
  ⟨List.replicate p ' ' ++ cs, List.drop_left' List.length_replicate⟩

theorem scanFrom_of_checkFrom {p : Nat} {cs : List Char} {ts : List Token}
    (h : checkFrom p cs = .ok ts) : scanFrom p cs = ts := by
  obtain ⟨formula, hformula⟩ := exists_drop_eq p cs
  exact ((checkFrom_eq_ok_iff hformula).1 h).1.symm

/-- Where the strict scan succeeds, the lenient one takes the same tokens. -/
theorem scan_of_check {formula : List Char} {ts : List Token} (h : check formula = .ok ts) :
    scan formula = ts :=
  scanFrom_of_checkFrom h

theorem lexical_of_check {formula : List Char} {ts : List Token} (h : check formula = .ok ts) :
    ∀ t ∈ ts, t.Lexical := by
  rw [← scan_of_check h]
  exact fun _ => lexical_of_mem_scan

/-- The strict scan takes no character that begins no token. -/
theorem ne_other_of_checkFrom {p : Nat} {cs : List Char} {ts : List Token}
    (h : checkFrom p cs = .ok ts) : ∀ t ∈ ts, t.kind ≠ .other := by
  obtain ⟨formula, hformula⟩ := exists_drop_eq p cs
  obtain ⟨rfl, hnone⟩ := (checkFrom_eq_ok_iff hformula).1 h
  intro t ht hother
  have hrefusal := hnone t ht
  rw [refusal?, if_pos hother, Option.map_eq_none_iff, List.head?_eq_none_iff] at hrefusal
  exact (lexical_of_mem_scanFrom ht).ne_nil hrefusal

/-- The strict scan fails at a character that begins no token or at a second point. -/
theorem fault_of_checkFrom {p : Nat} {cs : List Char} {f : Fault} (h : checkFrom p cs = .error f) :
    (∃ c, f = .unexpectedCharacter c) ∨ ∃ position, f = .secondPoint position := by
  obtain ⟨formula, hformula⟩ := exists_drop_eq p cs
  obtain ⟨-, t, -, -, hrefusal, -⟩ := (checkFrom_eq_error_iff hformula).1 h
  unfold refusal? at hrefusal
  split_ifs at hrefusal
  · obtain ⟨c, -, rfl⟩ := Option.map_eq_some_iff.1 hrefusal
    exact .inl ⟨c, rfl⟩
  · exact .inr ⟨t.start, (Option.some.inj hrefusal).symm⟩

/-- The strict scan fails with a fault of the text only. -/
theorem syntaxFault_of_check {formula : List Char} {f : Fault} (h : check formula = .error f) :
    f.IsSyntax := by
  rcases fault_of_checkFrom h with ⟨c, rfl⟩ | ⟨position, rfl⟩
  · exact Fault.isSyntax_of_malformed rfl (by simp)
  · exact Fault.isSyntax_of_malformed rfl (by simp)

/-! ## Runs of digits -/

theorem not_isBlank_of_isAsciiDigit {d : Char} (h : Text.isAsciiDigit d = true) :
    ¬Text.isBlank d = true := by
  simp only [Text.isAsciiDigit, Bool.and_eq_true, decide_eq_true_eq] at h
  have h0 : 0x30 ≤ d.toNat := h.1
  have h9 : d.toNat ≤ 0x39 := h.2
  simp only [Text.isBlank, Bool.or_eq_true, Bool.and_eq_true, decide_eq_true_eq, beq_iff_eq]
  omega

theorem leadingNumber_of_digits {ds : List Char} (h : ∀ d ∈ ds, Text.isAsciiDigit d = true) :
    leadingNumber ds = ds := by
  unfold leadingNumber
  rw [List.dropWhile_eq_nil_iff.2 h]
  exact List.takeWhile_eq_self_iff.2 h

/-- Digits that nothing follows are one number. -/
theorem checkFrom_of_digits (p : Nat) {ds : List Char} (hne : ds ≠ [])
    (h : ∀ d ∈ ds, Text.isAsciiDigit d = true) : checkFrom p ds = .ok [⟨.number, ds, p⟩] := by
  obtain ⟨d, ds, rfl⟩ := List.exists_cons_of_ne_nil hne
  have hlex : lexeme d ds = (.number, d :: ds) := by
    rw [lexeme, leadingNumber_of_digits h]
  rw [checkFrom_cons, if_neg (not_isBlank_of_isAsciiDigit (h d List.mem_cons_self)), hlex]
  simp [Except.map]

/-- A token that is no number is taken without a look at what follows it. -/
theorem checkFrom_of_lexeme {p : Nat} {c : Char} {cs text : List Char} {kind : Kind}
    (hb : ¬Text.isBlank c = true) (hl : lexeme c cs = (kind, text)) (hother : kind ≠ .other)
    (hnumber : kind ≠ .number) :
    checkFrom p (c :: cs) =
      (checkFrom (p + text.length) (cs.drop (text.length - 1))).map (⟨kind, text, p⟩ :: ·) := by
  rw [checkFrom_cons, if_neg hb, hl]
  simp [hother, hnumber]

/-! ## Blank formulas -/

theorem isBlank_of_trim {cs : List Char} (h : Text.trim cs = []) :
    ∀ c ∈ cs, Text.isBlank c = true := by
  have hdrop : ∀ c ∈ cs.dropWhile Text.isBlank, Text.isBlank c = true := by
    intro c hc
    rw [Text.trim, List.reverse_eq_nil_iff, List.dropWhile_eq_nil_iff] at h
    exact h c (List.mem_reverse.2 hc)
  intro c hc
  rw [← List.takeWhile_append_dropWhile (p := Text.isBlank) (l := cs)] at hc
  rcases List.mem_append.1 hc with hc | hc
  · exact List.mem_takeWhile_imp hc
  · exact hdrop c hc

theorem checkFrom_of_blank {cs : List Char} (h : ∀ c ∈ cs, Text.isBlank c = true) (p : Nat) :
    checkFrom p cs = .ok [] := by
  induction cs generalizing p with
  | nil => exact checkFrom_nil p
  | cons c cs ih =>
    rw [checkFrom_cons, if_pos (h c List.mem_cons_self)]
    exact ih (fun d hd => h d (List.mem_cons_of_mem c hd)) (p + 1)

/-- A formula of blanks has no tokens. -/
theorem check_of_blank {formula : List Char} (h : Text.trim formula = []) :
    check formula = .ok [] :=
  checkFrom_of_blank (isBlank_of_trim h) 0

end Token
end Reckon
