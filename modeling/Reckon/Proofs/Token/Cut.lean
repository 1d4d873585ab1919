import Reckon.Proofs.Token.Tiling

/-!
# A formula that is cut off

What is taken as a token depends on the text after it only in that the token
ends there. So a formula that is cut off at the end of a token has the same
tokens up to there, in the strict scan too.

Results:

* `lexeme_replace`: the same token is taken before other text.
* `check_take`: the tokens of a formula that is cut off.
-/

namespace Reckon
namespace Token

open Text (Stops)

/-- What follows a token may be replaced by text that begins with the same character, or with none
that could go on with a token. -/
def Replaces (more after : List Char) : Prop :=
  ∀ c ∈ more.head?, c ∈ after.head? ∨ (isWordChar c = false ∧ c ≠ '.')

variable {whole places text after more rest : List Char} {t : Token}

theorem replaces_take (k : Nat) (after : List Char) : Replaces (after.take k) after := by
  intro c hc
  cases after with
  | nil => simp at hc
  | cons d after =>
    cases k with
    | zero => simp at hc
    | succ k => exact .inl hc

theorem Replaces.stops {p : Char → Bool} (h : Replaces more after)
    (hp : ∀ c, p c = true → isWordChar c = true) (hafter : Stops p after) : Stops p more := by
  intro c hc
  rcases h c hc with hsame | ⟨hword, -⟩
  · exact hafter c hsame
  · rw [Bool.eq_false_iff] at hword ⊢
    exact fun hpc => hword (hp c hpc)

theorem isWordChar_of_isAsciiDigit (c : Char) (h : Text.isAsciiDigit c = true) :
    isWordChar c = true := by
  rw [isWordChar, h, Bool.or_true]

theorem Replaces.stops_digits (h : Replaces more after)
    (hafter : Stops Text.isAsciiDigit after) : Stops Text.isAsciiDigit more :=
  h.stops isWordChar_of_isAsciiDigit hafter

theorem Replaces.head?_ne_point (h : Replaces more after) (hafter : after.head? ≠ some '.') :
    more.head? ≠ some '.' := by
  intro hmore
  rcases h '.' hmore with hsame | ⟨-, hne⟩
  · exact hafter hsame
  · exact hne rfl

/-! ## Numbers -/

theorem leadingNumber_whole (hwhole : ∀ c ∈ whole, Text.isAsciiDigit c = true)
    (hrest : Stops Text.isAsciiDigit rest) (hpoint : rest.head? ≠ some '.') :
    leadingNumber (whole ++ rest) = whole := by
  unfold leadingNumber
  rw [Text.takeWhile_run hwhole hrest, Text.dropWhile_run hwhole hrest]
  split
  · exact absurd rfl hpoint
  · rfl

theorem leadingNumber_point (hwhole : ∀ c ∈ whole, Text.isAsciiDigit c = true)
    (hplaces : ∀ c ∈ places, Text.isAsciiDigit c = true) (hrest : Stops Text.isAsciiDigit rest)
    (hne : ¬(whole = [] ∧ places = [])) :
    leadingNumber (whole ++ '.' :: (places ++ rest)) = whole ++ '.' :: places := by
  have hpoint : Stops Text.isAsciiDigit ('.' :: (places ++ rest)) := Text.stops_cons.2 rfl
  unfold leadingNumber
  rw [Text.takeWhile_run hwhole hpoint, Text.dropWhile_run hwhole hpoint]
  show (if whole = [] ∧ (places ++ rest).takeWhile _ = [] then [] else _) = _
  rw [Text.takeWhile_run hplaces hrest, if_neg hne]

/-- A number ends where it did. -/
theorem leadingNumber_replace (hne : text ≠ []) (h : leadingNumber (text ++ after) = text)
    (hr : Replaces more after) : leadingNumber (text ++ more) = text := by
  rcases leadingNumber_cases (h.symm ▸ hne) with ⟨whole, rest, hwhole, hstops, hpoint, heq, hl⟩ |
    ⟨whole, places, rest, hwhole, hplaces, hstops, hnil, heq, hl⟩
  · rw [h] at hl
    subst hl
    rw [← List.append_cancel_left heq] at hstops hpoint
    exact leadingNumber_whole hwhole (hr.stops_digits hstops) (hr.head?_ne_point hpoint)
  · rw [h] at hl
    subst hl
    rw [List.append_assoc, List.cons_append] at heq ⊢
    rw [← List.append_cancel_left (List.cons.inj (List.append_cancel_left heq)).2] at hstops
    exact leadingNumber_point hwhole hplaces (hr.stops_digits hstops) hnil

/-- A number begins with a digit or a point. -/
theorem leadingNumber_eq_nil {c : Char} (hdigit : ¬Text.isAsciiDigit c = true) (hpoint : c ≠ '.')
    (cs : List Char) : leadingNumber (c :: cs) = [] := by
  unfold leadingNumber
  rw [List.takeWhile_cons_of_neg hdigit, List.dropWhile_cons_of_neg hdigit]
  split
  · rename_i h
    exact absurd (List.cons.inj h).1 hpoint
  · rfl

theorem not_isAsciiDigit_of_leadingNumber {c : Char} {cs : List Char}
    (h : leadingNumber (c :: cs) = []) : ¬Text.isAsciiDigit c = true := by
  intro hc
  unfold leadingNumber at h
  rw [List.takeWhile_cons_of_pos hc, List.dropWhile_cons_of_pos hc] at h
  split at h <;> simp at h

theorem lexeme_of_ne_nil {c : Char} {cs : List Char} (h : leadingNumber (c :: cs) ≠ []) :
    lexeme c cs = (.number, leadingNumber (c :: cs)) := by
  unfold lexeme
  split
  · rename_i hl
    rw [hl]
  · rename_i hl
    exact absurd hl h

/-- What is no number is taken by its first character. -/
theorem lexeme_of_leadingNumber {c : Char} {cs : List Char} (h : leadingNumber (c :: cs) = []) :
    lexeme c cs =
      if isLetter c then (.identifier, c :: cs.takeWhile isWordChar)
      else if isOperator c then (.operator, [c])
      else if c = '^' then (.caret, [c])
      else if c = '(' then (.openParen, [c])
      else if c = ')' then (.closeParen, [c])
      else (.other, [c]) := by
  unfold lexeme
  rw [h]

theorem takeWhile_replace {run : List Char} (h : (run ++ after).takeWhile isWordChar = run)
    (hr : Replaces more after) : (run ++ more).takeWhile isWordChar = run := by
  have hrun : ∀ c ∈ run, isWordChar c = true := by
    rw [← h]
    exact fun c => List.mem_takeWhile_imp
  have hsplit := List.takeWhile_append_dropWhile (p := isWordChar) (l := run ++ after)
  rw [h] at hsplit
  have hafter : Stops isWordChar after := by
    rw [← List.append_cancel_left hsplit]
    exact Text.stops_dropWhile isWordChar _
  exact Text.takeWhile_run hrun (hr.stops (fun _ => id) hafter)

/-- A token is taken in the same way before another text that does not go on with it. -/
theorem lexeme_replace {kind : Kind} {c : Char} {cs : List Char}
    (h : lexeme c (cs ++ after) = (kind, c :: cs)) (hother : kind ≠ .other)
    (hr : Replaces more after) : lexeme c (cs ++ more) = (kind, c :: cs) := by
  by_cases hn : leadingNumber (c :: (cs ++ after)) = []
  · have hdigit := not_isAsciiDigit_of_leadingNumber hn
    rw [lexeme_of_leadingNumber hn] at h
    have hpoint : c ≠ '.' := by
      rintro rfl
      exact hother (congrArg Prod.fst h).symm
    rw [lexeme_of_leadingNumber (leadingNumber_eq_nil hdigit hpoint _)]
    by_cases hletter : isLetter c = true
    · rw [if_pos hletter] at h ⊢
      rw [takeWhile_replace (List.cons.inj (congrArg Prod.snd h)).2 hr]
      exact congrArg (·, c :: cs) (congrArg Prod.fst h)
    · rw [if_neg hletter] at h ⊢
      exact h
  · have hnumber : lexeme c (cs ++ after) = (.number, leadingNumber (c :: (cs ++ after))) :=
      lexeme_of_ne_nil hn
    rw [hnumber] at h
    have htext : leadingNumber (c :: cs ++ after) = c :: cs := congrArg Prod.snd h
    have hmore : leadingNumber (c :: (cs ++ more)) = c :: cs :=
      leadingNumber_replace (List.cons_ne_nil c cs) htext hr
    rw [lexeme_of_ne_nil (by simp [hmore]), hmore]
    exact congrArg (·, c :: cs) (congrArg Prod.fst h)

/-! ## The tokens before a cut -/

/-- What the strict scan does at a token. -/
theorem checkFrom_lexeme {p : Nat} {kind : Kind} {c : Char} {cs : List Char}
    (hb : ¬Text.isBlank c = true) (hl : lexeme c (cs ++ rest) = (kind, c :: cs))
    (hother : kind ≠ .other) (hpoint : ¬(kind = .number ∧ rest.head? = some '.')) :
    checkFrom p (c :: (cs ++ rest)) =
      (checkFrom (p + (c :: cs).length) rest).map (⟨kind, c :: cs, p⟩ :: ·) := by
  have hdrop : (cs ++ rest).drop ((c :: cs).length - 1) = rest := List.drop_left
  rw [checkFrom_cons, if_neg hb, hl]
  dsimp only
  rw [hdrop, if_neg hother, if_neg hpoint]

/-- The strict scan takes the same token before another text that does not go on with it. -/
theorem checkFrom_replace {p : Nat} {kind : Kind} {c : Char} {cs : List Char}
    (hb : ¬Text.isBlank c = true) (hl : lexeme c (cs ++ after) = (kind, c :: cs))
    (hother : kind ≠ .other) (hpoint : ¬(kind = .number ∧ after.head? = some '.'))
    (hr : Replaces more after) :
    checkFrom p (c :: (cs ++ more)) =
      (checkFrom (p + (c :: cs).length) more).map (⟨kind, c :: cs, p⟩ :: ·) := by
  have hpoint' : ¬(kind = .number ∧ more.head? = some '.') := fun hand =>
    hr.head?_ne_point (fun hhead => hpoint ⟨hand.1, hhead⟩) hand.2
  exact checkFrom_lexeme hb (lexeme_replace hl hother hr) hother hpoint'

/-- Where the strict scan succeeds, what is no blank begins a token, and the scan goes on after it. -/
theorem exists_of_checkFrom_cons {p : Nat} {c : Char} {cs : List Char} {ts : List Token}
    (hb : ¬Text.isBlank c = true) (h : checkFrom p (c :: cs) = .ok ts) :
    ∃ kind more after us, cs = more ++ after ∧ lexeme c (more ++ after) = (kind, c :: more) ∧
      kind ≠ .other ∧ ¬(kind = .number ∧ after.head? = some '.') ∧
      checkFrom (p + (c :: more).length) after = .ok us ∧ ts = ⟨kind, c :: more, p⟩ :: us := by
  obtain ⟨more, htext, after, rfl⟩ := lexeme_eq_append c cs
  have hdrop : (more ++ after).drop ((c :: more).length - 1) = after := List.drop_left
  rw [checkFrom_cons, if_neg hb, htext, hdrop] at h
  split_ifs at h with hother hpoint
  cases hus : checkFrom (p + (c :: more).length) after with
  | error f =>
    rw [hus] at h
    cases h
  | ok us =>
    rw [hus] at h
    exact ⟨_, more, after, us, rfl, Prod.ext rfl htext, hother, hpoint, hus, (Except.ok.inj h).symm⟩

theorem le_start_of_checkFrom {p : Nat} {cs : List Char} {us vs : List Token}
    (h : checkFrom p cs = .ok (us ++ t :: vs)) : p ≤ t.start :=
  (standIn_scanFrom p cs).le_start (by rw [scanFrom_of_checkFrom h]; simp)

/-- A text that is cut at the end of a token has the tokens up to there. -/
theorem checkFrom_take {p : Nat} {cs : List Char} {us vs : List Token}
    (h : checkFrom p cs = .ok (us ++ t :: vs)) :
    checkFrom p (cs.take (t.stop - p)) = .ok (us ++ [t]) := by
  induction hn : cs.length using Nat.strong_induction_on generalizing p cs us with
  | _ n ih =>
    cases cs with
    | nil => simp at h
    | cons c cs =>
      by_cases hb : Text.isBlank c = true
      · rw [checkFrom_cons, if_pos hb] at h
        have hle := le_start_of_checkFrom h
        have hsub : t.stop - p = (t.stop - (p + 1)) + 1 := by
          rw [stop]
          omega
        rw [hsub, List.take_succ_cons, checkFrom_cons, if_pos hb]
        exact ih cs.length (by simp [← hn]) h rfl
      obtain ⟨kind, more, after, ts, rfl, hl, hother, hpoint, hts, heq⟩ :=
        exists_of_checkFrom_cons hb h
      rcases List.append_eq_cons_iff.1 heq with ⟨rfl, htail⟩ | ⟨us, rfl, rfl⟩
      · -- the token is the last before the cut
        obtain ⟨rfl, -⟩ := List.cons.inj htail
        have hcut : (c :: (more ++ after)).take (c :: more).length =
            c :: (more ++ after.take 0) := by
          simp
        rw [stop, Nat.add_sub_cancel_left, hcut,
          checkFrom_replace hb hl hother hpoint (replaces_take 0 after)]
        simp [Except.map]
      · have hle := le_start_of_checkFrom hts
        have hsub : t.stop - p = (c :: more).length + (t.stop - (p + (c :: more).length)) := by
          rw [stop]
          omega
        have hcut : (c :: (more ++ after)).take (t.stop - p) =
            c :: (more ++ after.take (t.stop - (p + (c :: more).length))) := by
          rw [hsub, ← List.cons_append, List.take_length_add_append, List.cons_append]
        have hshort : after.length < n := by
          simp only [← hn, List.length_cons, List.length_append]
          omega
        rw [hcut, checkFrom_replace hb hl hother hpoint (replaces_take _ after),
          ih after.length hshort hts rfl]
        rfl

/-- A formula that is cut at the end of a token has the tokens up to there. -/
theorem check_take {formula : List Char} {us vs : List Token}
    (h : check formula = .ok (us ++ t :: vs)) : check (formula.take t.stop) = .ok (us ++ [t]) :=
  checkFrom_take h

end Token
end Reckon
