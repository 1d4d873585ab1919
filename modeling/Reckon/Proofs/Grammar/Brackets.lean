import Reckon.Proofs.Grammar.Parse

/-!
# What is said about brackets

An opening parenthesis is missing in the words of the parser where a closing one
follows a whole sum, and this is true of the tokens then. A closing parenthesis
is missing where the tokens are stuck. This is true if they end there. But a group
is stuck too where an operand follows another one without an operator, and then a
closing parenthesis is missed although there may be one. Outside of groups such a
token is not expected.

Results:

* `read_of_derives_stuck`: no level reads a phrase that is stuck.
* `ofSymbols_eq_missingClose_iff`: where a closing parenthesis is missing.
* `exists_of_ofSymbols_eq_missingOpen`: where an opening one is missing.
* `tellsBrackets_iff`: of which formulas what is said about brackets is true.
-/

namespace Reckon
namespace Grammar

open Reckon.Expr (Conventions)
open Reckon.Symbol (ofTokensAfter)

variable {c : Conventions} {us vs ts : List Token} {e : Expr} {t : Token}

/-! ## Stuck tokens are not read -/

theorem follows_of_adjacent (next : ∀ t ∈ vs.head?, t.Adjacent us) : Follows .sum us vs := by
  refine ⟨?_, fun t ht => ⟨(next t ht).not_times, (next t ht).not_dividedBy, (next t ht).not_joins⟩⟩
  cases vs with
  | nil => simp
  | cons t vs => simpa using (next t rfl).ne_caret

/-- A sum ends before a token that does not go on with it. -/
theorem read_sum_of_adjacent (hc : c.minus = Expr.negated) (h : Derives .sum us e)
    (hw : ExponentsWithin c.maxDigits us) (next : ∀ t ∈ vs.head?, t.Adjacent us) (p : Option Token) :
    read c .sum (ofTokensAfter p (us ++ vs)) = .ok (e, ofTokensAfter us.getLast? vs) := by
  rw [read_of_derives hc h hw p vs (follows_of_adjacent next)]
  show terms c e _ = _
  cases vs with
  | nil => exact terms_nil c e
  | cons t vs =>
    rw [ofTokensAfter_cons, terms_cons, if_neg]
    rw [isSign_iff]
    exact not_or.2 ⟨(next t rfl).not_plus, (next t rfl).not_minus⟩

/-- A group cannot be closed before a token that does not go on with its sum. -/
theorem close_of_adjacent {p : Option Token} (next : ∀ t ∈ vs.head?, t.Adjacent us) :
    close (e, ofTokensAfter p vs) = .error (.fault .missingClose) := by
  cases vs with
  | nil => rfl
  | cons t vs =>
    rw [ofTokensAfter_cons, close, if_neg]
    exact (next t rfl).ne_close

theorem not_mem_closing {k : Nat} (ht : t.kind ≠ .closeParen) :
    t ∉ List.replicate k closing := by
  intro hmem
  rw [List.eq_of_mem_replicate hmem] at ht
  exact ht rfl

/-- A token that closes no parenthesis stands before those that do. -/
theorem split_closing {ts ws us : List Token} {k : Nat} (ht : t.kind ≠ .closeParen)
    (h : ts ++ t :: ws = us ++ List.replicate k closing) :
    ∃ vs, us = ts ++ t :: vs ∧ ws = vs ++ List.replicate k closing :=
  split_of_not_mem h (not_mem_closing ht)

theorem split_head_closing {ws us : List Token} {k : Nat} (ht : t.kind ≠ .closeParen)
    (h : t :: ws = us ++ List.replicate k closing) :
    ∃ vs, us = t :: vs ∧ ws = vs ++ List.replicate k closing :=
  split_closing ht ((List.nil_append _).trans h)

/-- Where something is left to be closed, the last token closes it. -/
theorem split_last_closing {ws us : List Token} {z : Token} {k : Nat}
    (h : ws ++ [z] = us ++ List.replicate (k + 1) closing) :
    ws = us ++ List.replicate k closing ∧ z = closing := by
  rw [List.replicate_succ', ← List.append_assoc] at h
  obtain ⟨hws, hz⟩ := List.append_inj' h rfl
  exact ⟨hws, List.singleton_inj.1 hz⟩

/-- A phrase in which a group is open that cannot be closed is not read at any level. -/
theorem read_of_derives_stuck (hc : c.minus = Expr.negated) {L : Level} {ws : List Token}
    (h : Derives L ws e) {us : List Token} {k : Nat}
    (hws : ws = us ++ List.replicate (k + 1) closing) (within : ExponentsWithin c.maxDigits us)
    (next : ∀ t ∈ vs.head?, t.Adjacent us) (p : Option Token) :
    read c L (ofTokensAfter p (us ++ vs)) = .error (.fault .missingClose) := by
  -- the group that is closed last is in the part of the phrase that is read last
  induction h generalizing us k p with
  | number kind | name kind =>
    obtain ⟨rest, rfl, hrest⟩ := split_head_closing (by simp [kind]) hws
    simp at hrest
  | @group a z ts e opens closes inner ih =>
    obtain ⟨rest, rfl, hrest⟩ := split_head_closing (by simp [opens]) hws
    obtain ⟨rfl, -⟩ := split_last_closing hrest
    have hnext : ∀ t ∈ vs.head?, t.Adjacent rest := fun t ht =>
      (adjacent_cons inner.ne_nil_of_closing).1 (next t ht)
    rw [List.cons_append, ofTokensAfter_cons, read_factor_cons, opens]
    dsimp only
    cases k with
    | zero =>
      rw [List.replicate_zero, List.append_nil] at inner
      rw [read_sum_of_adjacent hc inner within.tail hnext]
      exact close_of_adjacent hnext
    | succ k =>
      rw [ih rfl within.tail hnext]
      rfl
  | factor base ih =>
    rw [read_power, ih hws within next]
    rfl
  | @power ts e d m base isBase caret whole _ =>
    rw [List.append_cons] at hws
    have hkind := whole.1
    rw [(split_last_closing hws).2] at hkind
    cases hkind
  | @unsigned ts e operand ih =>
    rw [read_unary_of_head_ne_sign, ih hws within next]
    intro t ht
    subst hws
    refine operand.head_ne_operator (.inr rfl) ?_
    rw [List.head?_append_of_ne_nil _ operand.ne_nil_of_closing] at ht ⊢
    exact ht
  | @plus s ts e sign operand ih =>
    obtain ⟨rest, rfl, rfl⟩ := split_head_closing (by simp [sign.1]) hws
    have hnext : ∀ t ∈ vs.head?, t.Adjacent rest := fun t ht =>
      (adjacent_cons operand.ne_nil_of_closing).1 (next t ht)
    exact read_signed_of_error (.inl sign) (ih rfl within.tail hnext _)
  | @minusNumber s ts x sign operand ih | @minus s ts x sign operand _ ih =>
    obtain ⟨rest, rfl, rfl⟩ := split_head_closing (by simp [sign.1]) hws
    have hnext : ∀ t ∈ vs.head?, t.Adjacent rest := fun t ht =>
      (adjacent_cons operand.ne_nil_of_closing).1 (next t ht)
    exact read_signed_of_error (.inr sign) (ih rfl within.tail hnext _)
  | operand first ih =>
    rw [read_term, ih hws within next]
    rfl
  | @product ts _ l r s op left sign isFactor right _ ih =>
    obtain ⟨rest, rfl, rfl⟩ := split_closing (by simp [sign.1]) hws
    have hnext : ∀ t ∈ vs.head?, t.Adjacent rest := fun t ht =>
      (adjacent_append_cons right.ne_nil_of_closing).1 (next t ht)
    rw [List.append_assoc, List.cons_append]
    exact read_product_of_error hc left within.left sign isFactor
      (ih rfl within.right.tail hnext _)
  | @joined ts _ l r t left joins right _ ih =>
    obtain ⟨rest, rfl, rfl⟩ := split_closing (by simp [joins.kind]) hws
    have hnext : ∀ u ∈ vs.head?, u.Adjacent (t :: rest) := fun u hu =>
      (adjacent_append (List.cons_ne_nil t rest)).1 (next u hu)
    rw [List.append_assoc, List.cons_append]
    exact read_joined_of_error hc left within.left joins (ih rfl within.right hnext _)
  | term first ih =>
    rw [read_sum, ih hws within next]
    rfl
  | @sum ts _ l r s op left sign isTerm right _ ih =>
    obtain ⟨rest, rfl, rfl⟩ := split_closing (by simp [sign.1]) hws
    have hnext : ∀ t ∈ vs.head?, t.Adjacent rest := fun t ht =>
      (adjacent_append_cons right.ne_nil_of_closing).1 (next t ht)
    rw [List.append_assoc, List.cons_append]
    exact read_sum_of_error hc left within.left sign isTerm (ih rfl within.right.tail hnext _)

/-! ## Whole lists of tokens -/

/-- Where the tokens are stuck, a closing parenthesis is missing, and nowhere else. -/
theorem ofSymbols_eq_missingClose_iff (hc : c.minus = Expr.negated) (hlex : ∀ t ∈ ts, t.Lexical) :
    Expr.ofSymbols c (Symbol.ofTokens ts) = .error (.fault .missingClose) ↔
      Stuck c.maxDigits .sum ts := by
  rw [ofSymbols_eq, Symbol.ofTokens]
  constructor
  · intro h
    have hread := accounted_read hc .sum none hlex
    generalize read c .sum (ofTokensAfter none ts) = r at h hread
    cases hread with
    | @read us vs e derives within =>
      cases vs with
      | nil => cases h
      | cons t vs =>
        simp only [ok_bind, ofTokensAfter_cons, whole] at h
        split_ifs at h <;> cases h
    | overlong => cases h
    | stuck hstuck => exact hstuck
    | fault _ hclose => cases h; exact absurd rfl hclose
  · rintro ⟨within, derives, next⟩
    rw [read_of_derives_stuck hc derives rfl within next none]
    rfl

/-- An opening parenthesis is missing only where a closing one follows a whole sum. -/
theorem exists_of_ofSymbols_eq_missingOpen (hc : c.minus = Expr.negated)
    (hlex : ∀ t ∈ ts, t.Lexical)
    (h : Expr.ofSymbols c (Symbol.ofTokens ts) = .error (.fault .missingOpen)) :
    ∃ us z vs e, ts = us ++ z :: vs ∧ z.kind = .closeParen ∧ Derives .sum us e := by
  rw [ofSymbols_eq, Symbol.ofTokens] at h
  have hread := accounted_read hc .sum none hlex
  generalize read c .sum (ofTokensAfter none ts) = r at h hread
  cases hread with
  | @read us vs e derives within =>
    cases vs with
    | nil => cases h
    | cons z vs =>
      simp only [ok_bind, ofTokensAfter_cons, whole] at h
      split_ifs at h with hz
      · exact ⟨us, z, vs, e, rfl, hz, derives⟩
      · cases h
  | overlong => cases h
  | stuck h => cases h
  | fault _ _ hopen => cases h; exact absurd rfl hopen

/-- Outside of groups a token that does not go on is what is not expected. -/
theorem ofSymbols_of_adjacent (hc : c.minus = Expr.negated) (h : Derives .sum us e)
    (hw : ExponentsWithin c.maxDigits us) (ht : t.Adjacent us) :
    Expr.ofSymbols c (Symbol.ofTokens (us ++ t :: vs)) =
      .error (.fault (.unexpectedToken t.text)) := by
  have hnext : ∀ u ∈ (t :: vs).head?, u.Adjacent us := by
    rintro u ⟨⟩
    exact ht
  rw [ofSymbols_eq, Symbol.ofTokens, read_sum_of_adjacent hc h hw hnext]
  exact if_neg ht.ne_close

/-! ## Formulas -/

/-- A token of the formula follows an operand without an operator between the two, and is not joined
to it. What is before the token is the beginning of a sum in which so many groups are open. -/
def AdjacentAt (formula : List Char) (depth : Nat) (t : Token) : Prop :=
  ∃ us vs e, Token.check formula = .ok (us ++ t :: vs) ∧ ExponentsWithin Entry.maxDigits us ∧
    Derives .sum (us ++ List.replicate depth closing) e ∧ t.BeginsOperand ∧ ¬t.Joins us

/-- What is said about the brackets of a formula is true. -/
structure TellsBrackets (formula : List Char) : Prop where
  unclosed : Expr.parse formula = .error (.fault .missingClose) →
    Token.HasUnclosed (Token.scan formula)
  unopened : Expr.parse formula = .error (.fault .missingOpen) →
    Token.HasUnopened (Token.scan formula)
  balanced : Token.Balanced (Token.scan formula) →
    Expr.parse formula ≠ .error (.fault .missingClose) ∧
      Expr.parse formula ≠ .error (.fault .missingOpen)
  adjacent : ∀ depth t, AdjacentAt formula depth t →
    Expr.parse formula = .error (.fault (.unexpectedToken t.text))

variable {formula : List Char}

theorem adjacent_iff_of_check (h : Token.check formula = .ok ts) (ht : t ∈ ts) :
    t.Adjacent us ↔ t.BeginsOperand ∧ ¬t.Joins us := by
  refine Token.adjacent_iff (Token.ne_other_of_checkFrom h t ht) ?_
  rw [← Token.scan_of_check h] at ht
  exact Token.operator_of_mem_scan ht

/-- What a token is told that follows an operand without an operator. -/
theorem parse_of_adjacentAt {depth : Nat} (h : AdjacentAt formula depth t) :
    Expr.parse formula =
      .error (.fault (if depth = 0 then .unexpectedToken t.text else .missingClose)) := by
  obtain ⟨us, vs, e, hcheck, within, derives, hbegins, hjoins⟩ := h
  have ht : t.Adjacent us := (adjacent_iff_of_check hcheck (by simp)).2 ⟨hbegins, hjoins⟩
  rw [parse_of_check hcheck]
  cases depth with
  | zero =>
    rw [List.replicate_zero, List.append_nil] at derives
    exact ofSymbols_of_adjacent rfl derives within ht
  | succ depth =>
    refine (ofSymbols_eq_missingClose_iff rfl (Token.lexical_of_check hcheck)).2
      (.intro within derives ?_)
    rintro u ⟨⟩
    exact ht

/-- The strict scan says nothing about brackets. -/
theorem exists_check_of_parse {f : Fault} (h : Expr.parse formula = .error (.fault f))
    (hf : f = .missingClose ∨ f = .missingOpen) : ∃ ts, Token.check formula = .ok ts := by
  cases hts : Token.check formula with
  | ok ts => exact ⟨ts, rfl⟩
  | error g =>
    rw [parse_of_check_error hts] at h
    cases h
    rcases Token.fault_of_checkFrom hts with ⟨c, rfl⟩ | ⟨position, rfl⟩ <;> simp at hf

/-- Where a closing parenthesis is missing, an open one is not closed or an operand follows another
one in a group. -/
theorem hasUnclosed_or_adjacentAt (h : Expr.parse formula = .error (.fault .missingClose)) :
    Token.HasUnclosed (Token.scan formula) ∨ ∃ depth t, AdjacentAt formula (depth + 1) t := by
  obtain ⟨ts, hts⟩ := exists_check_of_parse h (.inl rfl)
  rw [parse_of_check hts, ofSymbols_eq_missingClose_iff rfl (Token.lexical_of_check hts)] at h
  cases h with
  | @intro us vs depth e within derives next =>
    cases vs with
    | nil =>
      rw [Token.scan_of_check hts, List.append_nil]
      exact .inl (Token.hasUnclosed_of_balanced_append derives.balanced rfl)
    | cons t vs =>
      obtain ⟨hbegins, hjoins⟩ := (adjacent_iff_of_check hts (by simp)).1 (next t rfl)
      exact .inr ⟨depth, t, us, vs, e, hts, within, derives, hbegins, hjoins⟩

theorem hasUnopened_of_parse (h : Expr.parse formula = .error (.fault .missingOpen)) :
    Token.HasUnopened (Token.scan formula) := by
  obtain ⟨ts, hts⟩ := exists_check_of_parse h (.inr rfl)
  rw [parse_of_check hts] at h
  obtain ⟨us, z, vs, e, rfl, closes, derives⟩ :=
    exists_of_ofSymbols_eq_missingOpen rfl (Token.lexical_of_check hts) h
  rw [Token.scan_of_check hts]
  exact derives.balanced.hasUnopened_append_cons closes

/-- What is said about the brackets of a formula is true, unless an operand follows another one in a
group: then the group is told not to be closed, whether it is or not. -/
theorem tellsBrackets_iff (formula : List Char) :
    (TellsBrackets formula ↔ ∀ depth t, AdjacentAt formula depth t → depth = 0) ∧
      (Expr.parse formula = .error (.fault .missingOpen) →
        Token.HasUnopened (Token.scan formula)) ∧
      ∀ depth t, AdjacentAt formula depth t → Expr.parse formula =
        .error (.fault (if depth = 0 then .unexpectedToken t.text else .missingClose)) := by
  refine ⟨⟨fun h depth t ht => ?_, fun h => ?_⟩, hasUnopened_of_parse,
    fun depth t => parse_of_adjacentAt⟩
  · by_contra hdepth
    have hparse := parse_of_adjacentAt ht
    rw [if_neg hdepth, h.adjacent depth t ht] at hparse
    cases hparse
  · have hunclosed (hparse : Expr.parse formula = .error (.fault .missingClose)) :
        Token.HasUnclosed (Token.scan formula) := by
      refine (hasUnclosed_or_adjacentAt hparse).resolve_right ?_
      rintro ⟨depth, t, ht⟩
      exact Nat.succ_ne_zero depth (h (depth + 1) t ht)
    refine ⟨hunclosed, hasUnopened_of_parse, fun hbalanced => ?_, fun depth t ht => ?_⟩
    · exact ⟨fun hparse => hbalanced.not_hasUnclosed (hunclosed hparse),
        fun hparse => hbalanced.not_hasUnopened (hasUnopened_of_parse hparse)⟩
    · have hparse := parse_of_adjacentAt ht
      rwa [if_pos (h depth t ht)] at hparse

/-- The brackets of `(a b)` match, and one is told to be missing. -/
theorem not_tellsBrackets_group :
    Token.Balanced (Token.scan "(a b)".toList) ∧
      Expr.parse "(a b)".toList = .error (.fault .missingClose) ∧
      AdjacentAt "(a b)".toList 1 ⟨.identifier, ['b'], 3⟩ ∧ ¬TellsBrackets "(a b)".toList := by
  have hcheck : Token.check "(a b)".toList = .ok [⟨.openParen, ['('], 0⟩, ⟨.identifier, ['a'], 1⟩,
      ⟨.identifier, ['b'], 3⟩, ⟨.closeParen, [')'], 4⟩] := by
    decide +kernel
  have hbalanced : Token.Balanced (Token.scan "(a b)".toList) := by
    have hinner : Token.Balanced [⟨.identifier, ['a'], 1⟩, ⟨.identifier, ['b'], 3⟩] :=
      .other (by simp) (by simp) (Token.balanced_singleton (by simp) (by simp))
    have hgroup := Token.Balanced.group (a := ⟨.openParen, ['('], 0⟩)
      (z := ⟨.closeParen, [')'], 4⟩) rfl rfl hinner .nil
    rw [Token.scan_of_check hcheck]
    exact hgroup
  have hadjacent : AdjacentAt "(a b)".toList 1 ⟨.identifier, ['b'], 3⟩ :=
    ⟨[⟨.openParen, ['('], 0⟩, ⟨.identifier, ['a'], 1⟩], [⟨.closeParen, [')'], 4⟩],
      .group (.var ['a']), hcheck, by simp [ExponentsWithin],
      .term (.operand (.unsigned (.factor (.group (z := closing) rfl rfl
        (.term (.operand (.unsigned (.factor (.name rfl))))))))), .inr (.inl rfl),
      by simp [Token.Joins]⟩
  have hparse := parse_of_adjacentAt hadjacent
  exact ⟨hbalanced, hparse, hadjacent, fun h => (h.balanced hbalanced).1 hparse⟩

end Grammar
end Reckon
