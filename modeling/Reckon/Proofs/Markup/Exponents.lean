import Reckon.Proofs.Grammar.Parse
import Reckon.Proofs.Grammar.Phrase
import Reckon.Proofs.Markup.Lossless

/-!
# What is raised in a formula that can be read

Rendering sees the tokens of a formula one after the other, with an anchor and a
count of groups; reading it finds phrases. In a formula that can be read the two
agree on what an exponent is. Rendering a phrase, whatever came before it, raises
the exponents of its tight powers in their order (`raised_tokens`), counts as many
groups open after it as before, and leaves an anchor at its end if it is a base.

Results:

* `Piece.raised_tokens`: what is raised in a phrase.
* `Markup.raisedNumbers?_formula`: what is raised in a formula that can be read.
-/

namespace Reckon

open Grammar (Phrase)

namespace Piece

/-- The raised digits in a piece. -/
def raised : Piece → List (List Char)
  | superscript digits => [digits]
  | plain _ | subscript _ => []

/-! ## Single tokens -/

theorem raised_ofName (name : List Char) : (ofName name).flatMap raised = [] := by
  fun_induction ofName name with
  | case1 | case2 | case3 => rfl
  | case4 c u d rest h ih =>
    rw [List.flatMap_cons, List.flatMap_cons, ih]
    rfl
  | case5 c u d rest h ih =>
    rw [List.flatMap_cons, ih]
    rfl

theorem raised_ofToken (t : Token) : (ofToken t).flatMap raised = [] := by
  unfold ofToken
  split_ifs
  · exact raised_ofName t.text
  · rfl

/-- A token that raises nothing leaves what is raised after it. -/
theorem raised_ofTokens_cons {context : Context} {text : List Char} {t : Token} {ts : List Token}
    (h : ∀ e, ts.head? = some e → isRaised context t e = false) :
    (ofTokens context text (t :: ts)).flatMap raised =
      (ofTokens (context.after t) (text.drop (t.stop - context.position)) ts).flatMap raised := by
  cases ts with
  | nil =>
    rw [ofTokens, ofTokens, List.flatMap_append, List.flatMap_cons, raised_ofToken]
    rfl
  | cons e es =>
    rw [ofTokens, h e rfl, if_neg Bool.false_ne_true, List.flatMap_append, List.flatMap_cons,
      raised_ofToken]
    rfl

theorem isRaised_of_ne_caret {context : Context} {t e : Token} (h : t.kind ≠ .caret) :
    isRaised context t e = false := by
  rw [Bool.eq_false_iff]
  intro hraised
  exact h (isRaised_iff.1 hraised).1

/-- A token that is no caret raises nothing, whatever comes after it. -/
theorem raised_of_ne_caret {context : Context} {text : List Char} {t : Token} {ts : List Token}
    (h : t.kind ≠ .caret) :
    (ofTokens context text (t :: ts)).flatMap raised =
      (ofTokens (context.after t) (text.drop (t.stop - context.position)) ts).flatMap raised :=
  raised_ofTokens_cons fun _ _ => isRaised_of_ne_caret h

/-! ## A caret and its exponent -/

/-- A caret and its exponent are raised if nothing is between them and the anchor. -/
theorem isRaised_iff_of_isWhole {context : Context} {c n : Token} (caret : c.kind = .caret)
    (whole : n.IsWhole) :
    isRaised context c n = true ↔ context.anchor = some c.start ∧ c.touches n = true := by
  have hdot : ∀ d ∈ n.text, d ≠ '.' := by
    rintro d hd rfl
    exact absurd (whole.2 '.' hd) (by decide)
  rw [isRaised_iff]
  constructor
  · rintro ⟨-, hanchor, -, -, htouch⟩
    exact ⟨hanchor, htouch⟩
  · rintro ⟨hanchor, htouch⟩
    exact ⟨caret, hanchor, whole.1, hdot, htouch⟩

/-- A caret and an exponent are passed over together, and perhaps raised. -/
theorem raised_of_caret (context : Context) (text : List Char) {c n : Token} (ts : List Token)
    (caret : c.kind = .caret) (whole : n.IsWhole) :
    ∃ after more, after.openGroups = context.openGroups ∧
      (ofTokens context text (c :: n :: ts)).flatMap raised =
        (if isRaised context c n then [n.text] else []) ++
          (ofTokens after more ts).flatMap raised := by
  by_cases h : isRaised context c n = true
  · refine ⟨⟨n.stop, context.openGroups, none⟩,
      (text.drop (c.stop - context.position)).drop (n.stop - c.stop), rfl, ?_⟩
    rw [ofTokens, if_pos h, if_pos h]
    rfl
  · have hc : ∀ e, (n :: ts).head? = some e → isRaised context c e = false := by
      rintro e he
      cases he
      exact Bool.eq_false_iff.2 h
    have hn : n.kind ≠ .caret := by
      rw [whole.1]
      decide
    refine ⟨(context.after c).after n, (text.drop (c.stop - context.position)).drop
      (n.stop - (context.after c).position), ?_, ?_⟩
    · simp [Context.after, caret, whole.1]
    · rw [if_neg h]
      exact (raised_ofTokens_cons hc).trans (raised_of_ne_caret hn)

/-- Where the anchor is the end of the base, a power is raised if it is tight. -/
theorem isTight_eq_isRaised {context : Context} {p : Phrase} {c n : Token}
    (hanchor : context.anchor = p.tokens.getLast?.map Token.stop) (caret : c.kind = .caret)
    (whole : n.IsWhole) : (Phrase.Power.mk p c n).isTight = isRaised context c n := by
  rw [Bool.eq_iff_iff, isRaised_iff_of_isWhole caret whole, hanchor, Phrase.Power.isTight,
    Bool.and_eq_true]
  refine and_congr_left fun _ => ?_
  cases p.tokens.getLast? with
  | none => simp
  | some t =>
    show t.touches c = true ↔ some t.stop = some c.start
    rw [Token.touches, beq_iff_eq, Option.some_inj, eq_comm]

/-! ## Phrases -/

/-- What rendering has come to after a phrase: as many groups are open as before, and after a base
there is an anchor. -/
structure Context.IsAfter (context : Context) (p : Phrase) (after : Context) : Prop where
  openGroups : after.openGroups = context.openGroups
  anchor : p.expr.isBase = true → after.anchor = p.tokens.getLast?.map Token.stop

/-- What is raised in a phrase are the exponents of its tight powers. -/
theorem raised_tokens {p : Phrase} (hp : p.WellFormed) (context : Context) (text : List Char)
    (vs : List Token) :
    ∃ after more, context.IsAfter p after ∧
      (ofTokens context text (p.tokens ++ vs)).flatMap raised =
        (p.powers.filter Phrase.Power.isTight).map (·.exponent.text) ++
          (ofTokens after more vs).flatMap raised := by
  -- the tokens after a part are rendered from the context that the part leaves
  induction hp generalizing context text vs with
  | @number t kind =>
    refine ⟨_, _, ⟨?_, ?_⟩, raised_of_ne_caret (by simp [kind])⟩
    · simp [Context.after, kind]
    · intro h
      cases h
  | @name t kind =>
    refine ⟨_, _, ⟨?_, ?_⟩, raised_of_ne_caret (by simp [kind])⟩
    · simp [Context.after, kind]
    · intro _
      simp [Context.after, kind, Phrase.tokens]
  | @group a z p opens closes inner ih =>
    obtain ⟨after, more, hafter, heq⟩ := ih (context.after a)
      (text.drop (a.stop - context.position)) (z :: vs)
    have hopen : after.openGroups = context.openGroups + 1 := by
      rw [hafter.openGroups, Context.after, opens]
    refine ⟨after.after z, more.drop (z.stop - after.position), ⟨?_, ?_⟩, ?_⟩
    · simp [Context.after, closes, hopen]
    · intro _
      simp [Context.after, closes, hopen, Phrase.tokens, List.getLast?_cons]
    · rw [Phrase.tokens, List.cons_append, List.append_assoc, raised_of_ne_caret (by simp [opens])]
      rw [List.singleton_append, heq, raised_of_ne_caret (by simp [closes])]
      rfl
  | @power p c n base isBase caret whole ih =>
    obtain ⟨middle, text', hmiddle, hbase⟩ := ih context text (c :: n :: vs)
    obtain ⟨after, more, hafter, hexp⟩ := raised_of_caret middle text' vs caret whole
    have htight : (Phrase.Power.mk p c n).isTight = isRaised middle c n :=
      isTight_eq_isRaised (hmiddle.anchor isBase) caret whole
    refine ⟨after, more, ⟨hafter.trans hmiddle.openGroups, fun h => absurd h Bool.false_ne_true⟩, ?_⟩
    rw [Phrase.tokens, List.append_assoc, List.cons_append, List.singleton_append, hbase, hexp,
      Phrase.powers, List.filter_append, List.map_append, List.append_assoc, List.filter_singleton,
      htight]
    cases isRaised middle c n <;> rfl
  | @signed s p sign operand ih =>
    obtain ⟨after, more, hafter, heq⟩ := ih (context.after s)
      (text.drop (s.stop - context.position)) vs
    have hopen : after.openGroups = context.openGroups := by
      rw [hafter.openGroups, Context.after, sign]
    refine ⟨after, more, ⟨hopen, ?_⟩, ?_⟩
    · intro hbase
      rw [Phrase.expr] at hbase
      split at hbase
      · rw [Expr.not_isBase_negated] at hbase
        cases hbase
      · rw [hafter.anchor hbase, Phrase.tokens, List.getLast?_cons_of_ne_nil p.tokens_ne_nil]
    · rw [Phrase.tokens, List.cons_append, raised_of_ne_caret (by simp [sign]), heq]
      rfl
  | @binary p q s left sign right ihl ihr =>
    obtain ⟨middle, text', hmiddle, hl⟩ := ihl context text (s :: (q.tokens ++ vs))
    obtain ⟨after, more, hafter, hr⟩ := ihr (middle.after s) (text'.drop (s.stop - middle.position)) vs
    refine ⟨after, more, ⟨?_, fun h => absurd h Bool.false_ne_true⟩, ?_⟩
    · rw [hafter.openGroups, ← hmiddle.openGroups, Context.after, sign]
    · rw [Phrase.tokens, List.append_assoc, List.cons_append, hl,
        raised_of_ne_caret (by simp [sign]), hr, Phrase.powers, List.filter_append,
        List.map_append, List.append_assoc]
  | @joined p q left right ihl ihr =>
    obtain ⟨middle, text', hmiddle, hl⟩ := ihl context text (q.tokens ++ vs)
    obtain ⟨after, more, hafter, hr⟩ := ihr middle text' vs
    refine ⟨after, more, ⟨?_, fun h => absurd h Bool.false_ne_true⟩, ?_⟩
    · rw [hafter.openGroups, hmiddle.openGroups]
    · rw [Phrase.tokens, List.append_assoc, hl, hr, Phrase.powers, List.filter_append,
        List.map_append, List.append_assoc]

/-! ## Formulas -/

theorem flatMap_raised_letters (ps : List Piece) :
    (ps.flatMap letters).flatMap raised = ps.flatMap raised :=
  flatMap_letters raised (fun text => by simp [raised]) ps

/-- What is raised in a phrase of all the tokens of a formula. -/
theorem raised_ofFormula {formula : List Char} {p : Phrase} (hp : p.WellFormed)
    (htokens : p.tokens = Token.scan formula) :
    (ofFormula formula).flatMap raised =
      (p.powers.filter Phrase.Power.isTight).map (·.exponent.text) := by
  obtain ⟨after, more, -, heq⟩ := raised_tokens hp ⟨0, 0, none⟩ formula []
  rw [List.append_nil, htokens] at heq
  rw [ofFormula, heq, ofTokens]
  exact List.append_nil _

end Piece

namespace Grammar.Phrase

/-- Without a blank beside a caret every power is tight. -/
theorem isTight_of_mem_powers {formula : List Char} (hf : Token.NoBlankBesideCaret formula)
    {p : Phrase} (hp : p.WellFormed) (htokens : p.tokens = Token.scan formula) {q : Power}
    (hq : q ∈ p.powers) : q.isTight = true := by
  have hcaret := hp.caret_of_mem_powers hq
  obtain ⟨us, vs, hscan⟩ := isInfix_of_mem_powers hq
  rcases List.eq_nil_or_concat q.base.tokens with hnil | ⟨init, t, hbase⟩
  · exact absurd hnil q.base.tokens_ne_nil
  rw [Power.tokens, hbase] at hscan
  have hbefore : t.touches q.caret = true := by
    have hsplit : Token.scan formula = (us ++ init) ++ t :: q.caret :: (q.exponent :: vs) := by
      rw [← htokens, ← hscan]
      simp
    exact Token.touches_of_caret hf hsplit (.inr hcaret)
  have hafter : q.caret.touches q.exponent = true := by
    have hsplit :
        Token.scan formula = (us ++ init ++ [t]) ++ q.caret :: q.exponent :: vs := by
      rw [← htokens, ← hscan]
      simp
    exact Token.touches_of_caret hf hsplit (.inl hcaret)
  simp [Power.isTight, hbase, hbefore, hafter]

end Grammar.Phrase

namespace Markup

/-- The numbers that stand raised in marked-up text. -/
def raisedNumbers? (cs : List Char) : Option (List Int) :=
  (read? cs).map fun ps => (ps.flatMap Piece.raised).map fun ds => (Decimal.ofDigits ds : Int)

/-- In a formula that can be read, however its expression is written in its tokens, the exponents
of the tight powers are raised and nothing else. Without a blank beside a caret these are all
exponents of the expression. -/
theorem raisedNumbers?_formula {formula : List Char} {e : Expr}
    (h : Expr.parse formula = .ok e) :
    (∃ p : Phrase, p.Spells (Token.scan formula) e) ∧
      ∀ p : Phrase, p.Spells (Token.scan formula) e →
        p.powers.map Phrase.Power.value = e.exponents ∧
        raisedNumbers? (html.formula formula) =
          some ((p.powers.filter Phrase.Power.isTight).map Phrase.Power.value) ∧
        (Token.NoBlankBesideCaret formula →
          raisedNumbers? (html.formula formula) = some e.exponents) := by
  obtain ⟨ts, hcheck, -, derives⟩ := Grammar.derives_of_parse h
  rw [Token.scan_of_check hcheck]
  refine ⟨Phrase.exists_spells derives, ?_⟩
  rintro p ⟨hp, htokens, rfl⟩
  rw [← Token.scan_of_check hcheck] at htokens
  have hvalues := Phrase.value_powers p
  have hraised : raisedNumbers? (html.formula formula) =
      some ((p.powers.filter Phrase.Power.isTight).map Phrase.Power.value) := by
    rw [raisedNumbers?, Markup.formula, read?_pieces (Piece.isDigits_ofFormula _), Option.map_some,
      Piece.flatMap_raised_letters, Piece.raised_ofFormula hp htokens, List.map_map]
    rfl
  refine ⟨hvalues, hraised, ?_⟩
  intro hf
  have hall : p.powers.filter Phrase.Power.isTight = p.powers :=
    List.filter_eq_self.2 fun q hq => Phrase.isTight_of_mem_powers hf hp htokens hq
  rw [hraised, hall, hvalues]

theorem raisedNumbers?_of_blank :
    Expr.parse "a ^3/b^2".toList = .ok (.binary .dividedBy (.power (.var ['a']) 3)
        (.power (.var ['b']) 2)) ∧
      raisedNumbers? (html.formula "a ^3/b^2".toList) = some [2] := by
  have hcheck : Token.check "a ^3/b^2".toList = .ok [⟨.identifier, ['a'], 0⟩, ⟨.caret, ['^'], 2⟩,
      ⟨.number, ['3'], 3⟩, ⟨.operator, ['/'], 4⟩, ⟨.identifier, ['b'], 5⟩, ⟨.caret, ['^'], 6⟩,
      ⟨.number, ['2'], 7⟩] := by
    decide +kernel
  have hparse : Expr.parse "a ^3/b^2".toList = .ok (.binary .dividedBy (.power (.var ['a']) 3)
      (.power (.var ['b']) 2)) := by
    rw [Grammar.parse_of_check hcheck]
    cbv
  have h := (raisedNumbers?_formula hparse).2
    (.binary (.power (.name ⟨.identifier, ['a'], 0⟩) ⟨.caret, ['^'], 2⟩ ⟨.number, ['3'], 3⟩)
      ⟨.operator, ['/'], 4⟩
      (.power (.name ⟨.identifier, ['b'], 5⟩) ⟨.caret, ['^'], 6⟩ ⟨.number, ['2'], 7⟩))
    ⟨.binary (.power (.name rfl) rfl rfl ⟨rfl, List.forall_mem_singleton.2 rfl⟩) rfl
      (.power (.name rfl) rfl rfl ⟨rfl, List.forall_mem_singleton.2 rfl⟩),
      (Token.scan_of_check hcheck).symm, rfl⟩
  exact ⟨hparse, h.2.1⟩

end Markup
end Reckon
