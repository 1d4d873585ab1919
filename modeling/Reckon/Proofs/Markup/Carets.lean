import Reckon.Proofs.Markup.Exponents
import Reckon.Proofs.Token.Brackets

/-!
# Which carets are raised

Rendering goes through the tokens of any text once. It knows of the tokens before
one only where a caret would have a base directly before it and how many groups
are open, and it passes over two tokens where it raises an exponent. What it knows
is what there is to know: the anchor is the end of an identifier or of a bracket
with a partner, and the groups that it counts are those that such a bracket could
close. So whether a caret is raised depends on the tokens beside it and on the
brackets before it (`IsTight`), whether the text is a formula or not.

Results:

* `anchor_eq_some_iff`: what the anchor says of the tokens before.
* `reaches_append`: rendering comes to every caret with what is to be known of
  the tokens before it.
* `shows_caret_iff`: what becomes of a caret.
-/

namespace Reckon

/-- The caret touches a base before it, which is an identifier or the end of a group, and a whole
number after it. -/
structure Token.IsTight (before : List Token) (caret : Token) (after : List Token) : Prop where
  base : ∃ init t, before = init ++ [t] ∧ t.touches caret = true ∧
    (t.kind = .identifier ∨ (t.kind = .closeParen ∧ HasOpen init))
  exponent : ∃ e rest, after = e :: rest ∧ caret.touches e = true ∧ e.IsWhole

namespace Piece

open Reckon.Token (HasOpen IsTight StandIn openAfter)

/-- The formula from one position to the other is rendered as the piece, in every markup. -/
def Shows (formula : List Char) (start stop : Nat) (p : Piece) : Prop :=
  ∃ before after, ofFormula formula = before ++ p :: after ∧
    before.flatMap typed = formula.take start ∧ after.flatMap typed = formula.drop stop ∧
    ∀ m : Markup, m.formula formula = m.pieces before ++ (m.piece p ++ m.pieces after)

/-- What is known before the first token. -/
def Context.initial : Context := ⟨0, 0, none⟩

/-- Rendering tokens goes on with other ones after pieces that were typed as the text between. -/
def Reaches (context : Context) (text : List Char) (ts : List Token) (later : Context)
    (rest : List Char) (us : List Token) : Prop :=
  ∃ before, ofTokens context text ts = before ++ ofTokens later rest us ∧
    context.position + (before.flatMap typed).length = later.position ∧
    StandIn later.position rest us

variable {context later last : Context} {text rest more formula : List Char}
  {us vs ts : List Token} {t e c : Token} {p q : Piece}

/-! ## What is known of the tokens before -/

@[simp] theorem openGroups_after (context : Context) (t : Token) :
    (context.after t).openGroups = openAfter context.openGroups t := by
  unfold Context.after openAfter
  cases t.kind <;> rfl

theorem openGroups_foldl_after (context : Context) (ts : List Token) :
    (ts.foldl Context.after context).openGroups = ts.foldl openAfter context.openGroups := by
  induction ts generalizing context with
  | nil => rfl
  | cons t ts ih => rw [List.foldl_cons, List.foldl_cons, ih, openGroups_after]

theorem anchor_after (context : Context) (t : Token) {position : Nat} :
    (context.after t).anchor = some position ↔
      t.stop = position ∧
        (t.kind = .identifier ∨ (t.kind = .closeParen ∧ 0 < context.openGroups)) := by
  unfold Context.after
  cases t.kind <;> simp [and_comm]

/-- The anchor is the end of the last token, if this is an identifier or ends a group. -/
theorem anchor_eq_some_iff {position : Nat} :
    (us.foldl Context.after .initial).anchor = some position ↔
      ∃ init t, us = init ++ [t] ∧ t.stop = position ∧
        (t.kind = .identifier ∨ (t.kind = .closeParen ∧ HasOpen init)) := by
  rcases List.eq_nil_or_concat us with rfl | ⟨init, t, rfl⟩
  · simp [Context.initial]
  have hgroups : 0 < (init.foldl Context.after .initial).openGroups ↔ HasOpen init := by
    rw [openGroups_foldl_after]
    exact Token.openGroups_pos_iff
  rw [List.concat_eq_append, List.foldl_append, List.foldl_cons, List.foldl_nil, anchor_after,
    hgroups]
  constructor
  · exact fun h => ⟨init, t, rfl, h⟩
  · rintro ⟨init', t', heq, h⟩
    obtain ⟨rfl, ht⟩ := List.append_inj' heq rfl
    obtain rfl := List.singleton_inj.1 ht
    exact h

/-- Where rendering knows of the tokens before, it raises tight carets. -/
theorem isRaised_iff_isTight (hc : c.kind = .caret) (hlex : e.Lexical) :
    isRaised (us.foldl Context.after .initial) c e = true ↔ IsTight us c (e :: vs) := by
  have htouches : ∀ t : Token, t.touches c = true ↔ t.stop = c.start := fun t => by
    rw [Token.touches, beq_iff_eq, eq_comm]
  constructor
  · intro h
    have whole : e.IsWhole := ⟨(isRaised_iff.1 h).2.2.1, (digits_of_isRaised h hlex).2⟩
    obtain ⟨hanchor, htouch⟩ := (isRaised_iff_of_isWhole hc whole).1 h
    obtain ⟨init, t, hus, hstop, hbase⟩ := anchor_eq_some_iff.1 hanchor
    exact ⟨⟨init, t, hus, (htouches t).2 hstop, hbase⟩, e, vs, rfl, htouch, whole⟩
  · rintro ⟨⟨init, t, hus, hstop, hbase⟩, e', rest, heq, htouch, whole⟩
    obtain ⟨rfl, -⟩ := List.cons.inj heq
    have hanchor := anchor_eq_some_iff.2 ⟨init, t, hus, (htouches t).1 hstop, hbase⟩
    exact (isRaised_iff_of_isWhole hc whole).2 ⟨hanchor, htouch⟩

/-! ## The way to a token -/

theorem Reaches.refl (h : StandIn context.position text ts) :
    Reaches context text ts context text ts :=
  ⟨[], rfl, rfl, h⟩

theorem Reaches.standIn (h : Reaches context text ts later rest us) :
    StandIn later.position rest us := by
  obtain ⟨-, -, -, hstand⟩ := h
  exact hstand

theorem Reaches.trans (h : Reaches context text ts later rest us)
    (hlast : Reaches later rest us last more vs) : Reaches context text ts last more vs := by
  obtain ⟨before, hbefore, hlength, -⟩ := h
  obtain ⟨between, hbetween, hmore, hstand⟩ := hlast
  refine ⟨before ++ between, by rw [hbefore, hbetween, List.append_assoc], ?_, hstand⟩
  rw [← hmore, ← hlength, List.flatMap_append, List.length_append, Nat.add_assoc]

/-- The text before the first token goes as far as the token. -/
theorem length_gap (h : StandIn context.position text (t :: ts)) :
    context.position + (text.take (t.start - context.position)).length = t.start := by
  cases h with
  | @cons _ gap _ _ _ _ start _ _ =>
    have hgap : t.start - context.position = gap.length := by omega
    rw [hgap, List.take_left, start]

/-- A token is passed over, and so is the text before it. -/
theorem reaches_after (h : StandIn context.position text (t :: e :: ts))
    (hraised : isRaised context t e = false) :
    ∃ rest, Reaches context text (t :: e :: ts) (context.after t) rest (e :: ts) := by
  refine ⟨text.drop (t.stop - context.position),
    plain (text.take (t.start - context.position)) :: ofToken t, ?_, ?_, ?_⟩
  · rw [ofTokens, hraised, if_neg Bool.false_ne_true]
  · rw [List.flatMap_cons, typed_ofToken, typed, List.length_append, position_after, Token.stop,
      ← Nat.add_assoc, length_gap h]
  · rw [position_after]
    exact h.cut.2

/-- A caret and its exponent are passed over together. -/
theorem reaches_after_exponent (h : StandIn context.position text (c :: e :: ts))
    (hraised : isRaised context c e = true) :
    ∃ rest, Reaches context text (c :: e :: ts) ((context.after c).after e) rest ts := by
  obtain ⟨hcaret, -, hnumber, -, htouch⟩ := isRaised_iff.1 hraised
  have hstart : e.start = c.stop := by simpa [Token.touches] using htouch
  have hcontext : (context.after c).after e = ⟨e.stop, context.openGroups, none⟩ := by
    simp only [Context.after, hcaret, hnumber]
  rw [hcontext]
  refine ⟨(text.drop (c.stop - context.position)).drop (e.stop - c.stop),
    [plain (text.take (c.start - context.position)), superscript e.text], ?_, ?_, h.cut.2.cut.2⟩
  · rw [ofTokens, hraised, if_pos rfl]
    rfl
  · have hgap := length_gap h
    have htext := h.text_of_caret List.mem_cons_self hcaret
    rw [Token.stop, htext, List.length_singleton] at hstart
    simp only [List.flatMap_cons, List.flatMap_nil, typed, List.append_nil, List.length_append,
      List.length_cons, Token.stop]
    omega

/-- Rendering comes to every caret with what is to be known of the tokens before it. -/
theorem reaches_append (h : StandIn context.position text (us ++ c :: vs))
    (hc : c.kind = .caret) :
    ∃ rest, Reaches context text (us ++ c :: vs) (us.foldl Context.after context) rest
      (c :: vs) := by
  induction hn : us.length using Nat.strong_induction_on generalizing us context text with
  | _ n ih =>
    cases us with
    | nil => exact ⟨text, .refl h⟩
    | cons t us =>
      obtain ⟨e, ts, hts⟩ := List.exists_cons_of_ne_nil (l := us ++ c :: vs) (by simp)
      rw [List.cons_append] at h ⊢
      by_cases hraised : isRaised context t e = true
      · -- the exponent is not the caret itself
        have hnumber : e.kind = .number := (isRaised_iff.1 hraised).2.2.1
        cases us with
        | nil =>
          obtain ⟨rfl, -⟩ := List.cons.inj hts
          rw [hc] at hnumber
          cases hnumber
        | cons u us =>
          obtain ⟨rfl, -⟩ := List.cons.inj hts
          obtain ⟨rest, hrest⟩ := reaches_after_exponent h hraised
          have hlength : us.length < n := by
            rw [← hn, List.length_cons, List.length_cons]
            omega
          obtain ⟨more, hmore⟩ := ih us.length hlength hrest.standIn rfl
          exact ⟨more, hrest.trans hmore⟩
      · rw [hts] at h
        obtain ⟨rest, hrest⟩ := reaches_after h (Bool.eq_false_iff.2 hraised)
        rw [← hts] at hrest
        obtain ⟨more, hmore⟩ := ih us.length (by simp [← hn]) hrest.standIn rfl
        exact ⟨more, hrest.trans hmore⟩

/-! ## One place, one piece -/

theorem shows_of_length {before after : List Piece}
    (h : ofFormula formula = before ++ p :: after) {start : Nat}
    (hstart : (before.flatMap typed).length = start) :
    Shows formula start (start + p.typed.length) p := by
  have htyped := typed_ofFormula formula
  rw [h, List.flatMap_append, List.flatMap_cons] at htyped
  refine ⟨before, after, h, ?_, ?_, fun m => ?_⟩
  · rw [← htyped, ← hstart, List.take_left]
  · rw [← htyped, ← hstart, ← List.length_append, ← List.append_assoc, List.drop_left]
  · rw [Markup.formula, h, Markup.pieces, List.flatMap_append, List.flatMap_cons]
    rfl

/-- Nothing is rendered as two pieces. -/
theorem Shows.unique {start stop stop' : Nat} (hp : Shows formula start stop p)
    (hq : Shows formula start stop' q) (hpne : p.typed ≠ []) (hqne : q.typed ≠ []) : p = q := by
  obtain ⟨before, after, hpieces, hbefore, -⟩ := hp
  obtain ⟨before', after', hpieces', hbefore', -⟩ := hq
  have hsame := congrArg List.length (hbefore.trans hbefore'.symm)
  have hplength := List.length_pos_iff.2 hpne
  have hqlength := List.length_pos_iff.2 hqne
  rcases Token.append_cons_cases (hpieces.symm.trans hpieces') with
    ⟨ws, rfl, -⟩ | ⟨-, hpq, -⟩ | ⟨ws, rfl, -⟩
  · simp only [List.flatMap_append, List.flatMap_cons, List.length_append] at hsame
    omega
  · exact hpq
  · simp only [List.flatMap_append, List.flatMap_cons, List.length_append] at hsame
    omega

/-! ## Carets -/

theorem exists_of_isRaised (h : isRaised context c e = true) (text : List Char) (ts : List Token) :
    ∃ after, ofTokens context text (c :: e :: ts) =
      plain (text.take (c.start - context.position)) :: superscript e.text :: after :=
  ⟨_, by rw [ofTokens, if_pos h]⟩

theorem exists_of_not_isRaised (h : ∀ e ∈ ts.head?, isRaised context t e = false)
    (text : List Char) :
    ∃ after, ofTokens context text (t :: ts) =
      plain (text.take (t.start - context.position)) :: (ofToken t ++ after) := by
  cases ts with
  | nil => exact ⟨_, by rw [ofTokens, List.cons_append]⟩
  | cons e ts => exact ⟨_, by rw [ofTokens, h e rfl, if_neg Bool.false_ne_true, List.cons_append]⟩

/-- What becomes of a caret that rendering comes to. -/
theorem shows_of_reaches
    (h : Reaches .initial formula (us ++ c :: vs) later rest (c :: vs))
    (hscan : Token.scan formula = us ++ c :: vs) (hc : c.kind = .caret) :
    (∀ e ts, vs = e :: ts → isRaised later c e = true →
      Shows formula c.start e.stop (superscript e.text)) ∧
    ((∀ e ∈ vs.head?, isRaised later c e = false) →
      Shows formula c.start c.stop (plain ['^'])) := by
  obtain ⟨before, hpieces, hlength, hstand⟩ := h
  have hformula : ofFormula formula = before ++ ofTokens later rest (c :: vs) := by
    rw [← hpieces, ← hscan]
    rfl
  have htext := hstand.text_of_caret List.mem_cons_self hc
  have hstop : c.stop = c.start + 1 := by rw [Token.stop, htext, List.length_singleton]
  have hstart : ((before ++ [plain (rest.take (c.start - later.position))]).flatMap typed).length =
      c.start := by
    have hbefore : (before.flatMap typed).length = later.position := by
      rw [← hlength, Context.initial, Nat.zero_add]
    rw [List.flatMap_append, List.flatMap_singleton, typed, List.length_append, hbefore,
      length_gap hstand]
  constructor
  · rintro e ts rfl hraised
    obtain ⟨after, hafter⟩ := exists_of_isRaised hraised rest ts
    have hestart : e.start = c.stop := by
      simpa [Token.touches] using (isRaised_iff.1 hraised).2.2.2.2
    have hestop : c.start + (superscript e.text).typed.length = e.stop := by
      rw [Token.stop, hestart, hstop, typed, List.length_cons]
      omega
    rw [hafter, List.append_cons] at hformula
    exact hestop ▸ shows_of_length hformula hstart
  · intro hraised
    obtain ⟨after, hafter⟩ := exists_of_not_isRaised hraised rest
    have htoken : ofToken c = [plain ['^']] := by
      rw [ofToken, hc, htext, if_neg (by decide)]
    rw [hafter, htoken, List.append_cons] at hformula
    exact hstop ▸ shows_of_length hformula hstart

/-- In whatever text, a caret and the number after it are rendered as a raised number exactly if the
caret touches an identifier or the end of a group before it and the number consists of digits and
touches the caret. Every other caret stays as it is. -/
theorem shows_caret_iff (h : Token.scan formula = us ++ c :: vs) (hc : c.kind = .caret) :
    ((∃ e rest, vs = e :: rest ∧ Shows formula c.start e.stop (superscript e.text)) ↔
      IsTight us c vs) ∧
    (Shows formula c.start c.stop (plain ['^']) ↔ ¬IsTight us c vs) := by
  have hstand : StandIn Context.initial.position formula (us ++ c :: vs) :=
    h ▸ Token.standIn_scan formula
  have hlex : ∀ e ∈ vs, e.Lexical := by
    intro e he
    have hmem : e ∈ Token.scan formula := by simp [h, he]
    exact Token.lexical_of_mem_scan hmem
  obtain ⟨rest, hreaches⟩ := reaches_append hstand hc
  obtain ⟨raised, literal⟩ := shows_of_reaches hreaches h hc
  have hraised (htight : IsTight us c vs) :
      ∃ e rest, vs = e :: rest ∧ Shows formula c.start e.stop (superscript e.text) := by
    obtain ⟨e, ts, rfl, -⟩ := htight.exponent
    exact ⟨e, ts, rfl, raised e ts rfl ((isRaised_iff_isTight hc (hlex e (by simp))).2 htight)⟩
  have hliteral (htight : ¬IsTight us c vs) : Shows formula c.start c.stop (plain ['^']) := by
    refine literal fun e he => Bool.eq_false_iff.2 fun hr => htight ?_
    obtain ⟨ts, rfl⟩ := List.head?_eq_some_iff.1 he
    exact (isRaised_iff_isTight hc (hlex e (by simp))).1 hr
  -- a caret does not become both
  have hnever : ∀ e : Token, Shows formula c.start e.stop (superscript e.text) →
      ¬Shows formula c.start c.stop (plain ['^']) := by
    intro e hs hp
    cases hs.unique hp (List.cons_ne_nil _ _) (List.cons_ne_nil _ _)
  refine ⟨⟨?_, hraised⟩, ⟨?_, hliteral⟩⟩
  · rintro ⟨e, ts, -, hs⟩
    by_contra htight
    exact hnever e hs (hliteral htight)
  · intro hp htight
    obtain ⟨e, -, -, hs⟩ := hraised htight
    exact hnever e hs hp

/-- After a bracket without a partner, the exponent of a group is raised and a second one is not. -/
theorem shows_caret_iff_group :
    Token.scan ")(a)^2^3".toList = [⟨.closeParen, [')'], 0⟩, ⟨.openParen, ['('], 1⟩,
        ⟨.identifier, ['a'], 2⟩, ⟨.closeParen, [')'], 3⟩, ⟨.caret, ['^'], 4⟩, ⟨.number, ['2'], 5⟩,
        ⟨.caret, ['^'], 6⟩, ⟨.number, ['3'], 7⟩] ∧
      Shows ")(a)^2^3".toList 4 6 (superscript ['2']) ∧
      Shows ")(a)^2^3".toList 6 7 (plain ['^']) := by
  have hscan : Token.scan ")(a)^2^3".toList = [⟨.closeParen, [')'], 0⟩, ⟨.openParen, ['('], 1⟩,
      ⟨.identifier, ['a'], 2⟩, ⟨.closeParen, [')'], 3⟩, ⟨.caret, ['^'], 4⟩, ⟨.number, ['2'], 5⟩,
      ⟨.caret, ['^'], 6⟩, ⟨.number, ['3'], 7⟩] := by
    decide +kernel
  -- the two carets, each with the tokens before it
  have hfirst := @shows_caret_iff ")(a)^2^3".toList [⟨.closeParen, [')'], 0⟩,
    ⟨.openParen, ['('], 1⟩, ⟨.identifier, ['a'], 2⟩, ⟨.closeParen, [')'], 3⟩] _ _ hscan rfl
  have hsecond := @shows_caret_iff ")(a)^2^3".toList [⟨.closeParen, [')'], 0⟩,
    ⟨.openParen, ['('], 1⟩, ⟨.identifier, ['a'], 2⟩, ⟨.closeParen, [')'], 3⟩,
    ⟨.caret, ['^'], 4⟩, ⟨.number, ['2'], 5⟩] _ _ hscan rfl
  obtain ⟨e, rest, heq, hraised⟩ := hfirst.1.2
    ⟨⟨[⟨.closeParen, [')'], 0⟩, ⟨.openParen, ['('], 1⟩, ⟨.identifier, ['a'], 2⟩], _, rfl, rfl,
        .inr ⟨rfl, [⟨.closeParen, [')'], 0⟩], _, [⟨.identifier, ['a'], 2⟩], rfl, rfl,
          Token.balanced_singleton (by simp) (by simp)⟩⟩,
      _, _, rfl, rfl, rfl, List.forall_mem_singleton.2 rfl⟩
  obtain ⟨rfl, -⟩ := List.cons.inj heq
  refine ⟨hscan, hraised, hsecond.2.2 ?_⟩
  rintro ⟨⟨init, t, hinit, -, hbase⟩, -⟩
  have ht : some t = some ⟨.number, ['2'], 5⟩ := by
    simpa using (congrArg List.getLast? hinit).symm
  cases ht
  simp at hbase

end Piece
end Reckon
