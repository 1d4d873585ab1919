import Reckon.Proofs.Grammar.Parse
import Reckon.Proofs.Token.Blanks

/-!
# Blanks between the tokens of a formula

The grammar sees of the positions of tokens only whether an identifier begins
where a number ends. Blanks that are put into a formula outside of its tokens
change that at one place at most, where they come between the two (`JoinedAt`).
So they change nothing elsewhere, and there they make a formula that no
expression is read from.

Results:

* `ofTokens_moved`: what the grammar sees of tokens that have been moved apart.
* `Derives.isChain`: in a phrase a number and an identifier after it touch.
* `parse_spaced`: a formula with blanks put into it.
-/

namespace Reckon

/-- The position is the end of a number and the beginning of the identifier after it. -/
def Token.JoinedAt (position : Nat) (ts : List Token) : Prop :=
  ∃ us t u vs, ts = us ++ t :: u :: vs ∧ t.kind = .number ∧ u.kind = .identifier ∧
    t.stop = position ∧ u.start = position

theorem Token.JoinedAt.cons {position : Nat} {ts : List Token} (h : JoinedAt position ts)
    (t : Token) : JoinedAt position (t :: ts) := by
  obtain ⟨us, v, w, vs, rfl, hjoined⟩ := h
  exact ⟨t :: us, v, w, vs, rfl, hjoined⟩

namespace Grammar

open Reckon.Symbol (isJoined ofTokensAfter)
open Reckon.Token (IsOutside JoinedAt moved spaced)

variable {p count : Nat} {formula blanks : List Char} {ts : List Token} {t u : Token}

/-! ## Tokens that are moved apart -/

/-- Two tokens touch as they did, unless they touch where something is put in. -/
theorem isJoined_moved (ht : ¬(t.start < p ∧ p < t.stop))
    (apart : t.kind = .number → u.kind = .identifier → t.stop = p → u.start ≠ p) :
    isJoined (some (t.moved p count)) (u.moved p count) = isJoined (some t) u := by
  have hstop : t.stop = t.start + t.text.length := rfl
  simp only [isJoined, Option.any_some, Token.kind_moved, Token.touches]
  by_cases hkind : t.kind = .number ∧ u.kind = .identifier
  · have apart := apart hkind.1 hkind.2
    congr 1
    rw [Bool.eq_iff_iff, beq_iff_eq, beq_iff_eq, moved, moved, Token.stop, Token.stop]
    dsimp only
    split_ifs <;> omega
  · have hfalse : (t.kind == .number && u.kind == .identifier) = false := by simpa using hkind
    rw [hfalse]
    rfl

theorem ofTokensAfter_moved (outside : IsOutside p (t :: ts)) (apart : ¬JoinedAt p (t :: ts)) :
    ofTokensAfter (some (t.moved p count)) (ts.map (moved p count)) =
      ofTokensAfter (some t) ts := by
  induction ts generalizing t with
  | nil => rfl
  | cons u us ih =>
    obtain ⟨ht, outside⟩ := List.forall_mem_cons.1 outside
    have hjoined : isJoined (some (t.moved p count)) (u.moved p count) = isJoined (some t) u :=
      isJoined_moved ht fun hnumber hname hstop hstart =>
        apart ⟨[], t, u, us, rfl, hnumber, hname, hstop, hstart⟩
    rw [List.map_cons, ofTokensAfter_cons, ofTokensAfter_cons, hjoined,
      ih outside fun h => apart (h.cons t)]
    rfl

/-- The grammar sees the same of tokens that have been moved apart, unless a number and an
identifier have been. -/
theorem ofTokens_moved (outside : IsOutside p ts) (apart : ¬JoinedAt p ts) :
    Symbol.ofTokens (ts.map (moved p count)) = Symbol.ofTokens ts := by
  cases ts with
  | nil => rfl
  | cons t ts =>
    have htail : ofTokensAfter (some (t.moved p count)) (ts.map (moved p count)) =
        ofTokensAfter (some t) ts :=
      ofTokensAfter_moved outside apart
    show _ :: ofTokensAfter (some (t.moved p count)) _ = _ :: ofTokensAfter (some t) ts
    rw [htail]
    rfl

/-! ## Numbers and identifiers in phrases -/

/-- If the first token is a number and the second one an identifier, they touch. -/
abbrev Touch (t u : Token) : Prop := t.kind = .number → u.kind = .identifier → u.start = t.stop

/-- In a phrase a number and an identifier after it touch. -/
theorem Derives.isChain {L : Level} {e : Expr} (h : Derives L ts e) : ts.IsChain Touch := by
  induction h with
  | number | name => exact List.isChain_singleton _
  | @group a z ts e opens closes inner ih =>
    refine List.isChain_cons.2 ⟨fun u hu hnumber => ?_, ?_⟩
    · simp [opens] at hnumber
    · refine List.isChain_append.2 ⟨ih, List.isChain_singleton z, fun t _ u hu _ hname => ?_⟩
      cases hu
      simp [closes] at hname
  | factor _ ih | unsigned _ ih | operand _ ih | term _ ih => exact ih
  | @power ts e c n base isBase caret whole ih =>
    have hend : [c, n].IsChain Touch :=
      List.isChain_pair.2 fun hnumber => by simp [caret] at hnumber
    refine List.isChain_append.2 ⟨ih, hend, fun t _ u hu _ hname => ?_⟩
    cases hu
    simp [caret] at hname
  | plus sign _ ih | minusNumber sign _ ih | minus sign _ _ ih =>
    refine List.isChain_cons.2 ⟨fun u hu hnumber => ?_, ih⟩
    simp [sign.1] at hnumber
  | product _ sign _ _ ihl ihr | sum _ sign _ _ ihl ihr =>
    refine List.isChain_append.2 ⟨ihl, ?_, fun t _ u hu _ hname => ?_⟩
    · refine List.isChain_cons.2 ⟨fun u hu hnumber => ?_, ihr⟩
      simp [sign.1] at hnumber
    · cases hu
      simp [sign.1] at hname
  | joined _ joins _ ihl ihr =>
    refine List.isChain_append.2 ⟨ihl, ihr, fun t ht u hu _ _ => ?_⟩
    obtain ⟨n, hn, -, -, hstart⟩ := joins
    cases hu
    cases hn.symm.trans ht
    exact hstart

/-- No expression is derived where a number and an identifier have been moved apart. -/
theorem not_derives_moved (h : JoinedAt p ts) (hlex : ∀ t ∈ ts, t.Lexical) (hcount : 0 < count)
    (L : Level) (e : Expr) : ¬Derives L (ts.map (moved p count)) e := by
  intro derives
  obtain ⟨us, t, u, vs, rfl, hnumber, hname, hstop, hstart⟩ := h
  have hlength : 0 < t.text.length := List.length_pos_iff.2 (hlex t (by simp)).ne_nil
  rw [List.map_append, List.map_cons, List.map_cons] at derives
  have htouch := (List.isChain_append_cons_cons.1 derives.isChain).2.1 hnumber hname
  rw [moved, moved, Token.stop] at htouch
  rw [Token.stop] at hstop
  dsimp only at htouch
  split_ifs at htouch <;> omega

/-! ## Formulas -/

/-- Blanks that are put into a formula outside of its tokens change nothing about what is read from
it, be it an expression or a failure, unless they come between a number and an identifier that it
is multiplied by: then no expression is read. -/
theorem parse_spaced (h : Token.check formula = .ok ts)
    (hblank : ∀ c ∈ blanks, Text.isBlank c = true) (outside : IsOutside p ts) :
    (¬JoinedAt p ts → Expr.parse (spaced blanks p formula) = Expr.parse formula) ∧
      (JoinedAt p ts → blanks ≠ [] → ∀ e, Expr.parse (spaced blanks p formula) ≠ .ok e) := by
  have hspaced := Token.check_spaced h hblank outside
  constructor
  · intro apart
    rw [parse_of_check hspaced, parse_of_check h, ofTokens_moved outside apart]
  · intro joined hne e hparse
    obtain ⟨us, hus, -, derives⟩ := derives_of_parse hparse
    obtain rfl := Except.ok.inj (hspaced.symm.trans hus)
    exact not_derives_moved joined (Token.lexical_of_check h) (List.length_pos_iff.2 hne) _ e
      derives

/-- Blanks before the second number of `3/2a` change nothing, and with blanks after it no expression
is read. -/
theorem parse_spaced_quotient :
    Token.check "3/2a".toList = .ok [⟨.number, ['3'], 0⟩, ⟨.operator, ['/'], 1⟩,
        ⟨.number, ['2'], 2⟩, ⟨.identifier, ['a'], 3⟩] ∧
      Expr.parse (spaced [' ', '\t'] 2 "3/2a".toList) = Expr.parse "3/2a".toList ∧
      ∀ e, Expr.parse (spaced [' ', '\t'] 3 "3/2a".toList) ≠ .ok e := by
  have hcheck : Token.check "3/2a".toList = .ok [⟨.number, ['3'], 0⟩, ⟨.operator, ['/'], 1⟩,
      ⟨.number, ['2'], 2⟩, ⟨.identifier, ['a'], 3⟩] := by
    decide +kernel
  have hblank : ∀ c ∈ [' ', '\t'], Text.isBlank c = true :=
    List.forall_mem_cons.2 ⟨rfl, List.forall_mem_singleton.2 rfl⟩
  have apart : ¬JoinedAt 2 [⟨.number, ['3'], 0⟩, ⟨.operator, ['/'], 1⟩, ⟨.number, ['2'], 2⟩,
      ⟨.identifier, ['a'], 3⟩] := by
    rintro ⟨us, t, u, vs, hts, hnumber, -, hstop, -⟩
    have ht : t ∈ us ++ t :: u :: vs := by simp
    rw [← hts] at ht
    simp only [List.mem_cons, List.not_mem_nil, or_false] at ht
    rcases ht with rfl | rfl | rfl | rfl <;> simp [Token.stop] at hnumber hstop
  have joined : JoinedAt 3 [⟨.number, ['3'], 0⟩, ⟨.operator, ['/'], 1⟩, ⟨.number, ['2'], 2⟩,
      ⟨.identifier, ['a'], 3⟩] :=
    ⟨[⟨.number, ['3'], 0⟩, ⟨.operator, ['/'], 1⟩], _, _, [], rfl, rfl, rfl, rfl, rfl⟩
  have hbefore := parse_spaced hcheck hblank (p := 2) (by simp [IsOutside, Token.stop])
  have hafter := parse_spaced hcheck hblank (p := 3) (by simp [IsOutside, Token.stop])
  exact ⟨hcheck, hbefore.1 apart, hafter.2 joined (List.cons_ne_nil _ _)⟩

end Grammar
end Reckon
