import Reckon.Proofs.Grammar.Reading
import Reckon.Proofs.Grammar.Symbols

/-!
# Every phrase is read

What comes after a phrase may go on with it: a caret with a power, an operator
or a joined identifier with a term, a sign with a sum. Where it does not
(`Follows`), the level reads exactly the phrase. The loops of a term and of a
sum make this an equation about their rest: having read a phrase is the same as
having it as the current expression (`more`).

Results:

* `read_of_derives`: each level reads its phrases.
* `read_signed_of_error`, `read_product_of_error`, `read_joined_of_error`,
  `read_sum_of_error`: what fails to the right of a phrase fails with it.
* `Derives.unique`: no tokens stand for two expressions.
-/

namespace Reckon
namespace Grammar

open Reckon.Expr (Conventions)
open Reckon.Symbol (ofTokensAfter)

variable (c : Conventions)

/-- How a level goes on when it has read a phrase. -/
def more : Level → Expr → List Symbol → Reading
  | .term, e, ss => factors c e ss
  | .sum, e, ss => terms c e ss
  | _, e, ss => .ok (e, ss)

/-- What comes after a phrase is no part of its tighter levels. -/
def Follows : Level → List Token → List Token → Prop
  | .factor, _, _ => True
  | .sum, us, vs => vs.head?.map Token.kind ≠ some .caret ∧ ∀ t ∈ vs.head?,
      ¬t.Denotes .times ∧ ¬t.Denotes .dividedBy ∧ ¬t.Joins us
  | _, _, vs => vs.head?.map Token.kind ≠ some .caret

variable {c}

/-! ## Where a loop goes on -/

section Loops

variable {e : Expr} {p : Option Token} {t : Token} {us ts : List Token} {op : Operator}

theorem factors_of_operator (sign : t.Denotes op) (isFactor : op = .times ∨ op = .dividedBy) :
    factors c e (ofTokensAfter p (t :: ts)) = read c .unary (ofTokensAfter (some t) ts) >>=
      fun q => factors c (.binary op e q.1) q.2 := by
  have ht : t.Denotes .times ∨ t.Denotes .dividedBy := by
    rcases isFactor with rfl | rfl
    exacts [.inl sign, .inr sign]
  rw [ofTokensAfter_cons, factors_cons, if_pos (isFactorOperator_iff.2 ht), sign.2,
    ofText_text (ne_unknown_of_factor isFactor)]

theorem factors_of_joins (joins : t.Joins us) :
    factors c e (ofTokensAfter us.getLast? (t :: ts)) =
      read c .power (ofTokensAfter us.getLast? (t :: ts)) >>=
        fun q => factors c (.binary .times e q.1) q.2 := by
  rw [ofTokensAfter_cons, factors_cons, if_neg, if_pos (isJoined_iff.2 joins)]
  rw [isFactorOperator_iff]
  simp [Token.Denotes, joins.kind]

theorem terms_of_operator (sign : t.Denotes op) (isTerm : op = .plus ∨ op = .minus) :
    terms c e (ofTokensAfter p (t :: ts)) = read c .term (ofTokensAfter (some t) ts) >>=
      fun q => terms c (.binary op e q.1) q.2 := by
  have ht : t.Denotes .plus ∨ t.Denotes .minus := by
    rcases isTerm with rfl | rfl
    exacts [.inl sign, .inr sign]
  rw [ofTokensAfter_cons, terms_cons, if_pos (isSign_iff.2 ht), sign.2,
    ofText_text (ne_unknown_of_term isTerm)]

end Loops

/-! ## Where a level ends -/

theorem factors_of_follows {e : Expr} {us vs : List Token} (h : Follows .sum us vs) :
    factors c e (ofTokensAfter us.getLast? vs) = .ok (e, ofTokensAfter us.getLast? vs) := by
  cases vs with
  | nil => exact factors_nil c e
  | cons t vs =>
    obtain ⟨htimes, hdiv, hjoin⟩ := h.2 t rfl
    rw [ofTokensAfter_cons, factors_cons, if_neg, if_neg]
    · rwa [isJoined_iff]
    · rw [isFactorOperator_iff]
      exact not_or.2 ⟨htimes, hdiv⟩

theorem terms_of_ne_operator {e : Expr} {p : Option Token} {t : Token} {vs : List Token}
    (h : t.kind ≠ .operator) :
    terms c e (ofTokensAfter p (t :: vs)) = .ok (e, ofTokensAfter p (t :: vs)) := by
  rw [ofTokensAfter_cons, terms_cons, if_neg]
  rw [isSign_iff]
  exact not_or.2 ⟨fun hp => h hp.1, fun hm => h hm.1⟩

/-- A sign is no part of the terms before it. -/
theorem follows_of_sign {us vs : List Token} {s : Token} {op : Operator} (sign : s.Denotes op)
    (isTerm : op = .plus ∨ op = .minus) : Follows .sum us (s :: vs) := by
  rcases isTerm with rfl | rfl <;>
    simp [Follows, Token.Denotes, Token.Joins, sign.1, sign.2, Operator.text]

/-- A factor and a power begin with no operator. -/
theorem Derives.head_ne_operator {L : Level} {ts : List Token} {e : Expr} (h : Derives L ts e)
    (hL : L = .factor ∨ L = .power) {t : Token} (ht : ts.head? = some t) : t.kind ≠ .operator := by
  induction h with
  | number kind | name kind =>
    cases ht
    simp [kind]
  | group opens =>
    cases ht
    simp [opens]
  | factor base ih => exact ih (.inl rfl) ht
  | power base isBase caret whole ih =>
    refine ih (.inl rfl) ?_
    rwa [List.head?_append_of_ne_nil _ base.ne_nil] at ht
  | _ => simp at hL

/-! ## The levels -/

theorem read_unary_of_head_ne_sign {p : Option Token} {ts : List Token}
    (h : ∀ t, ts.head? = some t → t.kind ≠ .operator) :
    read c .unary (ofTokensAfter p ts) = read c .power (ofTokensAfter p ts) := by
  cases ts with
  | nil => simp [read_power]
  | cons t ts =>
    have hkind := h t rfl
    rw [ofTokensAfter_cons, read_unary_cons, if_neg]
    rw [isSign_iff]
    exact not_or.2 ⟨fun ht => hkind ht.1, fun ht => hkind ht.1⟩

theorem read_unary_of_sign {p : Option Token} {s : Token} {ts : List Token}
    (h : s.Denotes .plus ∨ s.Denotes .minus) :
    read c .unary (ofTokensAfter p (s :: ts)) = read c .unary (ofTokensAfter (some s) ts) >>=
      fun q => .ok (if s.text = ['-'] then c.minus q.1 else q.1, q.2) := by
  rw [ofTokensAfter_cons, read_unary_cons, if_pos (isSign_iff.2 h)]

theorem read_group {a z : Token} {ts vs : List Token} {e : Expr} {p : Option Token}
    (opens : a.kind = .openParen) (closes : z.kind = .closeParen)
    (h : read c .sum (ofTokensAfter (some a) (ts ++ z :: vs)) =
      more c .sum e (ofTokensAfter ts.getLast? (z :: vs))) :
    read c .factor (ofTokensAfter p (a :: (ts ++ z :: vs))) =
      .ok (.group e, ofTokensAfter (some z) vs) := by
  rw [ofTokensAfter_cons, read_factor_cons, opens]
  simp only [h, more]
  rw [terms_of_ne_operator (by simp [closes])]
  simp [close, closes]

/-- Each level reads its phrases, whatever follows that is no part of them. -/
theorem read_of_derives (hc : c.minus = Expr.negated) {L : Level} {us : List Token} {e : Expr}
    (h : Derives L us e) (hw : ExponentsWithin c.maxDigits us) (p : Option Token)
    (vs : List Token) (hf : Follows L us vs) :
    read c L (ofTokensAfter p (us ++ vs)) = more c L e (ofTokensAfter us.getLast? vs) := by
  -- the tokens after a part are those after the phrase, or begin with the operator in between
  induction h generalizing p vs with
  | number kind =>
    show read c .factor (ofTokensAfter p (_ :: vs)) = _
    rw [ofTokensAfter_cons, read_factor_cons, kind]
    rfl
  | name kind =>
    show read c .factor (ofTokensAfter p (_ :: vs)) = _
    rw [ofTokensAfter_cons, read_factor_cons, kind]
    rfl
  | @group a z ts e opens closes inner ih =>
    have hinner : ExponentsWithin c.maxDigits ts := hw.tail.left
    have hfollows : Follows .sum ts (z :: vs) := by
      simp [Follows, closes, Token.Denotes, Token.Joins]
    have := read_group (p := p) opens closes (ih hinner (some a) _ hfollows)
    simpa [more, List.getLast?_cons] using this
  | @factor ts e base ih =>
    rw [read_power, ih hw p _ trivial]
    exact exponent_of_ne_caret c (by rwa [head?_kind_ofTokensAfter])
  | @power ts e cr n base isBase caret whole ih =>
    have hn : n.text.length ≤ c.maxDigits := List.isChain_pair.1 hw.right caret whole
    have hexp : Expr.exponentOf c n.text = .ok (Decimal.ofDigits n.text : Int) := by
      rw [Expr.exponentOf, if_neg (Nat.not_lt.2 hn)]
    rw [List.append_assoc, read_power, ih hw.left p _ trivial]
    simp only [more, ok_bind, List.cons_append, List.nil_append, ofTokensAfter_cons]
    rw [exponent_of_caret c isBase caret (isExponent_of_isWhole whole)
      (by rwa [head?_kind_ofTokensAfter]), hexp]
    simp [Except.map]
  | @unsigned ts e operand ih =>
    rw [read_unary_of_head_ne_sign, ih hw p vs hf]
    · rfl
    · intro t ht
      rw [List.head?_append_of_ne_nil _ operand.ne_nil] at ht
      exact operand.head_ne_operator (.inr rfl) ht
  | @plus s ts e sign operand ih =>
    have h := ih hw.tail (some s) vs hf
    rw [List.cons_append, read_unary_of_sign (.inl sign), h]
    simp [more, sign.2, Operator.text, List.getLast?_cons_of_ne_nil operand.ne_nil]
  | @minusNumber s ts x sign operand ih =>
    have h := ih hw.tail (some s) vs hf
    rw [List.cons_append, read_unary_of_sign (.inr sign), h]
    simp [more, sign.2, Operator.text, hc, Expr.negated, List.getLast?_cons_of_ne_nil operand.ne_nil]
  | @minus s ts e sign operand notNumber ih =>
    have h := ih hw.tail (some s) vs hf
    have hneg : e.negated = .binary .minus (.literal .zero) e := by
      cases e with
      | literal x => exact absurd rfl (notNumber x)
      | _ => rfl
    rw [List.cons_append, read_unary_of_sign (.inr sign), h]
    simp [more, sign.2, Operator.text, hc, hneg, List.getLast?_cons_of_ne_nil operand.ne_nil]
  | @operand ts e first ih =>
    rw [read_term, ih hw p vs hf]
    rfl
  | @product ts us l r s op left sign isFactor right ihl ihr =>
    have hl := ihl hw.left p (s :: (us ++ vs)) (by simp [Follows, sign.1])
    have hr := ihr hw.right.tail (some s) vs hf
    rw [List.append_assoc, List.cons_append, hl]
    show factors c l _ = _
    rw [factors_of_operator sign isFactor, hr, List.getLast?_append_cons,
      List.getLast?_cons_of_ne_nil right.ne_nil]
    rfl
  | @joined ts us l r t left joins right ihl ihr =>
    have hl := ihl hw.left p (t :: (us ++ vs)) (by simp [Follows, joins.kind])
    have hr := ihr hw.right ts.getLast? vs hf
    rw [List.cons_append] at hr
    rw [List.append_assoc, List.cons_append, hl]
    show factors c l _ = _
    rw [factors_of_joins joins, hr, List.getLast?_append_cons]
    rfl
  | @term ts e first ih =>
    rw [read_sum, ih hw p _ hf.1]
    show factors c e _ >>= _ = _
    rw [factors_of_follows hf]
    rfl
  | @sum ts us l r s op left sign isTerm right ihl ihr =>
    have hlast : (ts ++ s :: us).getLast? = us.getLast? := by
      rw [List.getLast?_append_cons, List.getLast?_cons_of_ne_nil right.ne_nil]
    have hend : Follows .sum us vs := by
      simpa only [Follows, Token.Joins, hlast] using hf
    have hl := ihl hw.left p (s :: (us ++ vs)) (follows_of_sign sign isTerm)
    have hr := ihr hw.right.tail (some s) vs hf.1
    rw [List.append_assoc, List.cons_append, hl]
    show terms c l _ = _
    rw [terms_of_operator sign isTerm, hr, hlast]
    simp only [more, factors_of_follows hend, ok_bind]

/-! ## Failures to the right -/

section Failures

variable {p : Option Token} {s t : Token} {us ws : List Token} {l : Expr} {op : Operator}
  {x : Failure}

/-- What fails after a sign fails with the sign. -/
theorem read_signed_of_error (sign : s.Denotes .plus ∨ s.Denotes .minus)
    (h : read c .unary (ofTokensAfter (some s) ws) = .error x) :
    read c .unary (ofTokensAfter p (s :: ws)) = .error x := by
  rw [read_unary_of_sign sign, h]
  rfl

/-- What fails as the right operand of a product fails with the left one. -/
theorem read_product_of_error (hc : c.minus = Expr.negated) (left : Derives .term us l)
    (hw : ExponentsWithin c.maxDigits us) (sign : s.Denotes op)
    (isFactor : op = .times ∨ op = .dividedBy)
    (h : read c .unary (ofTokensAfter (some s) ws) = .error x) :
    read c .term (ofTokensAfter p (us ++ s :: ws)) = .error x := by
  rw [read_of_derives hc left hw p (s :: ws) (by simp [Follows, sign.1])]
  show factors c l _ = _
  rw [factors_of_operator sign isFactor, h]
  rfl

/-- What fails after a number that it is joined to fails with the number. -/
theorem read_joined_of_error (hc : c.minus = Expr.negated) (left : Derives .term us l)
    (hw : ExponentsWithin c.maxDigits us) (joins : t.Joins us)
    (h : read c .power (ofTokensAfter us.getLast? (t :: ws)) = .error x) :
    read c .term (ofTokensAfter p (us ++ t :: ws)) = .error x := by
  rw [read_of_derives hc left hw p (t :: ws) (by simp [Follows, joins.kind])]
  show factors c l _ = _
  rw [factors_of_joins joins, h]
  rfl

/-- What fails as the right operand of a sum fails with the left one. -/
theorem read_sum_of_error (hc : c.minus = Expr.negated) (left : Derives .sum us l)
    (hw : ExponentsWithin c.maxDigits us) (sign : s.Denotes op) (isTerm : op = .plus ∨ op = .minus)
    (h : read c .term (ofTokensAfter (some s) ws) = .error x) :
    read c .sum (ofTokensAfter p (us ++ s :: ws)) = .error x := by
  rw [read_of_derives hc left hw p (s :: ws) (follows_of_sign sign isTerm)]
  show terms c l _ = _
  rw [terms_of_operator sign isTerm, h]
  rfl

end Failures

/-! ## A whole formula -/

theorem ofSymbols_of_derives (hc : c.minus = Expr.negated) {ts : List Token} {e : Expr}
    (h : Derives .sum ts e) (hw : ExponentsWithin c.maxDigits ts) :
    Expr.ofSymbols c (Symbol.ofTokens ts) = .ok e := by
  have hread := read_of_derives hc h hw none [] (by simp [Follows])
  rw [List.append_nil] at hread
  rw [ofSymbols_eq]
  show read c .sum (ofTokensAfter none ts) >>= whole = _
  rw [hread]
  simp [more, whole]

/-- Every list of tokens has some bound on its exponents. -/
theorem exists_exponentsWithin (ts : List Token) : ∃ limit, ExponentsWithin limit ts := by
  refine ⟨(ts.map Token.text).flatten.length, ?_⟩
  refine List.isChain_iff_forall_rel_of_append_cons_cons.2 fun c n us vs h _ _ => ?_
  have hn : n ∈ ts := by simp [h]
  exact (List.sublist_flatten_of_mem (List.mem_map_of_mem hn)).length_le

/-- No tokens stand for two expressions. -/
theorem Derives.unique {ts : List Token} {d e : Expr} (hd : Derives .sum ts d)
    (he : Derives .sum ts e) : d = e := by
  obtain ⟨limit, hw⟩ := exists_exponentsWithin ts
  have h := ofSymbols_of_derives (c := ⟨limit, Expr.negated⟩) rfl hd hw
  rw [ofSymbols_of_derives rfl he hw] at h
  exact (Except.ok.inj h).symm

end Grammar
end Reckon
