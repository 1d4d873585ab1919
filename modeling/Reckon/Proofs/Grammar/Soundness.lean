import Reckon.Proofs.Grammar.Ended
import Reckon.Proofs.Grammar.Stuck
import Reckon.Proofs.Grammar.Symbols
import Reckon.Proofs.Token.Scan

/-!
# Every reading is accounted for

What a level reads is a phrase of the level. Where it fails, either the text is
at fault, or an exponent has too many digits after a beginning that is without
fault (`Accounted`). There is nothing else that reading can come to. A closing
parenthesis is missing where the tokens are stuck only, and no level misses an
opening one.

Results:

* `accounted_read`: the account of every level.
* `ofSymbols_cases`: the account of a whole list of tokens.
-/

namespace Reckon
namespace Grammar

open Reckon.Expr (Conventions)
open Reckon.Symbol (ofTokensAfter)

variable {c : Conventions} {L M : Level}

/-! ## Accounts -/

/-- What a reading of tokens has come to. -/
inductive Accounted (c : Conventions) (L : Level) : List Token → Reading → Prop
  | read (us vs : List Token) {e : Expr} (derives : Derives L us e)
      (within : ExponentsWithin c.maxDigits us) :
      Accounted c L (us ++ vs) (.ok (e, ofTokensAfter us.getLast? vs))
  | overlong {ts : List Token} (h : Overlong c.maxDigits L ts) :
      Accounted c L ts (.error (.breakdown .exponentTooLong))
  | stuck {ts : List Token} (h : Stuck c.maxDigits L ts) :
      Accounted c L ts (.error (.fault .missingClose))
  | fault {ts : List Token} {f : Fault} (h : f.IsSyntax) (hclose : f ≠ .missingClose)
      (hopen : f ≠ .missingOpen) : Accounted c L ts (.error (.fault f))

/-- The account of a reading that goes on where another one has ended. -/
theorem Accounted.bind (us : List Token) {ts : List Token} {r : Reading}
    {next : Expr × List Symbol → Reading}
    (h : Accounted c L ts r)
    (hread : ∀ vs ws e, ts = vs ++ ws → r = .ok (e, ofTokensAfter vs.getLast? ws) →
      Derives L vs e → ExponentsWithin c.maxDigits vs →
      Accounted c M (us ++ (vs ++ ws)) (next (e, ofTokensAfter vs.getLast? ws)))
    (hp : Precedes c.maxDigits L M us ts) : Accounted c M (us ++ ts) (r >>= next) := by
  cases h with
  | read vs ws derives within => exact hread vs ws _ rfl rfl derives within
  | overlong h => exact .overlong (h.prepend hp)
  | stuck h => exact .stuck (h.prepend hp)
  | fault h hclose hopen => exact .fault h hclose hopen

theorem Accounted.weaken {ts : List Token} {r : Reading}
    (hD : ∀ us e, Derives L us e → Derives M us e) (h : Accounted c L ts r) :
    Accounted c M ts r := by
  cases h with
  | read us vs derives within => exact .read us vs (hD us _ derives) within
  | overlong h => exact .overlong (h.prepend (.weaken hD))
  | stuck h => exact .stuck (h.prepend (.weaken hD))
  | fault h hclose hopen => exact .fault h hclose hopen

/-- A level accounts for what it reads from these symbols. -/
def SoundAt (c : Conventions) (L : Level) (ss : List Symbol) : Prop :=
  ∀ p ts, ss = ofTokensAfter p ts → (∀ t ∈ ts, t.Lexical) → Accounted c L ts (read c L ss)

/-- A loop accounts for what it reads from these symbols after a phrase. -/
def SoundAfter (c : Conventions) (L : Level) (loop : Expr → List Symbol → Reading)
    (current : Expr) (ss : List Symbol) : Prop :=
  ∀ us ts, Derives L us current → ExponentsWithin c.maxDigits us →
    ss = ofTokensAfter us.getLast? ts → (∀ t ∈ ts, t.Lexical) →
    Accounted c L (us ++ ts) (loop current ss)

theorem isWhole_of_isExponent {t : Token} {j : Bool} (hlex : t.Lexical)
    (h : (Symbol.mk t.kind t.text j).isExponent = true) : t.IsWhole := by
  simp only [Symbol.isExponent, Bool.and_eq_true, beq_iff_eq, List.all_eq_true, bne_iff_ne] at h
  exact ⟨h.1, fun c hc => (hlex.digits h.1 c hc).resolve_right (h.2 c hc)⟩

/-! ## Factors and powers -/

/-- A token after a sum that has ended closes a parenthesis or does not go on with the sum. -/
theorem adjacent_of_ended {us : List Token} {t : Token} {ss : List Symbol}
    (h : Ended .sum (⟨t.kind, t.text, Symbol.isJoined us.getLast? t⟩ :: ss))
    (hclose : t.kind ≠ .closeParen) : t.Adjacent us := by
  obtain ⟨hcaret, hfactor, hjoined, hsign⟩ := h _ rfl
  rw [isFactorOperator_iff] at hfactor
  rw [isSign_iff] at hsign
  rw [isJoined_iff] at hjoined
  exact ⟨hcaret, hclose, fun h => hsign (.inl h), fun h => hsign (.inr h),
    fun h => hfactor (.inl h), fun h => hfactor (.inr h), hjoined⟩

/-- An opening parenthesis before a sum that cannot go on. -/
theorem stuck_group {a : Token} {us vs : List Token} {e : Expr} (ha : a.kind = .openParen)
    (derives : Derives .sum us e) (within : ExponentsWithin c.maxDigits us)
    (next : ∀ t ∈ vs.head?, t.Adjacent us) : Stuck c.maxDigits .factor (a :: (us ++ vs)) := by
  have hw : ExponentsWithin c.maxDigits ([a] ++ us) :=
    (exponentsWithin_singleton _ a).append within (by simp [ha])
  have hgroup : Derives .factor ([a] ++ us ++ List.replicate (0 + 1) closing) (.group e) :=
    .group ha rfl derives
  exact .intro hw hgroup fun t ht => (adjacent_append derives.ne_nil).2 (next t ht)

theorem precedes_group {a : Token} {ts : List Token} (ha : a.kind = .openParen) (limit : Nat) :
    Precedes limit .sum .factor [a] ts := by
  refine ⟨exponentsWithin_singleton _ a, by simp [ha], fun k vs e _ h => ?_⟩
  have := Derives.group ha (z := closing) rfl h
  rw [List.append_assoc, ← List.replicate_succ'] at this
  exact ⟨k + 1, _, Nat.le_succ k, this⟩

theorem accounted_group {a : Token} {ts : List Token} {r : Reading} (ha : a.kind = .openParen)
    (h : Accounted c .sum ts r) (hend : EndsAt .sum r) :
    Accounted c .factor (a :: ts) (r >>= close) := by
  refine Accounted.bind [a] h (fun vs ws e _ hr derives within => ?_) (precedes_group ha _)
  rcases ws with _ | ⟨z, ws⟩
  · have hnext : ∀ t ∈ ([] : List Token).head?, t.Adjacent vs := by simp
    have := stuck_group ha derives within hnext
    exact .stuck this
  · simp only [ofTokensAfter_cons, close]
    split_ifs with hz
    · have hw : ExponentsWithin c.maxDigits ([a] ++ (vs ++ [z])) :=
        (exponentsWithin_singleton _ a).append
          (within.append (exponentsWithin_singleton _ z) derives.getLast?_ne_caret) (by simp [ha])
      have := Accounted.read _ ws (.group ha hz derives) hw
      simpa [List.getLast?_cons] using this
    · have hnext : ∀ t ∈ (z :: ws).head?, t.Adjacent vs := by
        rintro t ⟨⟩
        exact adjacent_of_ended (hend _ hr) hz
      have := stuck_group ha derives within hnext
      exact .stuck this

theorem soundAt_factor_cons {s : Symbol} {ss : List Symbol}
    (h : s.kind = .openParen → SoundAt c .sum ss) : SoundAt c .factor (s :: ss) := by
  intro p ts hts hlex
  obtain ⟨t, us, rfl, rfl, rfl⟩ := ofTokensAfter_eq_cons hts
  rw [read_factor_cons]
  dsimp only at h ⊢
  cases hk : t.kind with
  | number => exact .read [t] us (.number hk) (exponentsWithin_singleton _ t)
  | identifier => exact .read [t] us (.name hk) (exponentsWithin_singleton _ t)
  | openParen =>
    exact accounted_group hk (h hk _ us rfl fun u hu => hlex u (List.mem_cons_of_mem t hu))
      (ended_read .sum _)
  | _ => exact .fault (Fault.isSyntax_of_malformed rfl (by simp)) (by simp) (by simp)

/-- What follows the base of a power is accounted for. -/
theorem accounted_exponent {us vs : List Token} {base : Expr} (hbase : Derives .factor us base)
    (within : ExponentsWithin c.maxDigits us) (hlex : ∀ t ∈ vs, t.Lexical) :
    Accounted c .power (us ++ vs) (exponent c base (ofTokensAfter us.getLast? vs)) := by
  rcases vs with _ | ⟨t, vs⟩
  · exact .read us _ (.factor hbase) within
  simp only [ofTokensAfter_cons, exponent]
  split_ifs with hcaret hb
  · exact .read us _ (.factor hbase) within
  · exact .fault (Fault.isSyntax_of_malformed rfl (by simp)) (by simp) (by simp)
  rw [not_not] at hcaret
  rcases vs with _ | ⟨n, vs⟩
  · exact .fault (Fault.isSyntax_of_malformed rfl (by simp)) (by simp) (by simp)
  simp only [ofTokensAfter_cons, head?_kind_ofTokensAfter]
  split_ifs with hn hnext
  · exact .fault (Fault.isSyntax_of_malformed rfl (by simp)) (by simp) (by simp)
  · exact .fault (Fault.isSyntax_of_malformed rfl (by simp)) (by simp) (by simp)
  have hwhole : n.IsWhole := isWhole_of_isExponent (hlex n (by simp)) (by simpa using hn)
  have hpower := Derives.power hbase (by simpa using hb) hcaret hwhole
  rw [Expr.exponentOf]
  split_ifs with hlong
  · exact .overlong (.intro (k := 0) hcaret hwhole hlong within hnext hpower)
  · have hw : ExponentsWithin c.maxDigits (us ++ [t, n]) :=
      within.append (List.isChain_pair.2 fun _ _ => Nat.le_of_not_lt hlong)
        hbase.getLast?_ne_caret
    have := Accounted.read _ vs hpower hw
    simpa [Except.map] using this

theorem soundAt_power {ss : List Symbol} (h : SoundAt c .factor ss) : SoundAt c .power ss := by
  intro p ts hts hlex
  rw [read_power]
  refine Accounted.bind [] (h p ts hts hlex) (fun vs ws e hsplit _ derives within => ?_)
    (.weaken fun _ _ => .factor)
  subst hsplit
  exact accounted_exponent derives within fun t ht => hlex t (List.mem_append_right vs ht)

/-! ## Signs -/

/-- A sign before an operand, by the conventions of formulas. -/
theorem derives_signed {t : Token} {ts : List Token} {e : Expr}
    (ht : t.Denotes .plus ∨ t.Denotes .minus) (h : Derives .unary ts e) :
    Derives .unary (t :: ts) (if t.text = ['-'] then e.negated else e) := by
  rcases ht with ht | ht
  · rw [if_neg (by simp [ht.2, Operator.text])]
    exact .plus ht h
  · rw [show t.text = ['-'] from ht.2, if_pos rfl]
    cases e with
    | literal x => exact .minusNumber ht h
    | _ => exact .minus ht h (by simp)

theorem soundAt_unary_cons (hc : c.minus = Expr.negated) {s : Symbol} {ss : List Symbol}
    (hsign : SoundAt c .unary ss) (hpower : SoundAt c .power (s :: ss)) : SoundAt c .unary (s :: ss) := by
  intro p ts hts hlex
  rw [read_unary_cons]
  by_cases hs : s.isSign = true
  · rw [if_pos hs]
    obtain ⟨t, us, rfl, rfl, rfl⟩ := ofTokensAfter_eq_cons hts
    have ht := isSign_iff.1 hs
    have hkind : t.kind = .operator := ht.elim And.left And.left
    have hbehind : Precedes c.maxDigits .unary .unary [t] us :=
      ⟨exponentsWithin_singleton _ t, by simp [hkind],
        fun k vs e _ h => ⟨k, _, Nat.le_refl k, derives_signed ht h⟩⟩
    refine Accounted.bind [t] (hsign _ us rfl fun u hu => hlex u (List.mem_cons_of_mem t hu))
      (fun vs ws e _ _ derives within => ?_) hbehind
    have hw := (exponentsWithin_singleton c.maxDigits t).append within (by simp [hkind])
    have := Accounted.read _ ws (derives_signed ht derives) hw
    rw [List.getLast?_cons_of_ne_nil derives.ne_nil, ← hc] at this
    exact this
  · rw [if_neg hs]
    exact (hpower p ts hts hlex).weaken fun _ _ => .unsigned

/-! ## Terms and sums -/

/-- A first operand and what a loop reads after it. -/
theorem SoundAt.loop {ss : List Symbol} {loop : Expr → List Symbol → Reading}
    (hread : read c M ss = read c L ss >>= fun p => loop p.1 p.2)
    (hD : ∀ ts e, Derives L ts e → Derives M ts e) (h : SoundAt c L ss)
    (hloop : ∀ e rest, rest.length < ss.length → SoundAfter c M loop e rest) : SoundAt c M ss := by
  intro p ts hts hlex
  rw [hread]
  refine Accounted.bind [] (h p ts hts hlex) (fun vs ws e hsplit _ derives within => ?_)
    (.weaken hD)
  subst hsplit
  refine hloop e _ ?_ vs ws (hD vs e derives) within rfl
    fun t ht => hlex t (List.mem_append_right vs ht)
  have := List.length_pos_iff.2 derives.ne_nil
  rw [hts, length_ofTokensAfter, length_ofTokensAfter, List.length_append]
  omega

/-- An operator, its right operand, and what a loop reads after it. -/
theorem accounted_infix {us ts : List Token} {t : Token} {current : Expr} {op : Operator}
    {loop : Expr → List Symbol → Reading} {next : Expr × List Symbol → Reading}
    (left : Derives M us current) (within : ExponentsWithin c.maxDigits us) (ht : t.Denotes op)
    (hD : ∀ vs r, Derives L vs r → Derives M (us ++ t :: vs) (.binary op current r))
    (hnext : ∀ p, next p = loop (.binary op current p.1) p.2)
    (h : SoundAt c L (ofTokensAfter (some t) ts)) (hlex : ∀ u ∈ ts, u.Lexical)
    (hloop : ∀ r rest, rest.length < ts.length → SoundAfter c M loop (.binary op current r) rest) :
    Accounted c M (us ++ t :: ts) (read c L (ofTokensAfter (some t) ts) >>= next) := by
  have hkind : t.kind ≠ .caret := by simp [ht.1]
  have hfirst : ExponentsWithin c.maxDigits (us ++ [t]) :=
    within.append (exponentsWithin_singleton _ t) left.getLast?_ne_caret
  have hlast : (us ++ [t]).getLast?.map Token.kind ≠ some .caret := by simpa using hkind
  have hbehind : Precedes c.maxDigits L M (us ++ [t]) ts :=
    ⟨hfirst, hlast, fun k vs r _ h =>
      ⟨k, .binary op current r, Nat.le_refl k, by simpa using hD _ r h⟩⟩
  rw [List.append_cons]
  refine Accounted.bind _ (h _ _ rfl hlex) (fun vs ws r hsplit _ right hright => ?_) hbehind
  subst hsplit
  have hpos := List.length_pos_iff.2 right.ne_nil
  have hlen : (ofTokensAfter vs.getLast? ws).length < (vs ++ ws).length := by
    rw [length_ofTokensAfter, List.length_append]
    omega
  have := hloop r (ofTokensAfter vs.getLast? ws) hlen (us ++ t :: vs) ws
    (hD vs r right) (by simpa using hfirst.append hright hlast)
    (by rw [List.getLast?_append_cons, List.getLast?_cons_of_ne_nil right.ne_nil])
    fun u hu => hlex u (List.mem_append_right vs hu)
  rw [hnext]
  simpa using this

/-- An identifier after a number, and what the loop reads after its power. -/
theorem accounted_joined {us ts : List Token} {t : Token} {current : Expr} {ss : List Symbol}
    (left : Derives .term us current) (within : ExponentsWithin c.maxDigits us) (ht : t.Joins us)
    (hss : ss = ofTokensAfter us.getLast? (t :: ts)) (h : SoundAt c .power ss)
    (hlex : ∀ u ∈ t :: ts, u.Lexical)
    (hloop : ∀ r rest, rest.length < ss.length →
      SoundAfter c .term (factors c) (.binary .times current r) rest) :
    Accounted c .term (us ++ t :: ts)
      (read c .power ss >>= fun p => factors c (.binary .times current p.1) p.2) := by
  have hbehind : Precedes c.maxDigits .power .term us (t :: ts) := by
    refine ⟨within, left.getLast?_ne_caret, fun k vs r hhead h =>
      ⟨k, .binary .times current r, Nat.le_refl k, ?_⟩⟩
    obtain ⟨vs, rfl⟩ := List.head?_eq_some_iff.1 hhead
    exact .joined left ht h
  refine Accounted.bind us (h _ _ hss hlex) (fun vs ws r hsplit _ right hright => ?_) hbehind
  obtain ⟨u, vs, rfl⟩ := List.exists_cons_of_ne_nil right.ne_nil
  rw [List.cons_append] at hsplit
  obtain ⟨rfl, rfl⟩ := List.cons.inj hsplit
  have hlen : (ofTokensAfter (t :: vs).getLast? ws).length < ss.length := by
    rw [hss, length_ofTokensAfter, length_ofTokensAfter, List.length_cons, List.length_append]
    omega
  have := hloop r (ofTokensAfter (t :: vs).getLast? ws) hlen (us ++ t :: vs) ws
    (.joined left ht right) (within.append hright left.getLast?_ne_caret)
    (by rw [List.getLast?_append_cons])
    fun u hu => hlex u (by simp [hu])
  simpa using this

theorem soundAfter_factors_cons {current : Expr} {s : Symbol} {ss : List Symbol}
    (hunary : SoundAt c .unary ss) (hpower : SoundAt c .power (s :: ss))
    (hloop : ∀ e rest, rest.length < (s :: ss).length → SoundAfter c .term (factors c) e rest) :
    SoundAfter c .term (factors c) current (s :: ss) := by
  intro us ts left within hts hlex
  obtain ⟨t, ts, rfl, rfl, rfl⟩ := ofTokensAfter_eq_cons hts
  rw [factors_cons]
  split_ifs with hop hjoin
  · have hlex' := fun u hu => hlex u (List.mem_cons_of_mem t hu)
    have hloop' : ∀ e rest, rest.length < ts.length → SoundAfter c .term (factors c) e rest :=
      fun e rest h => hloop e rest (by simp; omega)
    rcases isFactorOperator_iff.1 hop with ht | ht
    · exact accounted_infix left within ht (fun vs r => .product left ht (.inl rfl))
        (fun p => by rw [ht.2]; rfl) hunary hlex' fun r => hloop' _
    · exact accounted_infix left within ht (fun vs r => .product left ht (.inr rfl))
        (fun p => by rw [ht.2]; rfl) hunary hlex' fun r => hloop' _
  · exact accounted_joined left within (isJoined_iff.1 hjoin) rfl hpower hlex
      fun r => hloop _
  · have := Accounted.read us (t :: ts) left within
    exact this

theorem soundAfter_terms_cons {current : Expr} {s : Symbol} {ss : List Symbol}
    (hterm : SoundAt c .term ss)
    (hloop : ∀ e rest, rest.length < (s :: ss).length → SoundAfter c .sum (terms c) e rest) :
    SoundAfter c .sum (terms c) current (s :: ss) := by
  intro us ts left within hts hlex
  obtain ⟨t, ts, rfl, rfl, rfl⟩ := ofTokensAfter_eq_cons hts
  rw [terms_cons]
  split_ifs with hs
  · have hlex' := fun u hu => hlex u (List.mem_cons_of_mem t hu)
    have hloop' : ∀ e rest, rest.length < ts.length → SoundAfter c .sum (terms c) e rest :=
      fun e rest h => hloop e rest (by simp; omega)
    rcases isSign_iff.1 hs with ht | ht
    · exact accounted_infix left within ht (fun vs r => .sum left ht (.inl rfl))
        (fun p => by rw [ht.2]; rfl) hterm hlex' fun r => hloop' _
    · exact accounted_infix left within ht (fun vs r => .sum left ht (.inr rfl))
        (fun p => by rw [ht.2]; rfl) hterm hlex' fun r => hloop' _
  · have := Accounted.read us (t :: ts) left within
    exact this

/-! ## All levels -/

theorem soundAfter_nil {loop : Expr → List Symbol → Reading} (hnil : ∀ e, loop e [] = .ok (e, []))
    (current : Expr) : SoundAfter c L loop current [] := by
  intro us ts left within hts _
  obtain rfl := ofTokensAfter_eq_nil.1 hts.symm
  rw [hnil]
  exact .read us [] left within

/-- Every level and both loops account for what they read. -/
theorem sound_all (hc : c.minus = Expr.negated) :
    (∀ L ss, SoundAt c L ss) ∧ (∀ e ss, SoundAfter c .term (factors c) e ss) ∧
      ∀ e ss, SoundAfter c .sum (terms c) e ss := by
  have hmissing : ∀ L, read c L [] = .error (.fault .missingOperand) → SoundAt c L [] := by
    intro L h p ts _ _
    rw [h]
    exact .fault (Fault.isSyntax_of_malformed rfl (by simp)) (by simp) (by simp)
  apply levels_induction
  case factor_nil => exact hmissing .factor (read_factor_nil c)
  case factor_cons => exact fun s ss h => soundAt_factor_cons h
  case power => exact fun ss h => soundAt_power h
  case unary_nil => exact hmissing .unary (read_unary_nil c)
  case unary_cons => exact fun s ss hunary hpower => soundAt_unary_cons hc hunary hpower
  case factors_nil => exact soundAfter_nil (factors_nil c)
  case factors_cons =>
    exact fun e s ss hunary hpower hloop => soundAfter_factors_cons hunary hpower hloop
  case term => exact fun ss => SoundAt.loop (read_term c ss) fun _ _ => .operand
  case terms_nil => exact soundAfter_nil (terms_nil c)
  case terms_cons => exact fun e s ss hterm hloop => soundAfter_terms_cons hterm hloop
  case sum => exact fun ss => SoundAt.loop (read_sum c ss) fun _ _ => .term

/-- The account of every level. -/
theorem accounted_read (hc : c.minus = Expr.negated) (L : Level) (p : Option Token)
    {ts : List Token} (hlex : ∀ t ∈ ts, t.Lexical) :
    Accounted c L ts (read c L (ofTokensAfter p ts)) :=
  (sound_all hc).1 L _ p ts rfl hlex

/-- The account of tokens that all have to belong to one expression. -/
theorem ofSymbols_cases (hc : c.minus = Expr.negated) {ts : List Token}
    (hlex : ∀ t ∈ ts, t.Lexical) :
    (∃ e, Expr.ofSymbols c (Symbol.ofTokens ts) = .ok e ∧ Derives .sum ts e ∧
      ExponentsWithin c.maxDigits ts) ∨
    (Expr.ofSymbols c (Symbol.ofTokens ts) = .error (.breakdown .exponentTooLong) ∧
      Overlong c.maxDigits .sum ts) ∨
    ∃ f : Fault, Expr.ofSymbols c (Symbol.ofTokens ts) = .error (.fault f) ∧ f.IsSyntax := by
  have h := accounted_read hc .sum none hlex
  rw [ofSymbols_eq, Symbol.ofTokens]
  generalize read c .sum (ofTokensAfter none ts) = r at h ⊢
  cases h with
  | @read us vs e derives within =>
    rcases vs with _ | ⟨t, vs⟩
    · refine .inl ⟨e, rfl, ?_, ?_⟩
      · rwa [List.append_nil]
      · rwa [List.append_nil]
    · refine .inr (.inr ?_)
      simp only [ok_bind, ofTokensAfter_cons, whole]
      split
      · exact ⟨_, rfl, Fault.isSyntax_of_malformed rfl (by simp)⟩
      · exact ⟨_, rfl, Fault.isSyntax_of_malformed rfl (by simp)⟩
  | overlong h => exact .inr (.inl ⟨rfl, h⟩)
  | stuck h => exact .inr (.inr ⟨_, rfl, Fault.isSyntax_of_malformed rfl (by simp)⟩)
  | fault h => exact .inr (.inr ⟨_, rfl, h⟩)

end Grammar
end Reckon
