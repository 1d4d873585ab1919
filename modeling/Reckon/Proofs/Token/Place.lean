import Reckon.Proofs.Token.Scan

/-!
# Where the tokens of a formula stand

The tokens of the lenient scan stand in the formula in their order, each at its
position, and only blanks stand before, between and after them. So the formula
can be put together again from its tokens and the gaps.

Results:

* `standIn_scan`: the tokens of a formula stand in it.
* `exists_gap`: what stands between two tokens.
* `touches_of_caret`: a token before or after a caret touches it, unless there
  is a blank beside the caret.
-/

namespace Reckon
namespace Token

/-- The token is what a scan takes where the text begins. -/
def Begins (t : Token) (text : List Char) : Prop :=
  ∃ c cs, text = c :: cs ∧ lexeme c cs = (t.kind, t.text)

/-- The tokens stand in the text that begins at the position, with blanks between them. -/
inductive StandIn : Nat → List Char → List Token → Prop
  | nil {p : Nat} {gap : List Char} (blank : ∀ c ∈ gap, Text.isBlank c = true) : StandIn p gap []
  | cons {p : Nat} {gap rest : List Char} {t : Token} {ts : List Token}
      (blank : ∀ c ∈ gap, Text.isBlank c = true) (start : t.start = p + gap.length)
      (begins : t.Begins (t.text ++ rest)) (next : StandIn t.stop rest ts) :
      StandIn p (gap ++ (t.text ++ rest)) (t :: ts)

/-- The formula has no blank directly before or after a caret. -/
def NoBlankBesideCaret (formula : List Char) : Prop :=
  ∀ c, Text.isBlank c = true → ¬[c, '^'] <:+: formula ∧ ¬['^', c] <:+: formula

/-! ## All tokens of a scan -/

/-- One more blank before the tokens. -/
theorem StandIn.blank {p : Nat} {c : Char} {cs : List Char} {ts : List Token}
    (hc : Text.isBlank c = true) (h : StandIn (p + 1) cs ts) : StandIn p (c :: cs) ts := by
  cases h with
  | nil blank => exact .nil (List.forall_mem_cons.2 ⟨hc, blank⟩)
  | @cons _ gap rest t ts blank start begins next =>
    have hstart : t.start = p + (c :: gap).length := by
      rw [start, List.length_cons]
      omega
    exact .cons (List.forall_mem_cons.2 ⟨hc, blank⟩) hstart begins next

theorem standIn_scanFrom (p : Nat) (cs : List Char) : StandIn p cs (scanFrom p cs) := by
  fun_induction scanFrom p cs with
  | case1 => exact .nil (by simp)
  | case2 p c cs hb ih => exact ih.blank hb
  | case3 p c cs hb kind text hl ih =>
    obtain ⟨more, htext, rest, rfl⟩ := lexeme_eq_append c cs
    rw [hl] at htext
    dsimp only at htext
    subst htext
    have hdrop : (more ++ rest).drop ((c :: more).length - 1) = rest := by
      rw [List.length_cons, Nat.add_sub_cancel, List.drop_left]
    rw [hdrop] at ih ⊢
    have hbegins : (Token.mk kind (c :: more) p).Begins (c :: more ++ rest) :=
      ⟨c, more ++ rest, rfl, hl⟩
    show StandIn p ([] ++ (c :: more ++ rest)) _
    exact .cons (List.forall_mem_nil _) rfl hbegins ih

/-- The tokens of a formula stand in it. -/
theorem standIn_scan (formula : List Char) : StandIn 0 formula (scan formula) :=
  standIn_scanFrom 0 formula

/-- The text before the first token, the token, and the text with the others. -/
theorem StandIn.cut {p : Nat} {text : List Char} {t : Token} {ts : List Token}
    (h : StandIn p text (t :: ts)) :
    text = text.take (t.start - p) ++ (t.text ++ text.drop (t.stop - p)) ∧
      StandIn t.stop (text.drop (t.stop - p)) ts := by
  cases h with
  | @cons _ gap rest _ _ blank start begins next =>
    have hgap : t.start - p = gap.length := by omega
    have hstop : t.stop - p = (gap ++ t.text).length := by
      rw [stop, List.length_append]
      omega
    have hdrop : (gap ++ (t.text ++ rest)).drop (t.stop - p) = rest := by
      rw [hstop, ← List.append_assoc, List.drop_left]
    rw [hdrop, hgap, List.take_left]
    exact ⟨rfl, next⟩

/-! ## Carets -/

/-- A caret is one character. -/
theorem Begins.text_of_caret {t : Token} {text : List Char} (h : t.Begins text)
    (hk : t.kind = .caret) : t.text = ['^'] := by
  obtain ⟨c, cs, -, hl⟩ := h
  rw [hk, lexeme] at hl
  split at hl
  · cases hl
  · split_ifs at hl
    · cases hl
    · cases hl
    · rename_i hc
      have htext : [c] = t.text := congrArg Prod.snd hl
      rw [← htext, hc]
    all_goals cases hl

theorem StandIn.text_of_caret {p : Nat} {cs : List Char} {ts : List Token} (h : StandIn p cs ts)
    {t : Token} (ht : t ∈ ts) (hk : t.kind = .caret) : t.text = ['^'] := by
  induction h with
  | nil => exact absurd ht List.not_mem_nil
  | cons blank start begins next ih =>
    rcases List.mem_cons.1 ht with rfl | ht
    · exact begins.text_of_caret hk
    · exact ih ht

/-! ## Gaps -/

/-- What stands between two tokens. -/
theorem StandIn.exists_gap {p : Nat} {cs : List Char} {us vs : List Token} {t u : Token}
    (h : StandIn p cs (us ++ t :: u :: vs)) :
    ∃ before gap after, cs = before ++ (t.text ++ (gap ++ (u.text ++ after))) ∧
      (∀ c ∈ gap, Text.isBlank c = true) ∧ u.start = t.stop + gap.length := by
  induction us generalizing p cs with
  | nil =>
    cases h with
    | cons _ _ _ next =>
      cases next with
      | cons blank start _ _ => exact ⟨_, _, _, rfl, blank, start⟩
  | cons v us ih =>
    cases h with
    | @cons _ first _ _ _ _ _ _ next =>
      obtain ⟨before, gap, after, rfl, hgap⟩ := ih next
      exact ⟨first ++ (v.text ++ before), gap, after, by simp, hgap⟩

/-- Two tokens touch, one of them a caret, if there is no blank beside the caret. -/
theorem touches_of_caret {formula : List Char} (hf : NoBlankBesideCaret formula)
    {us vs : List Token} {t u : Token} (h : scan formula = us ++ t :: u :: vs)
    (hk : t.kind = .caret ∨ u.kind = .caret) : t.touches u = true := by
  have hstand := standIn_scan formula
  rw [h] at hstand
  obtain ⟨before, gap, after, hformula, hblank, hstart⟩ := hstand.exists_gap
  rcases hk with hk | hk
  · have htext : t.text = ['^'] := hstand.text_of_caret (by simp) hk
    cases gap with
    | nil => simpa [touches] using hstart
    | cons c gap =>
      refine absurd ?_ (hf c (hblank c List.mem_cons_self)).2
      exact ⟨before, gap ++ (u.text ++ after), by simp [hformula, htext]⟩
  · have htext : u.text = ['^'] := hstand.text_of_caret (by simp) hk
    rcases List.eq_nil_or_concat gap with rfl | ⟨gap, c, rfl⟩
    · simpa [touches] using hstart
    · refine absurd ?_ (hf c (hblank c (by simp))).1
      exact ⟨before ++ (t.text ++ gap), after, by simp [hformula, htext]⟩

end Token
end Reckon
