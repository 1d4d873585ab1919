import Reckon.Proofs.Token.Cut

/-!
# Blanks that are put into a formula

Blanks that are put between two tokens, or before or after all of them, change
no token: each ends where it did, since no token goes on with a blank. Only the
tokens that come later are moved.

Results:

* `checkFrom_shift`: the same text at a later position.
* `check_spaced`: the tokens of a formula with blanks put into it.
-/

namespace Reckon
namespace Token

/-- The text with blanks put in at a position. -/
def spaced (blanks : List Char) (position : Nat) (text : List Char) : List Char :=
  text.take position ++ (blanks ++ text.drop position)

/-- The token after as many characters have been put in at the position. -/
def moved (position count : Nat) (t : Token) : Token :=
  { t with start := if position ≤ t.start then t.start + count else t.start }

/-- The position is in the interior of no token. -/
def IsOutside (position : Nat) (ts : List Token) : Prop :=
  ∀ t ∈ ts, ¬(t.start < position ∧ position < t.stop)

variable {p q k count : Nat} {blanks cs after : List Char} {ts : List Token} {t u : Token}

@[simp] theorem kind_moved : (t.moved p count).kind = t.kind := rfl

theorem spaced_zero (blanks cs : List Char) : spaced blanks 0 cs = blanks ++ cs := rfl

/-- Before the position the text begins as it did. -/
theorem spaced_append (blanks run after : List Char) (h : run.length ≤ k) :
    spaced blanks k (run ++ after) = run ++ spaced blanks (k - run.length) after := by
  rw [spaced, spaced, List.take_append, List.drop_append, List.take_of_length_le h,
    List.drop_of_length_le h, List.nil_append, List.append_assoc]

/-! ## Blanks before a text -/

theorem checkFrom_blanks (hblank : ∀ c ∈ blanks, Text.isBlank c = true) (q : Nat)
    (cs : List Char) : checkFrom q (blanks ++ cs) = checkFrom (q + blanks.length) cs := by
  induction blanks generalizing q with
  | nil => rfl
  | cons b blanks ih =>
    obtain ⟨hb, hblank⟩ := List.forall_mem_cons.1 hblank
    rw [List.cons_append, checkFrom_cons, if_pos hb, ih hblank, List.length_cons, Nat.add_assoc,
      Nat.add_comm 1]

/-- The same text at a later position has the same tokens, all of them later. -/
theorem checkFrom_shift (h : checkFrom q cs = .ok ts) (hp : p ≤ q) (count : Nat) :
    checkFrom (q + count) cs = .ok (ts.map (moved p count)) := by
  induction hn : cs.length using Nat.strong_induction_on generalizing q cs ts with
  | _ n ih =>
    cases cs with
    | nil =>
      rw [checkFrom_nil] at h ⊢
      cases h
      rfl
    | cons c cs =>
      by_cases hb : Text.isBlank c = true
      · rw [checkFrom_cons, if_pos hb] at h ⊢
        rw [Nat.add_right_comm]
        exact ih cs.length (by simp [← hn]) h (Nat.le_succ_of_le hp) rfl
      obtain ⟨kind, more, after, us, rfl, hl, hother, hpoint, hus, rfl⟩ :=
        exists_of_checkFrom_cons hb h
      have hshort : after.length < n := by
        simp only [← hn, List.length_cons, List.length_append]
        omega
      have hfirst : moved p count ⟨kind, c :: more, q⟩ = ⟨kind, c :: more, q + count⟩ := by
        rw [moved, if_pos hp]
      rw [checkFrom_lexeme hb hl hother hpoint, Nat.add_right_comm,
        ih after.length hshort hus (Nat.le_add_right_of_le hp) rfl, List.map_cons, hfirst]
      rfl

/-! ## Blanks in a text -/

theorem not_isWordChar_of_isBlank {c : Char} (h : Text.isBlank c = true) :
    isWordChar c = false ∧ c ≠ '.' := by
  constructor
  · rw [Bool.eq_false_iff]
    exact fun hword => not_isBlank_of_isWordChar hword h
  · rintro rfl
    exact absurd h (by decide)

/-- Blanks put into what follows a token do not go on with the token. -/
theorem replaces_spaced (hblank : ∀ c ∈ blanks, Text.isBlank c = true) (k : Nat)
    (after : List Char) : Replaces (spaced blanks k after) after := by
  intro c hc
  have hfirst : ∀ rest, c ∈ (blanks ++ rest).head? →
      c ∈ rest.head? ∨ (isWordChar c = false ∧ c ≠ '.') := by
    intro rest hc
    cases blanks with
    | nil => exact .inl hc
    | cons b blanks =>
      cases hc
      exact .inr (not_isWordChar_of_isBlank (hblank _ List.mem_cons_self))
  cases k with
  | zero => exact hfirst after hc
  | succ k =>
    cases after with
    | nil => exact hfirst [] hc
    | cons d after => exact .inl hc

/-- A text with blanks put in outside of its tokens has the same tokens, and those after the
blanks are later. -/
theorem checkFrom_spaced (h : checkFrom q cs = .ok ts)
    (hblank : ∀ c ∈ blanks, Text.isBlank c = true) (outside : IsOutside (q + k) ts) :
    checkFrom q (spaced blanks k cs) = .ok (ts.map (moved (q + k) blanks.length)) := by
  induction hn : cs.length using Nat.strong_induction_on generalizing q k cs ts with
  | _ n ih =>
    cases k with
    | zero =>
      rw [spaced_zero, checkFrom_blanks hblank]
      exact checkFrom_shift h (Nat.le_refl q) _
    | succ k =>
      cases cs with
      | nil =>
        rw [checkFrom_nil] at h
        cases h
        have hspaced : spaced blanks (k + 1) [] = blanks := List.append_nil blanks
        rw [hspaced]
        exact checkFrom_of_blank hblank q
      | cons c cs =>
        by_cases hb : Text.isBlank c = true
        · rw [checkFrom_cons, if_pos hb] at h
          have hspaced : spaced blanks (k + 1) (c :: cs) = c :: spaced blanks k cs := rfl
          have hposition : q + (k + 1) = q + 1 + k := by omega
          rw [hspaced, checkFrom_cons, if_pos hb, hposition]
          rw [hposition] at outside
          exact ih cs.length (by simp [← hn]) h outside rfl
        obtain ⟨kind, more, after, us, rfl, hl, hother, hpoint, hus, rfl⟩ :=
          exists_of_checkFrom_cons hb h
        obtain ⟨hfirst, outside⟩ := List.forall_mem_cons.1 outside
        -- the first token ends before the blanks
        have hstop : (c :: more).length ≤ k + 1 := by
          by_contra hlt
          refine hfirst ⟨Nat.lt_add_of_pos_right k.succ_pos, ?_⟩
          show q + (k + 1) < q + (c :: more).length
          omega
        have hsame : moved (q + (k + 1)) blanks.length ⟨kind, c :: more, q⟩ =
            ⟨kind, c :: more, q⟩ := by
          rw [moved, if_neg (by dsimp only; omega)]
        have hposition : q + (c :: more).length + (k + 1 - (c :: more).length) = q + (k + 1) := by
          omega
        have hshort : after.length < n := by
          simp only [← hn, List.length_cons, List.length_append]
          omega
        rw [← List.cons_append, spaced_append _ _ _ hstop, List.cons_append,
          checkFrom_replace hb hl hother hpoint (replaces_spaced hblank _ after),
          ih after.length hshort hus (by rwa [hposition]) rfl, hposition, List.map_cons, hsame]
        rfl

/-- The tokens of a formula with blanks put into it outside of its tokens. -/
theorem check_spaced {formula : List Char} (h : check formula = .ok ts)
    (hblank : ∀ c ∈ blanks, Text.isBlank c = true) (outside : IsOutside p ts) :
    check (spaced blanks p formula) = .ok (ts.map (moved p blanks.length)) := by
  have h := checkFrom_spaced (q := 0) h hblank (k := p) (by rwa [Nat.zero_add])
  rwa [Nat.zero_add] at h

end Token
end Reckon
