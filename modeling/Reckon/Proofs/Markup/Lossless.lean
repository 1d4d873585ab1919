import Reckon.Markup.Formula
import Reckon.Proofs.Markup.Reader
import Reckon.Proofs.Token.Place

/-!
# Rendering loses nothing

A raised exponent stands for a caret and its digits, and a lowered index for an
underscore and its digits. With these put back, the pieces of a formula are the
formula, whatever its text is; and tags are only ever put around digits. So the
formula can be read back from the text with tags, and so can the same formula
in the other markup.

Results:

* `typed_ofFormula`: the pieces of a formula as they were typed.
* `isDigits_ofFormula`: what is raised and lowered is digits.
* `read?_formula`: a rendered formula read back.
-/

namespace Reckon
namespace Piece

/-- A piece as it was typed. -/
def typed : Piece → List Char
  | plain text => text
  | superscript digits => '^' :: digits
  | subscript digits => '_' :: digits

/-! ## Names -/

/-- The pieces of a name as they were typed are the name. -/
theorem typed_ofName (name : List Char) : (ofName name).flatMap typed = name := by
  fun_induction ofName name with
  | case1 => rfl
  | case2 c => rfl
  | case3 c d => rfl
  | case4 c u d rest h ih =>
    simp only [Bool.and_eq_true, beq_iff_eq] at h
    obtain ⟨⟨-, rfl⟩, -⟩ := h
    rw [List.flatMap_cons, List.flatMap_cons, ih]
    simp [typed]
  | case5 c u d rest h ih =>
    rw [List.flatMap_cons, ih]
    rfl

/-- Only digits of a name are lowered. -/
theorem isDigits_of_mem_ofName {name : List Char} {p : Piece} (hp : p ∈ ofName name) :
    p.IsDigits := by
  fun_induction ofName name with
  | case1 => exact absurd hp List.not_mem_nil
  | case2 c =>
    obtain rfl := List.mem_singleton.1 hp
    trivial
  | case3 c d =>
    simp only [List.mem_cons, List.not_mem_nil, or_false] at hp
    rcases hp with rfl | rfl <;> trivial
  | case4 c u d rest h ih =>
    simp only [Bool.and_eq_true, beq_iff_eq] at h
    rcases List.mem_cons.1 hp with rfl | hp
    · trivial
    rcases List.mem_cons.1 hp with rfl | hp
    · refine ⟨List.cons_ne_nil _ _, List.forall_mem_cons.2 ⟨h.2, fun e he => ?_⟩⟩
      exact List.mem_takeWhile_imp he
    · exact ih hp
  | case5 c u d rest h ih =>
    rcases List.mem_cons.1 hp with rfl | hp
    · trivial
    · exact ih hp

/-! ## Tokens -/

theorem typed_ofToken (t : Token) : (ofToken t).flatMap typed = t.text := by
  unfold ofToken
  split_ifs
  · exact typed_ofName t.text
  · exact List.append_nil t.text

theorem isDigits_of_mem_ofToken {t : Token} {p : Piece} (hp : p ∈ ofToken t) : p.IsDigits := by
  unfold ofToken at hp
  split_ifs at hp
  · exact isDigits_of_mem_ofName hp
  · obtain rfl := List.mem_singleton.1 hp
    trivial

@[simp] theorem position_after (context : Context) (t : Token) :
    (context.after t).position = t.stop := by
  unfold Context.after
  split <;> rfl

/-- What is needed for a caret and its exponent. -/
theorem isRaised_iff {context : Context} {c e : Token} :
    isRaised context c e = true ↔
      c.kind = .caret ∧ context.anchor = some c.start ∧ e.kind = .number ∧
        (∀ d ∈ e.text, d ≠ '.') ∧ c.touches e = true := by
  simp [isRaised, and_assoc]

/-- An exponent that is raised is digits. -/
theorem digits_of_isRaised {context : Context} {c e : Token} (h : isRaised context c e = true)
    (hlex : e.Lexical) : e.text ≠ [] ∧ ∀ d ∈ e.text, Text.isAsciiDigit d = true := by
  obtain ⟨-, -, hkind, hdot, -⟩ := isRaised_iff.1 h
  exact ⟨hlex.ne_nil, fun d hd => (hlex.digits hkind d hd).resolve_right (hdot d hd)⟩

/-! ## Formulas -/

/-- The pieces of a text as they were typed are the text. -/
theorem typed_ofTokens {context : Context} {text : List Char} {ts : List Token}
    (h : Token.StandIn context.position text ts) :
    (ofTokens context text ts).flatMap typed = text := by
  fun_induction ofTokens context text ts with
  | case1 context text => exact List.append_nil text
  | case2 context text t gap rest =>
    obtain ⟨htext, -⟩ := h.cut
    calc (gap :: ofToken t ++ [plain rest]).flatMap typed
        = text.take (t.start - context.position) ++ (t.text ++ rest) := by
          simp [List.flatMap_append, typed_ofToken, typed, gap]
      _ = text := htext.symm
  | case3 context text t gap rest e es hraised ih =>
    obtain ⟨htext, hrest⟩ := h.cut
    obtain ⟨hmore, hafter⟩ := hrest.cut
    obtain ⟨hcaret, -, -, -, htouch⟩ := isRaised_iff.1 hraised
    have hstart : e.start = t.stop := by simpa [Token.touches] using htouch
    have hgap : rest = e.text ++ rest.drop (e.stop - t.stop) := by
      rwa [hstart, Nat.sub_self, List.take_zero, List.nil_append] at hmore
    have ht : t.text = ['^'] := h.text_of_caret List.mem_cons_self hcaret
    calc (gap :: superscript e.text :: ofTokens ⟨e.stop, context.openGroups, none⟩
          (rest.drop (e.stop - t.stop)) es).flatMap typed
        = text.take (t.start - context.position) ++
            ('^' :: e.text ++ rest.drop (e.stop - t.stop)) := by
          rw [List.flatMap_cons, List.flatMap_cons, ih hafter]
          rfl
      _ = text.take (t.start - context.position) ++ (t.text ++ rest) := by
          rw [ht, List.cons_append, ← hgap]
          rfl
      _ = text := htext.symm
  | case4 context text t gap rest e es hraised ih =>
    obtain ⟨htext, hrest⟩ := h.cut
    have hnext : Token.StandIn (context.after t).position rest (e :: es) := by
      rwa [position_after]
    calc (gap :: ofToken t ++ ofTokens (context.after t) rest (e :: es)).flatMap typed
        = text.take (t.start - context.position) ++ (t.text ++ rest) := by
          rw [List.flatMap_append, List.flatMap_cons, typed_ofToken, ih hnext, List.append_assoc]
          rfl
      _ = text := htext.symm

/-- The pieces of a formula as they were typed are the formula. -/
theorem typed_ofFormula (formula : List Char) : (ofFormula formula).flatMap typed = formula :=
  typed_ofTokens (Token.standIn_scan formula)

theorem isDigits_of_mem_ofTokens {context : Context} {text : List Char} {ts : List Token}
    (hlex : ∀ t ∈ ts, t.Lexical) {p : Piece} (hp : p ∈ ofTokens context text ts) :
    p.IsDigits := by
  fun_induction ofTokens context text ts with
  | case1 context text =>
    obtain rfl := List.mem_singleton.1 hp
    trivial
  | case2 context text t gap rest =>
    rcases List.mem_append.1 hp with hp | hp
    · rcases List.mem_cons.1 hp with rfl | hp
      · trivial
      · exact isDigits_of_mem_ofToken hp
    · obtain rfl := List.mem_singleton.1 hp
      trivial
  | case3 context text t gap rest e es hraised ih =>
    rcases List.mem_cons.1 hp with rfl | hp
    · trivial
    rcases List.mem_cons.1 hp with rfl | hp
    · exact digits_of_isRaised hraised (hlex e (by simp))
    · exact ih (fun u hu => hlex u (by simp [hu])) hp
  | case4 context text t gap rest e es hraised ih =>
    rcases List.mem_append.1 hp with hp | hp
    · rcases List.mem_cons.1 hp with rfl | hp
      · trivial
      · exact isDigits_of_mem_ofToken hp
    · exact ih (fun u hu => hlex u (List.mem_cons_of_mem t hu)) hp

/-- What is raised and lowered in a formula is digits. -/
theorem isDigits_ofFormula (formula : List Char) : ∀ p ∈ ofFormula formula, p.IsDigits :=
  fun _ => isDigits_of_mem_ofTokens fun _ => Token.lexical_of_mem_scan

/-! ## Plain text in characters -/

theorem flatMap_letters {α : Type} (f : Piece → List α) (hf : ∀ text, f (plain text) =
    text.flatMap fun c => f (plain [c])) (ps : List Piece) :
    (ps.flatMap letters).flatMap f = ps.flatMap f := by
  rw [List.flatMap_assoc]
  congr 1
  funext p
  cases p with
  | plain text => rw [hf text, letters, List.flatMap_map]
  | superscript digits | subscript digits => simp [letters]

end Piece

namespace Markup

open Piece (letters)

theorem countP_letters (ps : List Piece) :
    (ps.flatMap letters).countP Piece.isTagged = ps.countP Piece.isTagged := by
  induction ps with
  | nil => rfl
  | cons p ps ih =>
    rw [List.flatMap_cons, List.countP_append, ih, List.countP_cons, Nat.add_comm]
    cases p with
    | plain text =>
      have hzero : (text.map fun c => Piece.plain [c]).countP Piece.isTagged = 0 := by
        simp [List.countP_eq_zero, Piece.isTagged]
      rw [letters, hzero]
      rfl
    | superscript digits | subscript digits => rfl

theorem isDigits_letters {ps : List Piece} (h : ∀ p ∈ ps, p.IsDigits) :
    ∀ p ∈ ps.flatMap letters, p.IsDigits := by
  intro p hp
  obtain ⟨q, hq, hp⟩ := List.mem_flatMap.1 hp
  cases q with
  | plain text =>
    obtain ⟨c, -, rfl⟩ := List.mem_map.1 hp
    trivial
  | superscript digits | subscript digits =>
    obtain rfl := List.mem_singleton.1 hp
    exact h _ hq

/-- A rendered formula is read back as pieces that were typed as the formula and that are the
formula in the other markup. Only digits are raised or lowered, and every `<` belongs to one of
the tags around them. -/
theorem read?_formula (formula : List Char) :
    ∃ ps, read? (html.formula formula) = some ps ∧
      (∀ p ∈ ps, p.IsDigits) ∧
      (html.formula formula).count '<' = 2 * ps.countP Piece.isTagged ∧
      ps.flatMap Piece.typed = formula ∧
      unicode.pieces ps = unicode.formula formula := by
  have hdigits := Piece.isDigits_ofFormula formula
  refine ⟨(Piece.ofFormula formula).flatMap letters, read?_pieces hdigits,
    isDigits_letters hdigits, ?_, ?_, ?_⟩
  · rw [countP_letters]
    exact count_pieces hdigits
  · rw [Piece.flatMap_letters _ fun text => (List.flatMap_singleton' text).symm]
    exact Piece.typed_ofFormula formula
  · exact Piece.flatMap_letters _ (fun text => (List.flatMap_singleton' text).symm) _

end Markup
end Reckon
