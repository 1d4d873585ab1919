import Mathlib.Data.List.TakeWhile
import Reckon.Markup.Basic
import Reckon.Text.DecimalDigit

/-!
# Reading marked-up text back

Text with tags is read in one pass from left to right. A `<` has to open a tag
around digits, and the reference to a character stands for the character.
Whatever pieces are written with tags, this gives them back, with plain text cut
into its characters (`letters`): an escaped character is never taken for a tag,
and no tag for an escaped character.

Results:

* `read?_pieces`: what is read where pieces have been written.
* `count_pieces`: every `<` belongs to a tag.
-/

namespace Reckon

namespace Piece

/-- Raised and lowered text is a run of digits. -/
def IsDigits : Piece → Prop
  | plain _ => True
  | superscript digits | subscript digits =>
    digits ≠ [] ∧ ∀ d ∈ digits, Text.isAsciiDigit d = true

/-- Whether a piece is raised or lowered. -/
def isTagged : Piece → Bool
  | plain _ => false
  | superscript _ | subscript _ => true

/-- A piece with plain text cut into its characters. -/
def letters : Piece → List Piece
  | plain text => text.map fun c => plain [c]
  | superscript digits => [superscript digits]
  | subscript digits => [subscript digits]

end Piece

namespace Markup

/-! ## The reader -/

/-- The digits in a tag of the given name, of which the first `<` has been read, and the text after
the tag. -/
def tagged? (name cs : List Char) : Option (List Char × List Char) :=
  if name ++ ['>'] <+: cs then
    let inside := cs.drop (name ++ ['>']).length
    let digits := inside.takeWhile Text.isAsciiDigit
    let rest := inside.dropWhile Text.isAsciiDigit
    let closing := '<' :: '/' :: (name ++ ['>'])
    if digits ≠ [] ∧ closing <+: rest then some (digits, rest.drop closing.length) else none
  else none

/-- The references to characters, without their `&`. -/
def references : List (List Char × Char) :=
  [("amp;".toList, '&'), ("lt;".toList, '<'), ("gt;".toList, '>')]

/-- The piece that text begins with, and the text after it. -/
def leading? (c : Char) (cs : List Char) : Option (Piece × List Char) :=
  if c = '<' then
    match tagged? "sup".toList cs with
    | some (digits, rest) => some (.superscript digits, rest)
    | none => (tagged? "sub".toList cs).map fun (digits, rest) => (.subscript digits, rest)
  else if c = '&' then
    match references.find? (·.1 <+: cs) with
    | some (name, d) => some (.plain [d], cs.drop name.length)
    | none => some (.plain [c], cs)
  else some (.plain [c], cs)

theorem length_of_tagged? {name cs digits rest : List Char}
    (h : tagged? name cs = some (digits, rest)) : rest.length ≤ cs.length := by
  unfold tagged? at h
  dsimp only at h
  split_ifs at h
  cases h
  have hdrop := (List.dropWhile_suffix (l := cs.drop (name ++ ['>']).length)
    Text.isAsciiDigit).length_le
  rw [List.length_drop] at hdrop
  rw [List.length_drop]
  omega

theorem length_of_leading? {c : Char} {cs rest : List Char} {p : Piece}
    (h : leading? c cs = some (p, rest)) : rest.length ≤ cs.length := by
  unfold leading? at h
  split_ifs at h
  · split at h
    · rename_i htag
      cases h
      exact length_of_tagged? htag
    · obtain ⟨⟨digits, rest⟩, htag, heq⟩ := Option.map_eq_some_iff.1 h
      cases heq
      exact length_of_tagged? htag
  · split at h
    · cases h
      rw [List.length_drop]
      omega
    · cases h
      exact Nat.le_refl _
  · cases h
    exact Nat.le_refl _

/-- The pieces of marked-up text; nothing if there is a `<` that opens no tag around digits. -/
def read? : List Char → Option (List Piece)
  | [] => some []
  | c :: cs =>
    match _h : leading? c cs with
    | none => none
    | some (p, rest) => (read? rest).map (p :: ·)
termination_by cs => cs.length
decreasing_by
  have := length_of_leading? _h
  simp only [List.length_cons]
  omega

@[simp] theorem read?_nil : read? [] = some [] := by
  rw [read?]

theorem read?_cons {c : Char} {cs rest : List Char} {p : Piece}
    (h : leading? c cs = some (p, rest)) : read? (c :: cs) = (read? rest).map (p :: ·) := by
  rw [read?]
  split
  · rename_i hnone
    rw [h] at hnone
    cases hnone
  · rename_i q more hsome
    rw [h] at hsome
    cases hsome
    rfl

/-! ## What is written -/

theorem piece_plain (text : List Char) : html.piece (.plain text) = text.flatMap escapeChar := rfl

theorem piece_superscript (ds : List Char) :
    html.piece (.superscript ds) = "<sup>".toList ++ ds ++ "</sup>".toList := rfl

theorem piece_subscript (ds : List Char) :
    html.piece (.subscript ds) = "<sub>".toList ++ ds ++ "</sub>".toList := rfl

theorem ne_lt_of_isAsciiDigit {d : Char} (h : Text.isAsciiDigit d = true) : d ≠ '<' := by
  rintro rfl
  exact absurd h (by decide)

/-- Digits end where a tag closes. -/
theorem takeWhile_digits {ds : List Char} (h : ∀ d ∈ ds, Text.isAsciiDigit d = true)
    (cs : List Char) :
    (ds ++ '<' :: cs).takeWhile Text.isAsciiDigit = ds ∧
      (ds ++ '<' :: cs).dropWhile Text.isAsciiDigit = '<' :: cs := by
  rw [List.takeWhile_append_of_pos h, List.dropWhile_append_of_pos h]
  constructor
  · rw [List.takeWhile_cons_of_neg (by decide), List.append_nil]
  · exact List.dropWhile_cons_of_neg (by decide)

theorem tagged?_append (name : List Char) {ds : List Char} (hne : ds ≠ [])
    (h : ∀ d ∈ ds, Text.isAsciiDigit d = true) (rest : List Char) :
    tagged? name (name ++ ['>'] ++ (ds ++ ('<' :: '/' :: (name ++ ['>']) ++ rest))) =
      some (ds, rest) := by
  obtain ⟨htake, hdrop⟩ := takeWhile_digits h ('/' :: (name ++ ['>']) ++ rest)
  rw [tagged?, if_pos (List.prefix_append _ _), List.drop_left]
  simp only [List.cons_append] at htake hdrop ⊢
  rw [htake, hdrop, if_pos ⟨hne, List.prefix_append _ rest⟩]
  have hrest : ('<' :: '/' :: (name ++ ['>'] ++ rest)).drop
      ('<' :: '/' :: (name ++ ['>'])).length = rest :=
    List.drop_left
  rw [hrest]

theorem read?_superscript {ds : List Char} (hne : ds ≠ [])
    (h : ∀ d ∈ ds, Text.isAsciiDigit d = true) (rest : List Char) :
    read? (html.piece (.superscript ds) ++ rest) = (read? rest).map (.superscript ds :: ·) := by
  have htag := tagged?_append "sup".toList hne h rest
  have hpiece : html.piece (.superscript ds) ++ rest = '<' :: ("sup".toList ++ ['>'] ++
      (ds ++ ('<' :: '/' :: ("sup".toList ++ ['>']) ++ rest))) := by
    simp [piece_superscript]
  rw [hpiece]
  apply read?_cons
  rw [leading?, if_pos rfl, htag]

theorem read?_subscript {ds : List Char} (hne : ds ≠ [])
    (h : ∀ d ∈ ds, Text.isAsciiDigit d = true) (rest : List Char) :
    read? (html.piece (.subscript ds) ++ rest) = (read? rest).map (.subscript ds :: ·) := by
  have htag := tagged?_append "sub".toList hne h rest
  have hother : tagged? "sup".toList ("sub".toList ++ ['>'] ++
      (ds ++ ('<' :: '/' :: ("sub".toList ++ ['>']) ++ rest))) = none := by
    simp [tagged?]
  have hpiece : html.piece (.subscript ds) ++ rest = '<' :: ("sub".toList ++ ['>'] ++
      (ds ++ ('<' :: '/' :: ("sub".toList ++ ['>']) ++ rest))) := by
    simp [piece_subscript]
  rw [hpiece]
  apply read?_cons
  rw [leading?, if_pos rfl, hother, htag]
  rfl

theorem leading?_reference {name : List Char} {c : Char} {rest : List Char}
    (h : references.find? (·.1 <+: name ++ rest) = some (name, c)) :
    leading? '&' (name ++ rest) = some (.plain [c], rest) := by
  rw [leading?, if_neg (by decide), if_pos rfl, h]
  exact congrArg (fun after => some (Piece.plain [c], after)) List.drop_left

/-- An escaped character is read as the character. -/
theorem read?_escapeChar (c : Char) (rest : List Char) :
    read? (escapeChar c ++ rest) = (read? rest).map (.plain [c] :: ·) := by
  by_cases hamp : c = '&'
  · have hescape : escapeChar c = '&' :: "amp;".toList := by simp [escapeChar, hamp]
    rw [hescape, hamp]
    exact read?_cons (leading?_reference (by simp [references]))
  by_cases hlt : c = '<'
  · have hescape : escapeChar c = '&' :: "lt;".toList := by simp [escapeChar, hlt]
    rw [hescape, hlt]
    exact read?_cons (leading?_reference (by simp [references]))
  by_cases hgt : c = '>'
  · have hescape : escapeChar c = '&' :: "gt;".toList := by simp [escapeChar, hgt]
    rw [hescape, hgt]
    exact read?_cons (leading?_reference (by simp [references]))
  have hescape : escapeChar c = [c] := by
    rw [escapeChar, if_neg hamp, if_neg hlt, if_neg hgt]
  have hlead : leading? c rest = some (.plain [c], rest) := by
    rw [leading?, if_neg hlt, if_neg hamp]
  rw [hescape]
  exact read?_cons hlead

theorem read?_plain (text rest : List Char) :
    read? (html.piece (.plain text) ++ rest) =
      (read? rest).map ((Piece.plain text).letters ++ ·) := by
  rw [piece_plain, Piece.letters]
  induction text with
  | nil => simp
  | cons c text ih =>
    rw [List.flatMap_cons, List.append_assoc, read?_escapeChar, ih, Option.map_map]
    rfl

/-- What is read where pieces have been written. -/
theorem read?_pieces {ps : List Piece} (h : ∀ p ∈ ps, p.IsDigits) :
    read? (html.pieces ps) = some (ps.flatMap Piece.letters) := by
  induction ps with
  | nil => exact read?_nil
  | cons p ps ih =>
    have hps := ih fun q hq => h q (List.mem_cons_of_mem p hq)
    have hp := h p List.mem_cons_self
    rw [pieces] at hps
    rw [pieces, List.flatMap_cons, List.flatMap_cons]
    cases p with
    | plain text => rw [read?_plain, hps]; rfl
    | superscript ds => rw [read?_superscript hp.1 hp.2, hps]; rfl
    | subscript ds => rw [read?_subscript hp.1 hp.2, hps]; rfl

/-! ## Tags -/

theorem not_mem_escapeChar (c : Char) : '<' ∉ escapeChar c := by
  unfold escapeChar
  split_ifs with _ hlt
  · decide
  · decide
  · decide
  · simpa using Ne.symm hlt

theorem count_plain (text : List Char) : (html.piece (.plain text)).count '<' = 0 := by
  rw [List.count_eq_zero, piece_plain, List.mem_flatMap]
  rintro ⟨c, -, hc⟩
  exact not_mem_escapeChar c hc

theorem count_digits {ds : List Char} (h : ∀ d ∈ ds, Text.isAsciiDigit d = true) :
    ds.count '<' = 0 := by
  rw [List.count_eq_zero]
  intro hmem
  exact ne_lt_of_isAsciiDigit (h '<' hmem) rfl

/-- Every `<` belongs to a tag, of which there are two around each raised or lowered piece. -/
theorem count_pieces {ps : List Piece} (h : ∀ p ∈ ps, p.IsDigits) :
    (html.pieces ps).count '<' = 2 * ps.countP Piece.isTagged := by
  induction ps with
  | nil => rfl
  | cons p ps ih =>
    have hps := ih fun q hq => h q (List.mem_cons_of_mem p hq)
    have hp := h p List.mem_cons_self
    rw [pieces] at hps
    rw [pieces, List.flatMap_cons, List.count_append, hps, List.countP_cons]
    cases p with
    | plain text =>
      rw [count_plain]
      simp [Piece.isTagged]
    | superscript ds | subscript ds =>
      have hds := count_digits hp.2
      simp [piece_superscript, piece_subscript, List.count_append, hds, Piece.isTagged]
      omega

end Markup
end Reckon
