import Mathlib.Data.List.Basic
import Reckon.Proofs.Markup.Lossless
import Reckon.Proofs.Text.Run

/-!
# Lowered indices

An index of a name is an underscore with the digits after it. Names are rendered
from left to right: the first index that does not stand at the beginning is
lowered, and what comes after it is rendered as a name of its own. So an index
is lowered unless it stands at the beginning or directly after a lowered one,
wherever in the name it is. That the index at the end is lowered, and no other,
is true of the names that have no other index and none after an underscore.

Results:

* `ofName_cases`: the first lowered index of a name.
* `lowers_iff`: which indices are lowered.
* `lowersTrailing_iff`: the names of which only the index at the end is lowered.
-/

namespace Reckon
namespace Piece

open Token (isWordChar)
open Text (isAsciiDigit Stops)

/-- The name has an index between the text before it and the text after it: an underscore and all
the digits that follow it. -/
structure IsIndex (name before digits after : List Char) : Prop where
  split : name = before ++ '_' :: (digits ++ after)
  ne_nil : digits ≠ []
  isDigit : ∀ d ∈ digits, isAsciiDigit d = true
  stops : Stops isAsciiDigit after

/-- The index is the first one of the name that does not stand at its beginning. -/
structure IsFirst (name stem digits rest : List Char) : Prop where
  isIndex : IsIndex name stem digits rest
  ne_nil : stem ≠ []
  le : ∀ before more after, IsIndex name before more after → before ≠ [] →
    stem.length ≤ before.length

/-- The name is rendered with the digits lowered of an index that has the given text before it. -/
def Lowers (name before digits : List Char) : Prop :=
  ∃ ps qs, ofName name = ps ++ subscript digits :: qs ∧ ps.flatMap typed = before

variable {name before digits after stem rest more tail : List Char} {ps : List Piece} {c : Char}

/-! ## Indices of a name -/

theorem isIndex_cons :
    IsIndex (c :: name) (c :: before) digits after ↔ IsIndex name before digits after :=
  ⟨fun h => ⟨(List.cons.inj h.split).2, h.ne_nil, h.isDigit, h.stops⟩,
    fun h => ⟨congrArg (c :: ·) h.split, h.ne_nil, h.isDigit, h.stops⟩⟩

/-- With an index inside of it a name has three characters or more. -/
theorem IsIndex.three_le_length (h : IsIndex name before digits after) (hbefore : before ≠ []) :
    3 ≤ name.length := by
  have hb := List.length_pos_iff.2 hbefore
  have hd := List.length_pos_iff.2 h.ne_nil
  rw [h.split, List.length_append, List.length_cons, List.length_append]
  omega

/-- Of two indices the one is the other or belongs to the text after it. -/
theorem IsIndex.eq_or_after (h : IsIndex name stem digits rest)
    (h' : IsIndex name before more after) (hle : stem.length ≤ before.length) :
    (before = stem ∧ more = digits ∧ after = rest) ∨
      ∃ inner, before = stem ++ '_' :: (digits ++ inner) ∧ IsIndex rest inner more after := by
  obtain ⟨w, rfl⟩ : stem <+: before :=
    List.prefix_of_prefix_length_le ⟨_, h.split.symm⟩ ⟨_, h'.split.symm⟩ hle
  have heq := h.split.symm.trans h'.split
  rw [List.append_assoc, List.append_cancel_left_eq] at heq
  cases w with
  | nil =>
    have hruns := (List.cons.inj heq).2
    have hd := congrArg (List.takeWhile isAsciiDigit) hruns
    have hr := congrArg (List.dropWhile isAsciiDigit) hruns
    rw [Text.takeWhile_run h.isDigit h.stops, Text.takeWhile_run h'.isDigit h'.stops] at hd
    rw [Text.dropWhile_run h.isDigit h.stops, Text.dropWhile_run h'.isDigit h'.stops] at hr
    exact .inl ⟨List.append_nil stem, hd.symm, hr.symm⟩
  | cons u w =>
    obtain ⟨rfl, htail⟩ := List.cons.inj heq
    rcases List.append_eq_append_iff.1 htail with ⟨inner, rfl, hrest⟩ | ⟨v, rfl, hv⟩
    · exact .inr ⟨inner, rfl, hrest, h'.ne_nil, h'.isDigit, h'.stops⟩
    cases v with
    | nil => exact .inr ⟨[], by simp, hv.symm, h'.ne_nil, h'.isDigit, h'.stops⟩
    | cons d v =>
      -- the underscore of the later index is no digit of the earlier one
      obtain ⟨rfl, -⟩ := List.cons.inj hv
      exact absurd (h.isDigit '_' (by simp)) (by decide)

/-- No index inside of the name comes before the first one. -/
theorem IsFirst.eq_or_after (h : IsFirst name stem digits rest)
    (h' : IsIndex name before more after) (hbefore : before ≠ []) :
    (before = stem ∧ more = digits ∧ after = rest) ∨
      ∃ inner, before = stem ++ '_' :: (digits ++ inner) ∧ IsIndex rest inner more after :=
  h.isIndex.eq_or_after h' (h.le before more after h' hbefore)

/-- If the first index inside of a name is at the end, there is no other one. -/
theorem IsFirst.eq (h : IsFirst name stem digits []) (h' : IsIndex name before more after)
    (hbefore : before ≠ []) : before = stem ∧ more = digits ∧ after = [] := by
  rcases h.eq_or_after h' hbefore with heq | ⟨inner, -, hinner⟩
  · exact heq
  · simpa using hinner.split

/-- An index of the text after an index is an index of the name. -/
theorem IsIndex.of_after (h : IsIndex name stem digits rest) (h' : IsIndex rest before more after) :
    IsIndex name (stem ++ '_' :: (digits ++ before)) more after := by
  refine ⟨?_, h'.ne_nil, h'.isDigit, h'.stops⟩
  rw [h.split, h'.split]
  simp

/-- If no index stands directly after the first character, the indices inside of a name are those
inside of the rest. -/
theorem IsIndex.exists_inner {u d : Char} (h : IsIndex (c :: u :: d :: rest) before digits after)
    (hplain : ¬(u = '_' ∧ isAsciiDigit d = true)) (hbefore : before ≠ []) :
    ∃ inner, before = c :: inner ∧ inner ≠ [] ∧ IsIndex (u :: d :: rest) inner digits after := by
  obtain ⟨e, inner, rfl⟩ := List.exists_cons_of_ne_nil hbefore
  obtain rfl : c = e := (List.cons.inj h.split).1
  have hinner := isIndex_cons.1 h
  refine ⟨inner, rfl, ?_, hinner⟩
  rintro rfl
  obtain ⟨e, ds, rfl⟩ := List.exists_cons_of_ne_nil hinner.ne_nil
  obtain ⟨rfl, htail⟩ := List.cons.inj hinner.split
  obtain rfl : d = e := (List.cons.inj htail).1
  exact hplain ⟨rfl, hinner.isDigit d List.mem_cons_self⟩

/-! ## The first lowered index -/

/-- A name is rendered as it is if it has no index but at its beginning. Otherwise the first of the
other indices is lowered, and what comes after it is rendered as a name. -/
theorem ofName_cases (hword : ∀ c ∈ name, isWordChar c = true) :
    (ofName name = (plain name).letters ∧
      ∀ before digits after, IsIndex name before digits after → before = []) ∨
    ∃ stem digits rest, IsFirst name stem digits rest ∧
      ofName name = (plain stem).letters ++ subscript digits :: ofName rest := by
  -- a name of two characters or less has no index inside
  have hshort : ∀ {name : List Char}, name.length ≤ 2 →
      ∀ before digits after, IsIndex name before digits after → before = [] := by
    intro name hlength before digits after h
    by_contra hbefore
    have := h.three_le_length hbefore
    omega
  fun_induction ofName name with
  | case1 => exact .inl ⟨rfl, hshort (by decide)⟩
  | case2 c => exact .inl ⟨rfl, hshort (by simp)⟩
  | case3 c d => exact .inl ⟨rfl, hshort (by simp)⟩
  | case4 c u d rest h =>
    simp only [Bool.and_eq_true, beq_iff_eq] at h
    obtain ⟨⟨-, rfl⟩, hd⟩ := h
    have hindex : IsIndex (c :: '_' :: d :: rest) [c] (d :: rest.takeWhile isAsciiDigit)
        (rest.dropWhile isAsciiDigit) := by
      refine ⟨by simp, List.cons_ne_nil _ _, ?_, Text.stops_dropWhile _ _⟩
      exact List.forall_mem_cons.2 ⟨hd, fun e he => List.mem_takeWhile_imp he⟩
    exact .inr ⟨_, _, _, ⟨hindex, List.cons_ne_nil _ _,
      fun before more after _ hbefore => List.length_pos_iff.2 hbefore⟩, rfl⟩
  | case5 c u d rest h ih =>
    obtain ⟨hc, hrest⟩ := List.forall_mem_cons.1 hword
    have hplain : ¬(u = '_' ∧ isAsciiDigit d = true) := by
      rintro ⟨rfl, hd⟩
      exact h (by simp [hc, hd])
    rcases ih hrest with ⟨heq, hnone⟩ | ⟨stem, digits, after, hfirst, heq⟩
    · refine .inl ⟨congrArg (plain [c] :: ·) heq, fun before digits after hindex => ?_⟩
      by_contra hbefore
      obtain ⟨inner, -, hne, hinner⟩ := hindex.exists_inner hplain hbefore
      exact hne (hnone inner digits after hinner)
    · refine .inr ⟨c :: stem, digits, after, ⟨isIndex_cons.2 hfirst.isIndex, List.cons_ne_nil _ _,
        fun before more after hindex hbefore => ?_⟩, congrArg (plain [c] :: ·) heq⟩
      obtain ⟨inner, rfl, hne, hinner⟩ := hindex.exists_inner hplain hbefore
      exact Nat.succ_le_succ (hfirst.le inner more after hinner hne)

/-! ## Which indices are lowered -/

theorem typed_letters (text : List Char) : (plain text).letters.flatMap typed = text := by
  rw [letters, List.flatMap_map]
  exact List.flatMap_singleton' text

/-- An index at the beginning of a name is not lowered. -/
theorem not_lowers_nil (name digits : List Char) : ¬Lowers name [] digits := by
  rintro ⟨ps, qs, heq, hps⟩
  -- the first piece is the first character
  have hhead : ∀ p ∈ (ofName name).head?, ∃ c, p = plain [c] := by
    fun_cases ofName name <;> simp
  cases ps with
  | nil =>
    obtain ⟨c, hc⟩ := hhead (subscript digits) (by simp [heq])
    cases hc
  | cons p ps =>
    obtain ⟨c, rfl⟩ := hhead p (by simp [heq])
    cases hps

/-- What is lowered after the first pieces of a name is what is lowered in the name that is left. -/
theorem lowers_append (h : ofName name = ps ++ ofName tail) :
    Lowers name (ps.flatMap typed ++ before) digits ↔ Lowers tail before digits := by
  constructor
  · rintro ⟨us, vs, heq, hus⟩
    rcases List.append_eq_append_iff.1 (h.symm.trans heq) with ⟨ws, rfl, htail⟩ | ⟨ws, rfl, hvs⟩
    · rw [List.flatMap_append, List.append_cancel_left_eq] at hus
      exact ⟨ws, vs, htail, hus⟩
    cases ws with
    | nil =>
      rw [List.append_nil, List.self_eq_append_right] at hus
      exact ⟨[], vs, hvs.symm, hus.symm⟩
    | cons w ws =>
      -- the lowered digits would be typed before the text that is before them
      obtain ⟨rfl, -⟩ := List.cons.inj hvs
      have hlength := congrArg List.length hus
      simp [typed] at hlength
  · rintro ⟨us, vs, heq, rfl⟩
    exact ⟨ps ++ us, vs, by rw [h, heq, List.append_assoc], List.flatMap_append⟩

/-- The same of what comes after the first lowered index. -/
theorem lowers_after (h : ofName name = (plain stem).letters ++ subscript digits :: ofName rest) :
    Lowers name (stem ++ '_' :: (digits ++ before)) more ↔ Lowers rest before more := by
  have htyped : ((plain stem).letters ++ [subscript digits]).flatMap typed =
      stem ++ '_' :: digits := by
    rw [List.flatMap_append, typed_letters, List.flatMap_singleton]
    rfl
  rw [List.append_cons] at h
  rw [← lowers_append h, htyped, List.append_assoc, List.cons_append]

/-- An index is lowered unless it stands at the beginning of the name or directly after a lowered
index. -/
theorem lowers_iff (hword : ∀ c ∈ name, isWordChar c = true)
    (h : IsIndex name before digits after) :
    Lowers name before digits ↔ before ≠ [] ∧ ∀ init more tail, IsIndex name init more tail →
      before = init ++ '_' :: more → ¬Lowers name init more := by
  induction hn : name.length using Nat.strongRecOn generalizing name before with
  | ind n ih =>
  rcases ofName_cases hword with ⟨-, hnone⟩ | ⟨stem, ds, rest, hfirst, heq⟩
  · obtain rfl := hnone before digits after h
    simp [not_lowers_nil]
  by_cases hbefore : before = []
  · simp [hbefore, not_lowers_nil]
  have hlowered : Lowers name stem ds := ⟨_, _, heq, typed_letters stem⟩
  rcases hfirst.eq_or_after h hbefore with ⟨rfl, rfl, -⟩ | ⟨inner, rfl, hinner⟩
  · -- an index before the first lowered one stands at the beginning
    refine iff_of_true hlowered ⟨hbefore, fun init more tail hinit hsplit => ?_⟩
    obtain rfl : init = [] := by
      by_contra hne
      have hle := hfirst.le init more tail hinit hne
      rw [hsplit, List.length_append, List.length_cons] at hle
      omega
    exact not_lowers_nil name more
  -- the other indices are those of the text after it
  have hrest : Lowers rest inner digits ↔ inner ≠ [] ∧ ∀ init more tail,
      IsIndex rest init more tail → inner = init ++ '_' :: more → ¬Lowers rest init more := by
    have hlength : rest.length < n := by
      rw [← hn, hfirst.isIndex.split, List.length_append, List.length_cons, List.length_append]
      omega
    have hwordrest : ∀ c ∈ rest, isWordChar c = true := fun c hc =>
      hword c (by simp [hfirst.isIndex.split, hc])
    exact ih rest.length hlength hwordrest hinner rfl
  rw [lowers_after heq, hrest]
  constructor
  · rintro ⟨hne, hnot⟩
    refine ⟨hbefore, fun init more tail hinit hsplit => ?_⟩
    by_cases hnil : init = []
    · rw [hnil]
      exact not_lowers_nil name more
    rcases hfirst.eq_or_after hinit hnil with ⟨rfl, rfl, -⟩ | ⟨i, rfl, hi⟩
    · simp [hne] at hsplit
    · rw [lowers_after heq]
      exact hnot i more tail hi (by simpa using hsplit)
  · rintro ⟨-, hnot⟩
    refine ⟨?_, fun init more tail hinit hsplit => ?_⟩
    · rintro rfl
      exact hnot stem ds rest hfirst.isIndex (by simp) hlowered
    · rw [← lowers_after heq]
      exact hnot _ more tail (hfirst.isIndex.of_after hinit) (by simp [hsplit])

/-- The name ends in an index, which follows a letter or a digit. -/
structure IsTrailing (name stem digits : List Char) : Prop where
  isIndex : IsIndex name stem digits []
  follows : ∃ c ∈ stem.getLast?, isWordChar c = true ∧ c ≠ '_'

theorem IsTrailing.ne_nil (h : IsTrailing name stem digits) : stem ≠ [] := by
  rintro rfl
  obtain ⟨c, hc, -⟩ := h.follows
  cases hc

end Piece

namespace Markup

open Piece
open Token (isWordChar)
open Text (isAsciiDigit Stops)

variable {name stem digits rest : List Char}

/-! ## Rendered names -/

/-- Of a name the index at its end is lowered if it follows a letter or a digit, and nothing else
is. -/
def LowersTrailing (m : Markup) (name : List Char) : Prop :=
  (∀ stem digits, IsTrailing name stem digits →
    m.name name = stem ++ m.piece (.subscript digits)) ∧
  ((∀ stem digits, ¬IsTrailing name stem digits) → m.name name = name)

theorem escapeChar_of_isWordChar {c : Char} (h : isWordChar c = true) : escapeChar c = [c] := by
  have hne : ∀ d, isWordChar d = false → c ≠ d := by
    rintro d hd rfl
    exact Bool.false_ne_true (hd.symm.trans h)
  rw [escapeChar, if_neg (hne '&' rfl), if_neg (hne '<' rfl), if_neg (hne '>' rfl)]

/-- A word is written as it is. -/
theorem pieces_letters (m : Markup) (hword : ∀ c ∈ name, isWordChar c = true) :
    m.pieces (plain name).letters = name := by
  have hplain : ∀ c ∈ name, m.piece (plain [c]) = [c] := by
    intro c hc
    cases m with
    | html => exact (List.flatMap_singleton _ c).trans (escapeChar_of_isWordChar (hword c hc))
    | unicode => rfl
  calc m.pieces (plain name).letters
      = name.flatMap fun c => m.piece (plain [c]) := List.flatMap_map ..
    _ = name.flatMap fun c => [c] := List.flatMap_congr hplain
    _ = name := List.flatMap_singleton' name

/-- A name as it is rendered up to its first lowered index. -/
theorem name_eq (m : Markup) (hword : ∀ c ∈ name, isWordChar c = true)
    (hfirst : IsFirst name stem digits rest)
    (h : ofName name = (plain stem).letters ++ subscript digits :: ofName rest) :
    m.name name = stem ++ (m.piece (.subscript digits) ++ m.name rest) := by
  calc m.name name
      = m.pieces (plain stem).letters ++ m.pieces (subscript digits :: ofName rest) := by
        rw [Markup.name, h, pieces, List.flatMap_append]
        rfl
    _ = stem ++ (m.piece (.subscript digits) ++ m.name rest) := by
        rw [pieces_letters m fun c hc => hword c (by simp [hfirst.isIndex.split, hc])]
        rfl

/-- What a lowered digit is written as is no part of a word. -/
theorem stops_subscript (m : Markup) (hne : digits ≠ []) (hdigits : ∀ d ∈ digits,
    isAsciiDigit d = true) (rest : List Char) :
    Stops isWordChar (m.piece (.subscript digits) ++ rest) := by
  obtain ⟨d, ds, rfl⟩ := List.exists_cons_of_ne_nil hne
  cases m with
  | html => exact Text.stops_cons.2 rfl
  | unicode =>
    have hlowered : ∀ d ∈ "0123456789".toList, (!isWordChar (loweredDigit d)) = true :=
      List.all_eq_true.1 rfl
    have hmem := Text.mem_of_isAsciiDigit (hdigits d List.mem_cons_self)
    exact Text.stops_cons.2 (by simpa using hlowered d hmem)

/-- The index of which the digits are lowered is the one that comes after the word that the rendered
name begins with. -/
theorem takeWhile_name (m : Markup) (hword : ∀ c ∈ name, isWordChar c = true)
    (h : IsIndex name stem digits rest) (tail : List Char) :
    (stem ++ (m.piece (.subscript digits) ++ tail)).takeWhile isWordChar = stem :=
  Text.takeWhile_run (fun c hc => hword c (by simp [h.split, hc]))
    (stops_subscript m h.ne_nil h.isDigit tail)

/-- If nothing but the index at the end of a name is lowered, the first lowered index is the one at
the end. -/
theorem LowersTrailing.isTrailing {m : Markup} (h : LowersTrailing m name)
    (hword : ∀ c ∈ name, isWordChar c = true) (hfirst : IsFirst name stem digits rest)
    (heq : ofName name = (plain stem).letters ++ subscript digits :: ofName rest) :
    IsTrailing name stem digits ∧ rest = [] := by
  have hstart : (m.name name).takeWhile isWordChar = stem := by
    rw [name_eq m hword hfirst heq, takeWhile_name m hword hfirst.isIndex]
  by_cases htrailing : ∃ init more, IsTrailing name init more
  · obtain ⟨init, more, hinit⟩ := htrailing
    have hend : (m.name name).takeWhile isWordChar = init := by
      have hbegins := takeWhile_name m hword hinit.isIndex []
      rwa [List.append_nil, ← h.1 init more hinit] at hbegins
    rcases hfirst.eq_or_after hinit.isIndex hinit.ne_nil with
      ⟨rfl, rfl, hrest⟩ | ⟨inner, hlater, -⟩
    · exact ⟨hinit, hrest.symm⟩
    · rw [← hend, hstart, List.self_eq_append_right] at hlater
      cases hlater
  · -- a name that is unchanged is the word it begins with
    rw [h.2 fun init more hinit => htrailing ⟨init, more, hinit⟩,
      List.takeWhile_eq_self_iff.2 hword, hfirst.isIndex.split, List.append_right_eq_self] at hstart
    cases hstart

/-- Of a word the digits of the index at the end are lowered, and nothing else is, exactly if every
index but one at the beginning is at the end and does not follow an underscore. In any word the
indices that are lowered are those neither at the beginning nor directly after a lowered one. -/
theorem lowersTrailing_iff (m : Markup) (hword : ∀ c ∈ name, isWordChar c = true) :
    (LowersTrailing m name ↔ ∀ before digits after, IsIndex name before digits after →
      before ≠ [] → after = [] ∧ before.getLast? ≠ some '_') ∧
    ∀ before digits after, IsIndex name before digits after → (Lowers name before digits ↔
      before ≠ [] ∧ ∀ init more tail, IsIndex name init more tail →
        before = init ++ '_' :: more → ¬Lowers name init more) := by
  refine ⟨?_, fun before digits after => lowers_iff hword⟩
  rcases ofName_cases hword with ⟨heq, hnone⟩ | ⟨stem, digits, rest, hfirst, heq⟩
  · refine iff_of_true ⟨fun stem digits h => ?_, fun _ => ?_⟩ ?_
    · exact absurd (hnone stem digits [] h.isIndex) h.ne_nil
    · rw [Markup.name, heq, pieces_letters m hword]
    · intro before digits after h hbefore
      exact absurd (hnone before digits after h) hbefore
  constructor
  · intro lowers before more after h hbefore
    obtain ⟨htrailing, rfl⟩ := lowers.isTrailing hword hfirst heq
    obtain ⟨rfl, -, rfl⟩ := hfirst.eq h hbefore
    obtain ⟨c, hc, -, hne⟩ := htrailing.follows
    refine ⟨rfl, fun hlast => hne ?_⟩
    exact Option.some.inj (hc.symm.trans hlast)
  · intro only
    obtain ⟨rfl, hlast⟩ := only stem digits rest hfirst.isIndex hfirst.ne_nil
    have htrailing : IsTrailing name stem digits := by
      refine ⟨hfirst.isIndex, _, List.getLast?_eq_some_getLast hfirst.ne_nil, ?_, ?_⟩
      · have hmem := List.getLast_mem hfirst.ne_nil
        exact hword _ (by simp [hfirst.isIndex.split, hmem])
      · intro hunder
        rw [List.getLast?_eq_some_getLast hfirst.ne_nil] at hlast
        exact hlast (congrArg some hunder)
    refine ⟨fun init more hinit => ?_, fun hnone => absurd htrailing (hnone stem digits)⟩
    obtain ⟨rfl, rfl, -⟩ := hfirst.eq hinit.isIndex hinit.ne_nil
    calc m.name name
        = init ++ (m.piece (.subscript more) ++ m.name []) := name_eq m hword hfirst heq
      _ = init ++ m.piece (.subscript more) := by simp [Markup.name, ofName, pieces]

/-- The only index of `x_12` is lowered, which is the one at the end. -/
theorem lowersTrailing_iff_single :
    (∀ c ∈ "x_12".toList, isWordChar c = true) ∧ LowersTrailing unicode "x_12".toList := by
  have hword : ∀ c ∈ "x_12".toList, isWordChar c = true := List.all_eq_true.1 rfl
  have hfirst : IsFirst "x_12".toList ['x'] ['1', '2'] [] :=
    ⟨⟨rfl, List.cons_ne_nil _ _, List.all_eq_true.1 rfl, Text.stops_nil⟩, List.cons_ne_nil _ _,
      fun _ _ _ _ hbefore => List.length_pos_iff.2 hbefore⟩
  refine ⟨hword, (lowersTrailing_iff unicode hword).1.2 fun before digits after h hbefore => ?_⟩
  obtain ⟨rfl, -, rfl⟩ := hfirst.eq h hbefore
  exact ⟨rfl, by decide⟩

/-- Of two indices in a row the first one is lowered, and the one at the end is not. -/
theorem not_lowersTrailing_two :
    Token.scan "a_1_2".toList = [⟨.identifier, "a_1_2".toList, 0⟩] ∧
      html.name "a_1_2".toList = "a<sub>1</sub>_2".toList ∧
      ¬LowersTrailing html "a_1_2".toList := by
  have hname : html.name "a_1_2".toList = "a<sub>1</sub>_2".toList := by decide +kernel
  refine ⟨by decide +kernel, hname, fun h => ?_⟩
  have htrailing : IsTrailing "a_1_2".toList "a_1".toList ['2'] :=
    ⟨⟨rfl, List.cons_ne_nil _ _, List.forall_mem_singleton.2 rfl, Text.stops_nil⟩,
      '1', rfl, rfl, by decide⟩
  have hwritten : html.name "a_1_2".toList = "a_1<sub>2</sub>".toList := h.1 _ _ htrailing
  rw [hname] at hwritten
  exact absurd hwritten (by decide)

end Markup
end Reckon
