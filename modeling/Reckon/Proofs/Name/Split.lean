import Mathlib.Data.List.Basic
import Mathlib.Data.Nat.Init
import Reckon.Bindings

/-!
# Names that are runs of names

The table of the ways to cut up each suffix of a name holds at every place what
splitting that suffix gives, so that splitting is a recursion on suffixes.

Results:

* `split_cons`: the recursion.
* `isSplit_of_split`: what splitting gives is a run of bound names.
* `split_eq_none_iff`: splitting fails only where there is no run.
-/

namespace Reckon
namespace Name

/-- The parts are bound names, none of them empty, and make up the name. -/
structure IsSplit (bound : List (List Char)) (name : List Char) (parts : List (List Char)) :
    Prop where
  flatten : parts.flatten = name
  bound : ∀ part ∈ parts, part ≠ [] ∧ part ∈ bound

/-- The way to cut up a text that begins with a piece, if the rest can be cut up. -/
def way (bound : List (List Char)) (cs piece : List Char) : Option (List (List Char)) :=
  if piece ≠ [] ∧ piece <+: cs then (split bound (cs.drop piece.length)).map (piece :: ·) else none

/-! ## The table -/

@[simp] theorem split_nil (bound : List (List Char)) : split bound [] = some [] := rfl

theorem splitTable_getElem? (bound : List (List Char)) (cs : List Char) {i : Nat}
    (h : i ≤ cs.length) : (splitTable bound cs)[i]? = some (split bound (cs.drop i)) := by
  induction cs generalizing i with
  | nil =>
    obtain rfl : i = 0 := by simpa using h
    rfl
  | cons c cs ih =>
    cases i with
    | zero => rfl
    | succ i =>
      rw [splitTable, List.getElem?_cons_succ, ih (by simpa using h), List.drop_succ_cons]

/-- Of the ways that begin with a bound name, the one with the longest first piece is taken. -/
theorem split_cons (bound : List (List Char)) (c : Char) (cs : List Char) :
    split bound (c :: cs) = longestFirst (bound.filterMap (way bound (c :: cs))) := by
  show longestFirst _ = _
  congr 1
  refine List.filterMap_congr fun piece _ => ?_
  unfold way
  split_ifs with h
  · obtain ⟨d, ds, rfl⟩ := List.exists_cons_of_ne_nil h.1
    have hlen : (d :: ds).length ≤ (c :: cs).length := h.2.length_le
    have hds : ds.length ≤ cs.length := by simpa using hlen
    rw [List.length_cons, Nat.add_sub_cancel, splitTable_getElem? bound cs hds]
    rfl
  · rfl

/-! ## Ways -/

theorem longestFirst_eq_none {ways : List (List (List Char))} :
    longestFirst ways = none ↔ ways = [] := by
  cases ways with
  | nil => simp [longestFirst]
  | cons parts more =>
    rw [longestFirst]
    cases longestFirst more with
    | none => simp
    | some best =>
      dsimp only
      split_ifs <;> simp

theorem mem_of_longestFirst {ways : List (List (List Char))} {parts : List (List Char)}
    (h : longestFirst ways = some parts) : parts ∈ ways := by
  induction ways generalizing parts with
  | nil => cases h
  | cons first more ih =>
    rw [longestFirst] at h
    cases hm : longestFirst more with
    | none =>
      rw [hm] at h
      cases h
      exact List.mem_cons_self
    | some best =>
      rw [hm] at h
      dsimp only at h
      split_ifs at h
      · cases h
        exact List.mem_cons_of_mem _ (ih hm)
      · cases h
        exact List.mem_cons_self

/-- A way begins with its piece and goes on with a split of what is left. -/
theorem way_eq_some {bound : List (List Char)} {cs piece : List Char} {parts : List (List Char)}
    (h : way bound cs piece = some parts) :
    piece ≠ [] ∧ ∃ rest more, cs = piece ++ rest ∧ split bound rest = some more ∧
      parts = piece :: more := by
  unfold way at h
  split_ifs at h with hp
  obtain ⟨hne, rest, rfl⟩ := hp
  rw [List.drop_left] at h
  obtain ⟨more, hmore, rfl⟩ := Option.map_eq_some_iff.1 h
  exact ⟨hne, rest, more, rfl, hmore, rfl⟩

/-! ## Splits -/

/-- What splitting gives is a split. -/
theorem isSplit_of_split {bound : List (List Char)} {name : List Char}
    {parts : List (List Char)} (h : split bound name = some parts) :
    IsSplit bound name parts := by
  induction hn : name.length using Nat.strong_induction_on generalizing name parts with
  | _ n ih =>
    cases name with
    | nil =>
      obtain rfl : [] = parts := by simpa using h
      exact ⟨rfl, by simp⟩
    | cons c cs =>
      rw [split_cons] at h
      obtain ⟨piece, hpiece, hway⟩ := List.mem_filterMap.1 (mem_of_longestFirst h)
      obtain ⟨hne, rest, more, hcs, hmore, rfl⟩ := way_eq_some hway
      have hlt : rest.length < n := by
        have := List.length_pos_iff.2 hne
        rw [← hn, hcs, List.length_append]
        omega
      obtain ⟨hflat, hbound⟩ := ih rest.length hlt hmore rfl
      refine ⟨by simp [hflat, hcs], ?_⟩
      rintro part (_ | ⟨_, hpart⟩)
      exacts [⟨hne, hpiece⟩, hbound part hpart]

/-- Where there is a split, splitting gives one. -/
theorem split_ne_none {bound : List (List Char)} {name : List Char} {parts : List (List Char)}
    (h : IsSplit bound name parts) : split bound name ≠ none := by
  induction parts generalizing name with
  | nil =>
    obtain rfl : [] = name := h.flatten
    simp
  | cons piece more ih =>
    obtain ⟨hne, hpiece⟩ := h.bound piece List.mem_cons_self
    have hmore : IsSplit bound more.flatten more :=
      ⟨rfl, fun part hpart => h.bound part (List.mem_cons_of_mem _ hpart)⟩
    obtain ⟨best, hbest⟩ := Option.ne_none_iff_exists'.1 (ih hmore)
    obtain ⟨d, ds, rfl⟩ := List.exists_cons_of_ne_nil hne
    have hname : name = d :: (ds ++ more.flatten) := h.flatten.symm
    rw [hname, split_cons, Ne, longestFirst_eq_none]
    have hway : way bound (d :: (ds ++ more.flatten)) (d :: ds) = some ((d :: ds) :: best) := by
      rw [way, if_pos ⟨hne, more.flatten, rfl⟩]
      simp [hbest]
    exact List.ne_nil_of_mem (List.mem_filterMap.2 ⟨d :: ds, hpiece, hway⟩)

/-- Splitting fails only where there is no split. -/
theorem split_eq_none_iff {bound : List (List Char)} {name : List Char} :
    split bound name = none ↔ ∀ parts, ¬IsSplit bound name parts := by
  constructor
  · intro h parts hparts
    exact split_ne_none hparts h
  · intro h
    cases hs : split bound name with
    | none => rfl
    | some parts => exact absurd (isSplit_of_split hs) (h parts)

end Name
end Reckon
