import Mathlib.Data.List.Lex
import Reckon.Expr.Value
import Reckon.Proofs.Name.Split

/-!
# The longest pieces first

Splitting a name fills a table from the end of the name. The plain way to do the
same is a search (`search`): it tries the bound names that the text begins with
from the longest down, and gives one up where the rest of the text cannot be cut
up. Both come to the way whose first piece is the longest that any way begins
with, and so on for the rest, that is to the greatest of all ways if they are
compared by the lengths of their pieces from left to right.

Results:

* `split_cons_eq_findSome?`: an entry of the table is one step of the search.
* `lengths_le_of_split`: no way has greater lengths.
* `split_eq_search`: splitting is the search, and what it finds.
-/

namespace Reckon
namespace Name

/-- The first way to cut up a name that a search comes to which tries longer pieces before shorter
ones, and goes back where it has come to a rest that is no run of bound names. -/
def search (bound : List (List Char)) : List Char → Option (List (List Char))
  | [] => some []
  | c :: cs => (List.range (cs.length + 1)).reverse.findSome? fun k =>
      if bound.contains (c :: cs.take k) then (search bound (cs.drop k)).map ((c :: cs.take k) :: ·)
      else none
termination_by cs => cs.length
decreasing_by
  rw [List.length_drop, List.length_cons]
  omega

variable {bound : List (List Char)} {name : List Char} {parts others : List (List Char)}

/-! ## From the greatest number down -/

/-- The first result from the greatest number down is that of the greatest number with one. -/
theorem findSome?_reverse_range {α : Type} {f : Nat → Option α} {n : Nat} {a : α} :
    (List.range n).reverse.findSome? f = some a ↔
      ∃ k < n, f k = some a ∧ ∀ j, k < j → j < n → f j = none := by
  induction n with
  | zero => simp
  | succ n ih =>
    rw [List.range_succ, List.reverse_append, List.reverse_singleton, List.singleton_append,
      List.findSome?_cons]
    cases hn : f n with
    | some b =>
      constructor
      · intro h
        exact ⟨n, Nat.lt_succ_self n, hn.trans h, fun j hj hlt => by omega⟩
      · rintro ⟨k, hk, hka, hlast⟩
        rcases Nat.lt_succ_iff_lt_or_eq.1 hk with hlt | rfl
        · rw [hlast n hlt (Nat.lt_succ_self n)] at hn
          cases hn
        · exact hn.symm.trans hka
    | none =>
      refine ih.trans ⟨?_, ?_⟩
      · rintro ⟨k, hk, hka, hlast⟩
        refine ⟨k, Nat.lt_succ_of_lt hk, hka, fun j hj hlt => ?_⟩
        rcases Nat.lt_succ_iff_lt_or_eq.1 hlt with hlt | rfl
        · exact hlast j hj hlt
        · exact hn
      · rintro ⟨k, hk, hka, hlast⟩
        have hne : k ≠ n := by
          rintro rfl
          rw [hn] at hka
          cases hka
        exact ⟨k, by omega, hka, fun j hj hlt => hlast j hj (Nat.lt_succ_of_lt hlt)⟩

/-! ## One step -/

/-- What the search comes to with a first piece of `k + 1` characters. -/
def wayOfLength (bound : List (List Char)) (c : Char) (cs : List Char) (k : Nat) :
    Option (List (List Char)) :=
  if bound.contains (c :: cs.take k) then (split bound (cs.drop k)).map ((c :: cs.take k) :: ·)
  else none

/-- A way of given length is the way that begins with the piece of that length. -/
theorem wayOfLength_eq_some {c : Char} {cs : List Char} {k : Nat} (hk : k ≤ cs.length) :
    wayOfLength bound c cs k = some parts ↔
      parts ∈ bound.filterMap (way bound (c :: cs)) ∧ (parts.headD []).length = k + 1 := by
  have hlength : (c :: cs.take k).length = k + 1 := by
    rw [List.length_cons, List.length_take, Nat.min_eq_left hk]
  have hway : way bound (c :: cs) (c :: cs.take k) =
      (split bound (cs.drop k)).map ((c :: cs.take k) :: ·) := by
    have hpiece : c :: cs.take k ≠ [] ∧ c :: cs.take k <+: c :: cs :=
      ⟨List.cons_ne_nil _ _, List.cons_prefix_cons.2 ⟨rfl, List.take_prefix k cs⟩⟩
    rw [way, if_pos hpiece, hlength, List.drop_succ_cons]
  rw [wayOfLength, ← hway, List.mem_filterMap]
  constructor
  · intro h
    split_ifs at h with hbound
    obtain ⟨-, rest, more, -, -, rfl⟩ := way_eq_some h
    exact ⟨⟨_, List.contains_iff_mem.1 hbound, h⟩, hlength⟩
  · rintro ⟨⟨piece, hpiece, h⟩, hhead⟩
    obtain ⟨-, rest, more, hcs, -, rfl⟩ := way_eq_some h
    obtain rfl : piece = c :: cs.take k := by
      rw [List.headD_cons] at hhead
      rw [← List.take_succ_cons, hcs, ← hhead, List.take_left]
    rwa [if_pos (List.contains_iff_mem.2 hpiece)]

/-- No way begins with a longer piece than the one that is taken. -/
theorem length_headD_le {ways : List (List (List Char))} (h : longestFirst ways = some parts)
    (hmem : others ∈ ways) : (others.headD []).length ≤ (parts.headD []).length := by
  induction ways generalizing parts with
  | nil => cases hmem
  | cons first more ih =>
    rw [longestFirst] at h
    cases hm : longestFirst more with
    | none =>
      rw [hm] at h
      cases h
      rw [longestFirst_eq_none.1 hm] at hmem
      rw [List.mem_singleton.1 hmem]
    | some best =>
      rw [hm] at h
      dsimp only at h
      rcases List.mem_cons.1 hmem with rfl | hmem
      · split_ifs at h with hlt
        · cases h
          exact Nat.le_of_lt hlt
        · cases h
          exact Nat.le_refl _
      · have hle := ih hm hmem
        split_ifs at h with hlt
        · cases h
          exact hle
        · cases h
          omega

/-- An entry of the table is one step of the search, from the longest piece down. -/
theorem split_cons_eq_findSome? (bound : List (List Char)) (c : Char) (cs : List Char) :
    split bound (c :: cs) =
      (List.range (cs.length + 1)).reverse.findSome? (wayOfLength bound c cs) := by
  rw [split_cons]
  cases h : longestFirst (bound.filterMap (way bound (c :: cs))) with
  | none =>
    symm
    rw [List.findSome?_eq_none_iff]
    intro k hk
    have hle : k ≤ cs.length := by simpa [Nat.lt_succ_iff] using hk
    rw [Option.eq_none_iff_forall_ne_some]
    intro parts hparts
    have hmem := ((wayOfLength_eq_some hle).1 hparts).1
    rw [longestFirst_eq_none.1 h] at hmem
    cases hmem
  | some parts =>
    have hmem := mem_of_longestFirst h
    obtain ⟨piece, -, hway⟩ := List.mem_filterMap.1 hmem
    obtain ⟨hne, rest, more, hcs, -, rfl⟩ := way_eq_some hway
    obtain ⟨d, ds, rfl⟩ := List.exists_cons_of_ne_nil hne
    have hle : ds.length ≤ cs.length := by
      have := congrArg List.length hcs
      simp at this
      omega
    symm
    refine findSome?_reverse_range.2
      ⟨ds.length, by omega, (wayOfLength_eq_some hle).2 ⟨hmem, rfl⟩, fun j hj hlt => ?_⟩
    rw [Option.eq_none_iff_forall_ne_some]
    intro longer hlonger
    obtain ⟨hlonger, hlength⟩ := (wayOfLength_eq_some (Nat.le_of_lt_succ hlt)).1 hlonger
    have := length_headD_le h hlonger
    rw [hlength, List.headD_cons, List.length_cons] at this
    omega

theorem search_eq_split (bound : List (List Char)) (name : List Char) :
    search bound name = split bound name := by
  fun_induction search bound name with
  | case1 => rfl
  | case2 c cs ih =>
    rw [split_cons_eq_findSome?]
    congr 1
    funext k
    rw [ih k, wayOfLength]

/-! ## The greatest way -/

/-- The first piece that is taken, with a split of the rest. No longer piece begins a split. -/
theorem exists_of_split {c : Char} {cs : List Char} (h : split bound (c :: cs) = some parts) :
    ∃ k more, k ≤ cs.length ∧ parts = (c :: cs.take k) :: more ∧
      split bound (cs.drop k) = some more ∧
      ∀ j, k < j → j ≤ cs.length → c :: cs.take j ∈ bound → split bound (cs.drop j) = none := by
  rw [split_cons_eq_findSome?] at h
  obtain ⟨k, hk, hway, hlast⟩ := findSome?_reverse_range.1 h
  rw [wayOfLength] at hway
  split_ifs at hway with hbound
  obtain ⟨more, hmore, rfl⟩ := Option.map_eq_some_iff.1 hway
  refine ⟨k, more, Nat.le_of_lt_succ hk, rfl, hmore, fun j hj hle hpiece => ?_⟩
  have hnone := hlast j hj (Nat.lt_succ_of_le hle)
  rwa [wayOfLength, if_pos (List.contains_iff_mem.2 hpiece), Option.map_eq_none_iff] at hnone

/-- No way to cut up the name has greater lengths than the one that is taken. -/
theorem lengths_le_of_split (h : split bound name = some parts) (hothers : IsSplit bound name others) :
    others.map List.length ≤ parts.map List.length := by
  induction others generalizing name parts with
  | nil =>
    obtain rfl : [] = name := hothers.flatten
    cases h
    exact le_refl _
  | cons piece more ih =>
    obtain ⟨hne, hpiece⟩ := hothers.bound piece List.mem_cons_self
    have hmore : IsSplit bound more.flatten more :=
      ⟨rfl, fun part hpart => hothers.bound part (List.mem_cons_of_mem _ hpart)⟩
    obtain ⟨d, ds, rfl⟩ := List.exists_cons_of_ne_nil hne
    obtain rfl : d :: (ds ++ more.flatten) = name := hothers.flatten
    obtain ⟨k, best, hk, rfl, hbest, hlast⟩ := exists_of_split h
    have hlength : (d :: (ds ++ more.flatten).take k).length = k + 1 := by
      rw [List.length_cons, List.length_take, Nat.min_eq_left hk]
    rw [List.map_cons, List.map_cons, hlength]
    rcases Nat.lt_trichotomy ds.length k with hlt | rfl | hgt
    · -- a shorter first piece decides
      exact le_of_lt (List.Lex.rel (Nat.succ_lt_succ hlt))
    · -- the same first piece: the rests decide
      rw [List.drop_left] at hbest
      exact List.cons_le_cons _ (ih hbest hmore)
    · -- a longer first piece would have been taken
      have hnone := hlast ds.length hgt (by simp) (by rwa [List.take_left])
      rw [List.drop_left] at hnone
      exact absurd hnone (split_ne_none hmore)

/-- What is taken is known by being the greatest. -/
theorem split_eq_some_iff : split bound name = some parts ↔
    IsSplit bound name parts ∧
      ∀ others, IsSplit bound name others → others.map List.length ≤ parts.map List.length := by
  constructor
  · intro h
    exact ⟨isSplit_of_split h, fun others => lengths_le_of_split h⟩
  · rintro ⟨hsplit, hgreatest⟩
    obtain ⟨best, hbest⟩ := Option.ne_none_iff_exists'.1 (split_ne_none hsplit)
    have hlengths := le_antisymm (lengths_le_of_split hbest hsplit)
      (hgreatest best (isSplit_of_split hbest))
    have hflatten := hsplit.flatten.trans (isSplit_of_split hbest).flatten.symm
    rw [hbest, List.eq_iff_flatten_eq.2 ⟨hflatten, hlengths⟩]

/-- A name that is bound itself is taken whole. -/
theorem split_of_mem (hne : name ≠ []) (hbound : name ∈ bound) : split bound name = some [name] := by
  obtain ⟨c, cs, rfl⟩ := List.exists_cons_of_ne_nil hne
  rw [split_cons_eq_findSome?]
  refine findSome?_reverse_range.2
    ⟨cs.length, Nat.lt_succ_self _, ?_, fun j hj hlt => by omega⟩
  rw [wayOfLength, List.take_length, if_pos (List.contains_iff_mem.2 hbound), List.drop_length]
  rfl

end Name

/-! ## Names that are bound -/

/-- The values that a name stands for if it is cut up in any case, also where it is bound itself. -/
def Expr.factorsOfParts (b : Bindings) (name : List Char) : Except Failure (List Binary64) :=
  match Name.split b.names name with
  | none => .error (.fault (.undefinedVariable name))
  | some parts => parts.mapM fun part =>
    match b.lookup part with
    | some n => valueOf n
    | none => .error (.fault (.undefinedVariable part))

/-- To look a name up before it is cut up changes nothing. -/
theorem Expr.factors_eq_factorsOfParts (b : Bindings) {name : List Char} (hne : name ≠ []) :
    factors b name = factorsOfParts b name := by
  unfold factors factorsOfParts
  cases hb : b.lookup name with
  | none => rfl
  | some n =>
    have hmem : name ∈ b.names := by
      obtain ⟨l, r, rfl, -⟩ := List.lookup_eq_some_iff.1 hb
      simp [Bindings.names]
    rw [Name.split_of_mem hne hmem]
    dsimp only
    rw [List.mapM_cons, List.mapM_nil, hb]
    dsimp only
    cases valueOf n <;> rfl

namespace Name

/-- Splitting a name is the search for the longest pieces. It fails exactly where there is no way,
and otherwise finds the way whose lengths are the greatest; a bound name is taken whole, so that
it stands for the same values whether it is looked up before it is cut up or not. -/
theorem split_eq_search (bound : List (List Char)) (name : List Char) :
    split bound name = search bound name ∧
      (split bound name = none ↔ ∀ parts, ¬IsSplit bound name parts) ∧
      (∀ parts, split bound name = some parts ↔ IsSplit bound name parts ∧
        ∀ others, IsSplit bound name others →
          others.map List.length ≤ parts.map List.length) ∧
      (name ≠ [] → name ∈ bound → split bound name = some [name]) ∧
      ∀ b : Bindings, name ≠ [] → Expr.factors b name = Expr.factorsOfParts b name :=
  ⟨(search_eq_split bound name).symm, split_eq_none_iff, fun _ => split_eq_some_iff, split_of_mem,
    fun b => Expr.factors_eq_factorsOfParts b⟩

/-- The longest first piece is no use here, because nothing stands for the rest. -/
example : split [['a'], ['a', 'a'], ['a', 'b']] "aab".toList = some [['a'], ['a', 'b']] := by
  decide

end Name
end Reckon
