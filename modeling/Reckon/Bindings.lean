import Reckon.Binary64.Basic

/-!
# Values of names

A name is bound to a whole number of any size or to a double. A name that is
not bound itself may still be a run of bound names, which are then multiplied.
Of all ways to cut it up, the one with the longest first piece is taken, and so
on for the rest. The best ways for all suffixes of the name are kept in a table.
-/

namespace Reckon

/-- A number that is given for a variable. -/
inductive Number where
  | integer (n : Int)
  | double (x : Binary64)
deriving DecidableEq

/-- The double nearest to a number; a whole number can be too large for one. -/
def Number.toBinary64? : Number → Option Binary64
  | integer n => Binary64.ofInt? n
  | double x => some x

/-- The numbers that names stand for. -/
abbrev Bindings := List (List Char × Number)

namespace Bindings

/-- The bound names. -/
def names (b : Bindings) : List (List Char) := b.map Prod.fst

end Bindings

/-! ## Runs of names -/

namespace Name

/-- Of ways to cut up the same text, the one with the longest first piece. -/
def longestFirst : List (List (List Char)) → Option (List (List Char))
  | [] => none
  | parts :: more =>
    match longestFirst more with
    | none => some parts
    | some best =>
      if (parts.headD []).length < (best.headD []).length then some best else some parts

/-- The best way to cut up each suffix of a name, from the name itself down to nothing. -/
def splitTable (bound : List (List Char)) : List Char → List (Option (List (List Char)))
  | [] => [some []]
  | c :: cs =>
    let table := splitTable bound cs
    let ways := bound.filterMap fun piece =>
      if piece ≠ [] ∧ piece <+: c :: cs then
        (table[piece.length - 1]?).join.map (piece :: ·)
      else none
    longestFirst ways :: table

/-- The name as a run of bound names, longest piece first, if it is one (`split_identifier`). -/
def split (bound : List (List Char)) (name : List Char) : Option (List (List Char)) :=
  (splitTable bound name).head?.join

end Name
end Reckon
