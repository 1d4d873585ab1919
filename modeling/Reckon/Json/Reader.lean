import Reckon.Decimal.Reader
import Reckon.Entry
import Reckon.Json.Value

/-!
# Reading settings text

Strict JSON, with the words for infinities and nan besides. A later member of
an object replaces an earlier one of the same name in its place. A number with
a point or a power of ten is a double, any other is a whole number, and a whole
number with too many digits is refused in a way of its own.

Each step takes what it reads from the front of the text, and its result says
that less text is left, which is why reading ends.
-/

namespace Reckon
namespace Json

/-- Why a text is not read. -/
inductive ReadFault where
  /-- It is no settings text. -/
  | corrupt
  /-- It has a whole number with too many digits. -/
  | integerTooLong
deriving DecidableEq, Repr

/-- What has been read, with fewer than `n` characters left. -/
structure Read (α : Type) (n : Nat) where
  value : α
  rest : List Char
  shorter : rest.length < n

namespace Read

/-- The same result under a weaker bound. -/
def weaken {α : Type} {n m : Nat} (h : n ≤ m) (r : Read α n) : Read α m :=
  ⟨r.value, r.rest, Nat.lt_of_lt_of_le r.shorter h⟩

/-- The result with another value. -/
def map {α β : Type} {n : Nat} (f : α → β) (r : Read α n) : Read β n :=
  ⟨f r.value, r.rest, r.shorter⟩

end Read

/-! ## Blanks and words -/

/-- The four characters that may stand between the parts of a settings text. -/
def isBlank (c : Char) : Bool := c == ' ' || c == '\t' || c == '\n' || c == '\r'

/-- The text without the blanks at its beginning. -/
def skipBlanks (cs : List Char) : { rest : List Char // rest.length ≤ cs.length } :=
  ⟨cs.dropWhile isBlank, (List.dropWhile_suffix _).length_le⟩

/-- What comes after an expected character, which may have blanks before it. -/
def expect? (c : Char) (cs : List Char) : Option { rest : List Char // rest.length < cs.length } :=
  if h : (skipBlanks cs).1.head? = some c then
    some ⟨(skipBlanks cs).1.tail, by
      have hle := (skipBlanks cs).2
      have : (skipBlanks cs).1 ≠ [] := fun hn => by simp [hn] at h
      have := List.length_pos_iff.2 this
      rw [List.length_tail]
      omega⟩
  else none

/-- The words and what they stand for. -/
def words : List (List Char × Value) :=
  [ ("null".toList, .null), ("true".toList, .bool true), ("false".toList, .bool false),
    ("NaN".toList, .float .nan), ("Infinity".toList, .float (.infinite false)),
    ("-Infinity".toList, .float (.infinite true)) ]

/-- The word at the beginning of the text. -/
def readWord? (cs : List Char) : Option (Read Value cs.length) :=
  words.findSome? fun (word, v) =>
    if h : word ≠ [] ∧ word <+: cs then
      some ⟨v, cs.drop word.length, by
        have := List.length_pos_iff.2 h.1
        have := h.2.length_le
        rw [List.length_drop]
        omega⟩
    else none

/-! ## Strings -/

/-- The value of a hexadecimal digit. -/
def hexValue? (c : Char) : Option Nat :=
  if '0' ≤ c ∧ c ≤ '9' then some (c.toNat - '0'.toNat)
  else if 'a' ≤ c ∧ c ≤ 'f' then some (c.toNat - 'a'.toNat + 10)
  else if 'A' ≤ c ∧ c ≤ 'F' then some (c.toNat - 'A'.toNat + 10)
  else none

/-- The number that four hexadecimal digits stand for. -/
def hex4? (a b c d : Char) : Option Nat := do
  return (((← hexValue? a) * 16 + (← hexValue? b)) * 16 + (← hexValue? c)) * 16 + (← hexValue? d)

/-- The first half of a pair that stands for one character. -/
def isHighHalf (n : Nat) : Bool := 0xD800 ≤ n && n ≤ 0xDBFF

/-- The second half of a pair that stands for one character. -/
def isLowHalf (n : Nat) : Bool := 0xDC00 ≤ n && n ≤ 0xDFFF

/-- The character with a given number; half a pair alone gives the replacement character. -/
def charOf (n : Nat) : Char := if n.isValidChar then Char.ofNat n else '\uFFFD'

/-- The character that a letter after a backslash stands for. -/
def escaped? (c : Char) : Option Char :=
  [('"', '"'), ('\\', '\\'), ('/', '/'), ('b', '\x08'), ('f', '\x0c'), ('n', '\n'), ('r', '\r'),
    ('t', '\t')].lookup c

/-- The second half of a pair at the beginning of the text. -/
def lowHalf? (cs : List Char) : Option (Nat × { rest : List Char // rest.length < cs.length }) :=
  match cs with
  | '\\' :: 'u' :: a :: b :: c :: d :: rest =>
    match hex4? a b c d with
    | some n => if isLowHalf n then some (n, ⟨rest, by simp; omega⟩) else none
    | none => none
  | _ => none

/-- The characters of a string up to its closing quote. -/
def readChars : (cs : List Char) → Except ReadFault (Read (List Char) cs.length)
  | [] => .error .corrupt
  | '"' :: cs => .ok ⟨[], cs, by simp⟩
  | '\\' :: 'u' :: a :: b :: c :: d :: cs =>
    match hex4? a b c d with
    | none => .error .corrupt
    | some n =>
      match (if isHighHalf n then lowHalf? cs else none) with
      | some (m, ⟨rest, h⟩) =>
        let whole := charOf (0x10000 + (n - 0xD800) * 0x400 + (m - 0xDC00))
        (readChars rest).map fun r => (r.map (whole :: ·)).weaken (by simp; omega)
      | none => (readChars cs).map fun r => (r.map (charOf n :: ·)).weaken (by simp; omega)
  | '\\' :: c :: cs =>
    match escaped? c with
    | none => .error .corrupt
    | some e => (readChars cs).map fun r => (r.map (e :: ·)).weaken (by simp; omega)
  | c :: cs =>
    if c.toNat < 0x20 ∨ c = '\\' then .error .corrupt
    else (readChars cs).map fun r => (r.map (c :: ·)).weaken (by simp)
termination_by cs => cs.length

/-! ## Numbers -/

/-- A run of digits at the beginning of the text, and what is left. -/
def digitRun (cs : List Char) : List Char × List Char :=
  (cs.takeWhile Text.isAsciiDigit, cs.dropWhile Text.isAsciiDigit)

/-- The digits before the point: a zero alone, or digits that do not begin with a zero. -/
def wholeRun (cs : List Char) : List Char × List Char :=
  match cs with
  | '0' :: rest => (['0'], rest)
  | _ => digitRun cs

/-- The digits after a point, if there are any. -/
def placesRun (cs : List Char) : List Char × List Char :=
  match cs with
  | '.' :: rest => if (digitRun rest).1 = [] then ([], cs) else digitRun rest
  | _ => ([], cs)

/-- A power of ten, if there is one. -/
def powerRun (cs : List Char) : Option Int × List Char :=
  match cs with
  | e :: rest =>
    if e = 'e' ∨ e = 'E' then
      let (negative, after) := Entry.splitSign rest
      let (ds, left) := digitRun after
      if ds = [] then (none, cs)
      else (some (if negative then -(Decimal.ofDigits ds : Int) else Decimal.ofDigits ds), left)
    else (none, cs)
  | [] => (none, cs)

/-- The number at the beginning of the text, and what is left. -/
def number (cs : List Char) : Except ReadFault (Value × List Char) :=
  let (negative, unsigned) := match cs with
    | '-' :: rest => (true, rest)
    | _ => (false, cs)
  let (whole, afterWhole) := wholeRun unsigned
  let (places, afterPlaces) := placesRun afterWhole
  let (power?, rest) := powerRun afterPlaces
  if whole = [] then .error .corrupt
  else if places = [] ∧ power? = none then
    if Entry.maxDigits < whole.length then .error .integerTooLong
    else
      let n := Decimal.ofDigits whole
      .ok (.integer (if negative then -n else n), rest)
  else
    let d : Decimal := ⟨negative, Decimal.ofDigits (whole ++ places),
      power?.getD 0 - places.length⟩
    .ok (.float d.toBinary64, rest)

/-- The number at the beginning of the text. -/
def readNumber (cs : List Char) : Except ReadFault (Read Value cs.length) :=
  match number cs with
  | .error fault => .error fault
  | .ok (v, rest) =>
    if h : rest.length < cs.length then .ok ⟨v, rest, h⟩ else .error .corrupt

/-! ## Values -/

/-- The members with one more; a member of the same name is replaced in its place. -/
def putMember (members : List (String × Value)) (key : String) (v : Value) :
    List (String × Value) :=
  if members.any (·.1 == key) then members.map fun m => if m.1 == key then (key, v) else m
  else members ++ [(key, v)]

/-- Members in the order in which they were read, later ones of a name in place of earlier. -/
def ofMembers (members : List (String × Value)) : List (String × Value) :=
  members.foldl (fun all m => putMember all m.1 m.2) []

mutual

/-- The value at the beginning of the text. -/
def readValue : (cs : List Char) → Except ReadFault (Read Value cs.length)
  | [] => .error .corrupt
  | c :: cs =>
    if c = '"' then
      (readChars cs).map fun r => (r.map fun s => .string (String.ofList s)).weaken (by simp)
    else if c = '[' then
      match expect? ']' cs with
      | some ⟨rest, h⟩ => .ok ⟨.array [], rest, by simp; omega⟩
      | none => (readItems cs).map fun r => (r.map .array).weaken (by simp)
    else if c = '\x7b' then
      match expect? '\x7d' cs with
      | some ⟨rest, h⟩ => .ok ⟨.object [], rest, by simp; omega⟩
      | none => (readMembers cs).map fun r =>
          (r.map fun members => .object (ofMembers members)).weaken (by simp)
    else match readWord? (c :: cs) with
      | some r => .ok r
      | none => readNumber (c :: cs)
termination_by cs => 2 * cs.length

/-- The items of an array up to its closing bracket. -/
def readItems (cs : List Char) : Except ReadFault (Read (List Value) cs.length) := do
  let ⟨valueText, ht⟩ := skipBlanks cs
  let ⟨v, left, hv⟩ ← readValue valueText
  match expect? ']' left with
  | some ⟨rest, h⟩ => return ⟨[v], rest, by omega⟩
  | none =>
    match expect? ',' left with
    | some ⟨rest, h⟩ => (readItems rest).map fun r => (r.map (v :: ·)).weaken (by omega)
    | none => .error .corrupt
termination_by 2 * cs.length + 1

/-- The members of an object up to its closing brace. -/
def readMembers (cs : List Char) :
    Except ReadFault (Read (List (String × Value)) cs.length) := do
  match expect? '"' cs with
  | none => .error .corrupt
  | some ⟨keyText, hk⟩ =>
    let ⟨key, afterKey, hkey⟩ ← readChars keyText
    match expect? ':' afterKey with
    | none => .error .corrupt
    | some ⟨afterColon, hc⟩ =>
      let ⟨valueText, ht⟩ := skipBlanks afterColon
      let ⟨v, left, hv⟩ ← readValue valueText
      let member := (String.ofList key, v)
      match expect? '\x7d' left with
      | some ⟨rest, h⟩ => return ⟨[member], rest, by omega⟩
      | none =>
        match expect? ',' left with
        | some ⟨rest, h⟩ =>
          (readMembers rest).map fun r => (r.map (member :: ·)).weaken (by omega)
        | none => .error .corrupt
termination_by 2 * cs.length + 1

end

/-- The value that a settings text stands for. -/
def read (text : List Char) : Except ReadFault Value := do
  let r ← readValue (skipBlanks text).1
  if (skipBlanks r.rest).1 = [] then return r.value else .error .corrupt

end Json
end Reckon
