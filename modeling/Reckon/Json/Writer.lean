import Reckon.Json.Value

/-!
# Writing settings text

Each item and each member stands on a line of its own, four blanks further in
than what it belongs to. Characters outside ASCII are written by their number.
A value without a text ends the writing; what comes before it has then been
written already.
-/

namespace Reckon
namespace Json

/-- A run of characters that is written at once, or the place where writing ends. -/
inductive Chunk where
  | text (cs : List Char)
  | stuck
deriving DecidableEq, Repr

/-- A number in four hexadecimal digits. -/
def hex4 (n : Nat) : List Char := '\\' :: 'u' :: Text.hex 4 n

/-- A character as it stands in a string. -/
def escape (c : Char) : List Char :=
  if c = '"' then ['\\', '"']
  else if c = '\\' then ['\\', '\\']
  else if c = '\n' then ['\\', 'n']
  else if c = '\r' then ['\\', 'r']
  else if c = '\t' then ['\\', 't']
  else if c = '\x0c' then ['\\', 'f']
  else if c = '\x08' then ['\\', 'b']
  else if 0x20 ≤ c.toNat ∧ c.toNat ≤ 0x7E then [c]
  else if c.toNat < 0x10000 then hex4 c.toNat
  else
    let n := c.toNat - 0x10000
    hex4 (0xD800 + n / 0x400) ++ hex4 (0xDC00 + n % 0x400)

/-- A string between its quotes. -/
def writeString (s : String) : List Char := '"' :: (s.toList.flatMap escape ++ ['"'])

/-- A double; the words for infinities and nan are those that reading knows. -/
def writeFloat : Binary64 → List Char
  | .nan => "NaN".toList
  | .infinite s => Decimal.sign s ++ "Infinity".toList
  | x => x.written

/-- The beginning of a line at a given depth. -/
def newLine (depth : Nat) : Chunk := .text ('\n' :: List.replicate (4 * depth) ' ')

mutual

/-- What is written for a value at a given depth. -/
def chunks (depth : Nat) : Value → List Chunk
  | .null => [.text "null".toList]
  | .bool b => [.text (if b then "true" else "false").toList]
  | .integer n => [.text (Decimal.ofInt n)]
  | .float x => [.text (writeFloat x)]
  | .string s => [.text (writeString s)]
  | .array [] => [.text "[]".toList]
  | .array (v :: vs) =>
    .text ['['] :: newLine (depth + 1) :: chunks (depth + 1) v ++ itemChunks (depth + 1) vs ++
      [newLine depth, .text [']']]
  | .object [] => [.text "\x7b\x7d".toList]
  | .object ((key, v) :: rest) =>
    .text ['\x7b'] :: newLine (depth + 1) :: .text (writeString key ++ ": ".toList) ::
      chunks (depth + 1) v ++ memberChunks (depth + 1) rest ++ [newLine depth, .text ['\x7d']]
  | .unwritable => [.stuck]

/-- What is written for the items after the first. -/
def itemChunks (depth : Nat) : List Value → List Chunk
  | [] => []
  | v :: vs => .text [','] :: newLine depth :: chunks depth v ++ itemChunks depth vs

/-- What is written for the members after the first. -/
def memberChunks (depth : Nat) : List (String × Value) → List Chunk
  | [] => []
  | (key, v) :: rest =>
    .text [','] :: newLine depth :: .text (writeString key ++ ": ".toList) :: chunks depth v ++
      memberChunks depth rest

end

/-- What reaches the file before writing ends, and whether it ends after the last chunk. -/
def flush : List Chunk → List Char × Bool
  | [] => ([], true)
  | .text cs :: rest => (cs ++ (flush rest).1, (flush rest).2)
  | .stuck :: _ => ([], false)

/-- The text of a value, as far as it is written, and whether that is all of it. -/
def write (v : Value) : List Char × Bool := flush (chunks 0 v)

end Json
end Reckon
