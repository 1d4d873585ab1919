import Reckon.Fault
import Reckon.Text.Blank
import Reckon.Text.DecimalDigit
import Reckon.Token.Basic

/-!
# Splitting a formula into tokens

At each position the longest number or identifier is taken, or else a single
character. Blanks stand between tokens and are part of none. The lenient scan
never fails: a character that begins no token is a token of its own kind. The
strict scan refuses such characters, and numbers with a second point. The two are
`tokenize` without and with its flag `strict`; what it finds by searching for a
pattern from a position on is here the longest run at the front of the text.

Results:

* `lexeme_eq_append`: what is taken is a nonempty beginning of the text.
* `nodup_identifiers`: no identifier is listed twice.
-/

namespace Reckon
namespace Token

/-! ## Characters -/

/-- A letter of the ASCII alphabet or an underscore, which begin an identifier. -/
def isLetter (c : Char) : Bool :=
  ('a' ≤ c && c ≤ 'z') || ('A' ≤ c && c ≤ 'Z') || c == '_'

/-- A character that goes on with an identifier. -/
def isWordChar (c : Char) : Bool := isLetter c || Text.isAsciiDigit c

/-- The four arithmetic operators. -/
def isOperator (c : Char) : Bool := c == '+' || c == '-' || c == '*' || c == '/'

/-! ## One token -/

/-- The longest number at the beginning of the text (`NUMBER_PATTERN`): digits with at most one
point, and at least one digit; nothing if there is no number. -/
def leadingNumber (cs : List Char) : List Char :=
  let whole := cs.takeWhile Text.isAsciiDigit
  match cs.dropWhile Text.isAsciiDigit with
  | '.' :: after =>
    let places := after.takeWhile Text.isAsciiDigit
    if whole = [] ∧ places = [] then [] else whole ++ '.' :: places
  | _ => whole

/-- The kind and the text of the token that begins with `c`. -/
def lexeme (c : Char) (cs : List Char) : Kind × List Char :=
  match leadingNumber (c :: cs) with
  | d :: ds => (.number, d :: ds)
  | [] =>
    if isLetter c then (.identifier, c :: cs.takeWhile isWordChar)
    else if isOperator c then (.operator, [c])
    else if c = '^' then (.caret, [c])
    else if c = '(' then (.openParen, [c])
    else if c = ')' then (.closeParen, [c])
    else (.other, [c])

/-! ## All tokens -/

/-- The tokens of a text that begins at the given position. -/
def scanFrom (position : Nat) : List Char → List Token
  | [] => []
  | c :: cs =>
    if Text.isBlank c then scanFrom (position + 1) cs
    else
      let (kind, text) := lexeme c cs
      ⟨kind, text, position⟩ :: scanFrom (position + text.length) (cs.drop (text.length - 1))
termination_by cs => cs.length

/-- The tokens of a formula, whatever characters are in it: `tokenize` where it is not strict. -/
def scan (formula : List Char) : List Token := scanFrom 0 formula

/-- The tokens of a text that begins at the given position, or what is wrong with the first
token that no formula has. -/
def checkFrom (position : Nat) : List Char → Except Fault (List Token)
  | [] => .ok []
  | c :: cs =>
    if Text.isBlank c then checkFrom (position + 1) cs
    else
      let (kind, text) := lexeme c cs
      let rest := cs.drop (text.length - 1)
      if kind = .other then .error (.unexpectedCharacter c)
      else if kind = .number ∧ rest.head? = some '.' then .error (.secondPoint position)
      else (checkFrom (position + text.length) rest).map (⟨kind, text, position⟩ :: ·)
termination_by cs => cs.length

/-- The tokens of a formula, if every character has its place in one: `tokenize` where it is
strict. -/
def check (formula : List Char) : Except Fault (List Token) := checkFrom 0 formula

/-- The texts in the order of their first appearance, each once. -/
def firstAppearances : List (List Char) → List (List Char)
  | [] => []
  | name :: names => name :: (firstAppearances names).filter (· != name)

/-- The identifiers of a formula in the order of their first appearance, each once
(`extract_identifiers`). -/
def identifiers (formula : List Char) : List (List Char) :=
  firstAppearances (((scan formula).filter (·.kind == .identifier)).map text)

/-! ## Lemmas -/

theorem leadingNumber_prefix (cs : List Char) : leadingNumber cs <+: cs := by
  unfold leadingNumber
  have hsplit := List.takeWhile_append_dropWhile (p := Text.isAsciiDigit) (l := cs)
  split
  · rename_i after h
    dsimp only
    split
    · exact List.nil_prefix
    · refine ⟨after.dropWhile Text.isAsciiDigit, ?_⟩
      rw [List.append_assoc, List.cons_append, List.takeWhile_append_dropWhile, ← h, hsplit]
  · exact List.takeWhile_prefix _

/-- What is taken is a nonempty beginning of the text. -/
theorem lexeme_eq_append (c : Char) (cs : List Char) :
    ∃ more, (lexeme c cs).2 = c :: more ∧ more <+: cs := by
  unfold lexeme
  have hp := leadingNumber_prefix (c :: cs)
  split
  · rename_i d ds h
    rw [h] at hp
    obtain ⟨rfl, hds⟩ := List.cons_prefix_cons.1 hp
    exact ⟨ds, rfl, hds⟩
  · repeat' split
    · exact ⟨_, rfl, List.takeWhile_prefix _⟩
    all_goals exact ⟨[], rfl, List.nil_prefix⟩

theorem mem_firstAppearances {name : List Char} {names : List (List Char)} :
    name ∈ firstAppearances names ↔ name ∈ names := by
  induction names with
  | nil => rfl
  | cons n names ih => by_cases h : name = n <;> simp [firstAppearances, ih, h]

theorem nodup_firstAppearances (names : List (List Char)) : (firstAppearances names).Nodup := by
  induction names with
  | nil => exact List.nodup_nil
  | cons n names ih =>
    refine List.nodup_cons.2 ⟨?_, ih.filter _⟩
    simp

theorem filter_firstAppearances (p : List Char → Bool) (names : List (List Char)) :
    (firstAppearances names).filter p = firstAppearances (names.filter p) := by
  induction names with
  | nil => rfl
  | cons n names ih =>
    rw [firstAppearances, List.filter_cons, List.filter_cons, List.filter_filter]
    by_cases hp : p n = true
    · rw [if_pos hp, if_pos hp, firstAppearances, ← ih, List.filter_filter]
      simp only [Bool.and_comm]
    · rw [if_neg hp, if_neg hp, ← ih]
      refine List.filter_congr fun m _ => ?_
      by_cases hm : m = n
      · subst hm
        simp [hp]
      · simp [hm]

/-- Keeping the first appearances is dropping the repetitions. -/
theorem firstAppearances_eq_eraseDups :
    ∀ names : List (List Char), firstAppearances names = names.eraseDups
  | [] => rfl
  | n :: names => by
    have hlt : (names.filter (· != n)).length < names.length + 1 :=
      Nat.lt_succ_of_le (List.length_filter_le _ _)
    rw [firstAppearances, filter_firstAppearances, firstAppearances_eq_eraseDups (names.filter _),
      List.eraseDups_cons]
    rfl
termination_by names => names.length

/-- No identifier is listed twice. -/
theorem nodup_identifiers (formula : List Char) : (identifiers formula).Nodup :=
  nodup_firstAppearances _

end Token
end Reckon
