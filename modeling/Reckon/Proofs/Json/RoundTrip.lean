import Reckon.Proofs.Json.Members
import Reckon.Proofs.Json.Numbers

/-!
# Values that are written and read

What is written for a value is read as the value, in whatever depth it is written
and whatever follows it, as long as its whole numbers have not too many digits
and the names in each of its objects are different (`Proper`). The induction is
on the value; a list of items or members is read one after the other up to the
closing bracket.

Results:

* `roundTrips_of_proper`: a value at any depth.
* `read_write`: a value that is all of a text.
-/

namespace Reckon
namespace Json

/-- A value that a settings text expresses: its whole numbers have not too many digits, and no two
members of an object have the same name. -/
inductive Value.Proper : Value → Prop
  | null : Proper .null
  | bool (b : Bool) : Proper (.bool b)
  | integer {n : Int} (short : (Decimal.digits n.natAbs).length ≤ Entry.maxDigits) :
      Proper (.integer n)
  | float (x : Binary64) : Proper (.float x)
  | string (s : String) : Proper (.string s)
  | array {items : List Value} (proper : ∀ v ∈ items, Proper v) : Proper (.array items)
  | object {members : List (String × Value)} (nodup : (members.map Prod.fst).Nodup)
      (proper : ∀ m ∈ members, Proper m.2) : Proper (.object members)

/-! ## Written text -/

/-- All chunks are written, and the text is what is written for them. -/
def Flushes (cs : List Chunk) (text : List Char) : Prop := flush cs = (text, true)

theorem flushes_nil : Flushes [] [] := rfl

theorem Flushes.cons {cs : List Chunk} {text : List Char} (h : Flushes cs text) (run : List Char) :
    Flushes (.text run :: cs) (run ++ text) := by
  unfold Flushes at h ⊢
  rw [flush, h]

theorem Flushes.flush_append {cs : List Chunk} {s : List Char} (hs : Flushes cs s)
    (ds : List Chunk) : flush (cs ++ ds) = (s ++ (flush ds).1, (flush ds).2) := by
  induction cs generalizing s with
  | nil =>
    obtain rfl : s = [] := (Prod.mk.inj hs).1.symm
    rfl
  | cons c cs ih =>
    cases c with
    | stuck => cases hs
    | text run =>
      unfold Flushes at hs
      rw [flush] at hs
      obtain ⟨rfl, hcomplete⟩ := Prod.mk.inj hs
      rw [List.cons_append, flush, ih (Prod.ext rfl hcomplete), List.append_assoc]

theorem Flushes.append {cs ds : List Chunk} {s t : List Char} (hs : Flushes cs s)
    (ht : Flushes ds t) : Flushes (cs ++ ds) (s ++ t) := by
  unfold Flushes at ht ⊢
  rw [hs.flush_append, ht]

/-- The text of the beginning of a line. -/
def lineStart (depth : Nat) : List Char := '\n' :: List.replicate (4 * depth) ' '

theorem isBlank_of_mem_lineStart {depth : Nat} : ∀ c ∈ lineStart depth, isBlank c = true := by
  intro c hc
  rcases List.mem_cons.1 hc with rfl | hc
  · decide
  · rw [List.eq_of_mem_replicate hc]
    decide

theorem ends_lineStart (depth : Nat) (cs : List Char) : Ends (lineStart depth ++ cs) :=
  ends_cons (by decide)

/-! ## Blanks -/

theorem skipBlanks_append {blanks : List Char} (h : ∀ c ∈ blanks, isBlank c = true) {c : Char}
    (hc : isBlank c = false) (cs : List Char) : (skipBlanks (blanks ++ c :: cs)).1 = c :: cs :=
  Text.dropWhile_run h (Text.stops_cons.2 hc)

/-- An expected character is found after blanks. -/
theorem expect?_eq_some {blanks : List Char} (h : ∀ c ∈ blanks, isBlank c = true) {c : Char}
    (hc : isBlank c = false) (cs : List Char) :
    ∃ hlt, expect? c (blanks ++ c :: cs) = some ⟨cs, hlt⟩ := by
  have hskip := skipBlanks_append h hc cs
  have hhead : (skipBlanks (blanks ++ c :: cs)).1.head? = some c := by rw [hskip]; rfl
  refine ⟨by simp; omega, ?_⟩
  rw [expect?, dif_pos hhead]
  simp [hskip]

theorem expect?_cons {c : Char} (hc : isBlank c = false) (cs : List Char) :
    ∃ hlt, expect? c (c :: cs) = some ⟨cs, hlt⟩ :=
  @expect?_eq_some [] (by simp) c hc cs

/-- Another character is not taken for the expected one. -/
theorem expect?_eq_none {blanks : List Char} (h : ∀ c ∈ blanks, isBlank c = true) {a c : Char}
    (ha : isBlank a = false) (hne : a ≠ c) (cs : List Char) :
    expect? c (blanks ++ a :: cs) = none := by
  have hskip := skipBlanks_append h ha cs
  rw [expect?, dif_neg]
  rw [hskip]
  simpa using hne

/-! ## Values -/

/-- A text begins with something that is neither a blank nor a closing bracket. -/
def Begins (text : List Char) : Prop :=
  ∃ c cs, text = c :: cs ∧ isBlank c = false ∧ c ≠ ']' ∧ c ≠ '\x7d'

theorem Begins.append {text : List Char} (h : Begins text) (more : List Char) :
    Begins (text ++ more) := by
  obtain ⟨c, cs, rfl, hc⟩ := h
  exact ⟨c, cs ++ more, rfl, hc⟩

/-- A text is what is written for a value at a depth, and is read as the value. -/
structure WritesAt (depth : Nat) (v : Value) (text : List Char) : Prop where
  flushes : Flushes (chunks depth v) text
  begins : Begins text
  gives : ∀ rest, Ends rest → Gives (readValue (text ++ rest)) v rest

/-- What is written for a value is read as the value, at any depth. -/
def RoundTrips (v : Value) : Prop := ∀ depth, ∃ text, WritesAt depth v text

/-! ### Words and numbers -/

theorem gives_readValue_word {w : List Char × Value} (hw : w ∈ words) (rest : List Char) :
    Gives (readValue (w.1 ++ rest)) w.2 rest := by
  have hfirst : ∀ w ∈ words, w.1.head? ≠ some '"' ∧ w.1.head? ≠ some '[' ∧
      w.1.head? ≠ some '\x7b' := by decide
  have hread := gives_readWord? hw rest
  obtain ⟨a, b, cs, hword, -⟩ := exists_word_cons hw
  obtain ⟨hquote, hbracket, hbrace⟩ : a ≠ '"' ∧ a ≠ '[' ∧ a ≠ '\x7b' := by
    simpa [hword] using hfirst w hw
  have htext : w.1 ++ rest = a :: (b :: cs ++ rest) := by rw [hword]; rfl
  rw [htext] at hread ⊢
  obtain ⟨hlt, hread⟩ := hread
  refine ⟨hlt, ?_⟩
  rw [readValue, if_neg hquote, if_neg hbracket, if_neg hbrace, hread]

theorem begins_word {w : List Char × Value} (hw : w ∈ words) : Begins w.1 := by
  simp only [words, List.mem_cons, List.not_mem_nil, or_false] at hw
  rcases hw with rfl | rfl | rfl | rfl | rfl | rfl <;>
    exact ⟨_, _, rfl, by decide, by decide, by decide⟩

theorem writesAt_word {depth : Nat} {word : List Char} {v : Value} (hw : (word, v) ∈ words)
    (hchunks : chunks depth v = [.text word]) : WritesAt depth v word where
  flushes := by
    have h := flushes_nil.cons word
    rwa [List.append_nil, ← hchunks] at h
  begins := begins_word hw
  gives rest _ := gives_readValue_word hw rest

theorem exists_text_cons {n : Numeral} (hn : n.WellFormed) :
    ∃ c cs, n.text = c :: cs ∧ c ∈ Entry.numeralChars := by
  have hne : n.text ≠ [] := by
    obtain ⟨c, cs, hcons⟩ := List.exists_cons_of_ne_nil hn.whole_ne_nil
    simp [Numeral.text, Numeral.magnitude, hcons]
  obtain ⟨c, cs, htext⟩ := List.exists_cons_of_ne_nil hne
  refine ⟨c, cs, htext, Entry.mem_numeralChars_of_mem_text hn ?_⟩
  rw [htext]
  exact List.mem_cons_self

theorem writesAt_numeral {depth : Nat} {v : Value} {n : Numeral} (hn : n.WellFormed)
    (hchunks : chunks depth v = [.text n.text])
    (hread : ∀ rest, Ends rest → number (n.text ++ rest) = .ok (v, rest)) :
    WritesAt depth v n.text where
  flushes := by
    have h := flushes_nil.cons n.text
    rwa [List.append_nil, ← hchunks] at h
  begins := by
    have hfirst : ∀ c ∈ Entry.numeralChars, isBlank c = false ∧ c ≠ ']' ∧ c ≠ '\x7d' :=
      List.all_iff_forall_prop.1 (by decide)
    obtain ⟨c, cs, htext, hc⟩ := exists_text_cons hn
    exact ⟨c, cs, htext, hfirst c hc⟩
  gives rest hrest := by
    have hfirst : ∀ c ∈ Entry.numeralChars, c ≠ '"' ∧ c ≠ '[' ∧ c ≠ '\x7b' :=
      List.all_iff_forall_prop.1 (by decide)
    have hnumber := gives_readNumber hn (hread rest hrest)
    have hword := readWord?_numeral hn rest
    obtain ⟨c, cs, htext, hc⟩ := exists_text_cons hn
    obtain ⟨hquote, hbracket, hbrace⟩ := hfirst c hc
    rw [htext, List.cons_append] at hnumber hword ⊢
    obtain ⟨hlt, hnumber⟩ := hnumber
    refine ⟨hlt, ?_⟩
    rw [readValue, if_neg hquote, if_neg hbracket, if_neg hbrace, hword]
    exact hnumber

theorem roundTrips_null : RoundTrips .null := by
  intro depth
  exact ⟨"null".toList, writesAt_word (by simp [words]) (by rw [chunks])⟩

theorem roundTrips_bool (b : Bool) : RoundTrips (.bool b) := by
  intro depth
  cases b with
  | false => exact ⟨"false".toList, writesAt_word (by simp [words]) (by rw [chunks]; rfl)⟩
  | true => exact ⟨"true".toList, writesAt_word (by simp [words]) (by rw [chunks]; rfl)⟩

theorem roundTrips_integer {n : Int} (h : (Decimal.digits n.natAbs).length ≤ Entry.maxDigits) :
    RoundTrips (.integer n) := by
  intro depth
  refine ⟨_, writesAt_numeral (wellFormed_integerNumeral n) ?_ fun rest => number_integerNumeral h⟩
  rw [chunks, text_integerNumeral]

theorem roundTrips_float (x : Binary64) : RoundTrips (.float x) := by
  intro depth
  cases x with
  | nan => exact ⟨"NaN".toList, writesAt_word (by simp [words]) (by rw [chunks]; rfl)⟩
  | infinite s =>
    cases s with
    | false => exact ⟨"Infinity".toList, writesAt_word (by simp [words]) (by rw [chunks]; rfl)⟩
    | true => exact ⟨"-Infinity".toList, writesAt_word (by simp [words]) (by rw [chunks]; rfl)⟩
  | finite s u h =>
    obtain ⟨n, hn, htext, hread⟩ := exists_numeral_written s h
    refine ⟨_, writesAt_numeral hn ?_ hread⟩
    rw [chunks, htext]
    rfl

/-! ### Strings -/

theorem writeString_append (s : String) (rest : List Char) :
    writeString s ++ rest = '"' :: (s.toList.flatMap escape ++ '"' :: rest) := by
  simp [writeString]

theorem roundTrips_string (s : String) : RoundTrips (.string s) := by
  intro depth
  refine ⟨writeString s, ?_, ⟨'"', _, rfl, by decide, by decide, by decide⟩, fun rest _ => ?_⟩
  · have h := flushes_nil.cons (writeString s)
    rw [List.append_nil] at h
    rwa [chunks]
  · have hread := gives_readChars_writeString s.toList rest
    rw [writeString_append, readValue, if_pos rfl]
    have hmap := hread.map (fun s => Value.string (String.ofList s))
      (Nat.le_succ (s.toList.flatMap escape ++ '"' :: rest).length)
    rw [String.ofList_toList] at hmap
    exact hmap

/-! ### Lists -/

section Lists

variable {α : Type} {reads : (cs : List Char) → Except ReadFault (Read (List α) cs.length)}
  {bracket : Char}

/-- What is left after an entry of a list: the closing bracket, or a comma and more entries. -/
inductive Follows (reads : (cs : List Char) → Except ReadFault (Read (List α) cs.length))
    (bracket : Char) (left : List Char) : List α → List Char → Prop
  | last {rest : List Char} (close : ∃ hlt, expect? bracket left = some ⟨rest, hlt⟩) :
      Follows reads bracket left [] rest
  | more {entries : List α} {after rest : List Char} (close : expect? bracket left = none)
      (comma : ∃ hlt, expect? ',' left = some ⟨after, hlt⟩)
      (gives : Gives (reads after) entries rest) : Follows reads bracket left entries rest

/-- A text is what is written for an entry of a list, and is read as the entry. -/
structure WritesEntry (reads : (cs : List Char) → Except ReadFault (Read (List α) cs.length))
    (bracket : Char) (cs : List Chunk) (entry : α) (text : List Char) : Prop where
  flushes : Flushes cs text
  begins : Begins text
  gives : ∀ blanks left entries rest, (∀ c ∈ blanks, isBlank c = true) → Ends left →
    Follows reads bracket left entries rest →
      Gives (reads (blanks ++ (text ++ left))) (entry :: entries) rest

/-- The closing line of a list at a depth. -/
def closing (depth : Nat) (bracket : Char) : List Char := lineStart depth ++ [bracket]

theorem flushes_closing (depth : Nat) (bracket : Char) :
    Flushes [newLine depth, .text [bracket]] (closing depth bracket) :=
  (flushes_nil.cons [bracket]).cons (lineStart depth)

/-- The entries of a list are read one after the other, up to the closing bracket. The chunks of
the entries after the first come after a comma and on a line of their own. -/
theorem exists_entries (entryChunks : α → List Chunk) (moreChunks : List α → List Chunk)
    {depth : Nat} (outer : Nat) (hnil : moreChunks [] = [])
    (hcons : ∀ a as, moreChunks (a :: as) =
      .text [','] :: newLine depth :: (entryChunks a ++ moreChunks as))
    (hblank : isBlank bracket = false) (hcomma : ',' ≠ bracket) (a : α) (as : List α)
    (hwrites : ∀ b ∈ a :: as, ∃ text, WritesEntry reads bracket (entryChunks b) b text) :
    ∃ text, Flushes (entryChunks a ++ (moreChunks as ++ [newLine outer, .text [bracket]])) text ∧
      Begins text ∧ ∀ blanks rest, (∀ c ∈ blanks, isBlank c = true) →
        Gives (reads (blanks ++ (text ++ rest))) (a :: as) rest := by
  obtain ⟨text, htext⟩ := hwrites a List.mem_cons_self
  induction as generalizing a text with
  | nil =>
    refine ⟨text ++ closing outer bracket, ?_, htext.begins.append _, fun blanks rest hblanks => ?_⟩
    · rw [hnil]
      exact htext.flushes.append (flushes_closing outer bracket)
    · have hleft : closing outer bracket ++ rest = lineStart outer ++ bracket :: rest := by
        simp [closing]
      rw [List.append_assoc, hleft]
      exact htext.gives _ _ _ _ hblanks (ends_lineStart outer _)
        (.last (expect?_eq_some isBlank_of_mem_lineStart hblank rest))
  | cons b bs ih =>
    obtain ⟨btext, hbtext⟩ := hwrites b (List.mem_cons_of_mem a List.mem_cons_self)
    obtain ⟨more, hflushes, -, hmore⟩ :=
      ih b (fun x hx => hwrites x (List.mem_cons_of_mem a hx)) btext hbtext
    refine ⟨text ++ ',' :: (lineStart depth ++ more), ?_, htext.begins.append _,
      fun blanks rest hblanks => ?_⟩
    · rw [hcons, List.cons_append, List.cons_append, List.append_assoc]
      exact htext.flushes.append ((hflushes.cons (lineStart depth)).cons [','])
    · have hleft : text ++ ',' :: (lineStart depth ++ more) ++ rest =
          text ++ ',' :: (lineStart depth ++ (more ++ rest)) := by simp
      rw [hleft]
      exact htext.gives _ _ _ _ hblanks (ends_cons (by decide))
        (.more (@expect?_eq_none [] (by simp) ',' bracket (by decide) hcomma _)
          (expect?_cons (by decide) _) (hmore _ _ isBlank_of_mem_lineStart))

end Lists

/-! ### Arrays -/

/-- An item is read, and what follows it. -/
theorem gives_readItems {blanks text left rest : List Char} {v : Value} {vs : List Value}
    (hblanks : ∀ c ∈ blanks, isBlank c = true) (hbegins : Begins text)
    (hv : Gives (readValue text) v left) (hvs : Follows readItems ']' left vs rest) :
    Gives (readItems (blanks ++ text)) (v :: vs) rest := by
  obtain ⟨c, cs, rfl, hc, -⟩ := hbegins
  have hskip := skipBlanks_append hblanks hc cs
  obtain ⟨hleft, hv⟩ := hv
  rw [readItems]
  generalize skipBlanks (blanks ++ c :: cs) = s at hskip ⊢
  obtain ⟨s, hs⟩ := s
  subst hskip
  dsimp only
  rw [hv]
  dsimp only [bind, Except.bind]
  cases hvs with
  | last close =>
    obtain ⟨hlt, hclose⟩ := close
    rw [hclose]
    exact ⟨by omega, rfl⟩
  | more close comma gives =>
    obtain ⟨hlt, hcomma⟩ := comma
    rw [close, hcomma]
    exact gives.map (v :: ·) _

theorem writesEntry_item {depth : Nat} {v : Value} (hv : RoundTrips v) :
    ∃ text, WritesEntry readItems ']' (chunks depth v) v text := by
  obtain ⟨text, htext⟩ := hv depth
  exact ⟨text, htext.flushes, htext.begins, fun blanks left vs rest hblanks hleft hvs =>
    gives_readItems hblanks (htext.begins.append left) (htext.gives left hleft) hvs⟩

theorem roundTrips_array {items : List Value} (h : ∀ v ∈ items, RoundTrips v) :
    RoundTrips (.array items) := by
  intro depth
  cases items with
  | nil =>
    refine ⟨['[', ']'], ?_, ⟨'[', _, rfl, by decide, by decide, by decide⟩, fun rest _ => ?_⟩
    · rw [chunks]
      exact flushes_nil.cons ['[', ']']
    · obtain ⟨hlt, hclose⟩ := expect?_cons (c := ']') (by decide) rest
      show Gives (readValue ('[' :: ']' :: rest)) _ _
      rw [readValue, if_neg (by decide), if_pos rfl, hclose]
      exact ⟨_, rfl⟩
  | cons v vs =>
    obtain ⟨text, hflushes, ⟨c, cs, htext, hc, hne, -⟩, hread⟩ :=
      exists_entries (chunks (depth + 1)) (itemChunks (depth + 1)) depth (by rw [itemChunks])
        (fun a as => by rw [itemChunks]; rfl) (by decide) (by decide) v vs
        fun w hw => writesEntry_item (h w hw)
    refine ⟨'[' :: (lineStart (depth + 1) ++ text), ?_,
      ⟨'[', _, rfl, by decide, by decide, by decide⟩, fun rest _ => ?_⟩
    · rw [chunks, List.cons_append, List.cons_append, List.append_assoc, List.cons_append]
      exact (hflushes.cons (lineStart (depth + 1))).cons ['[']
    · have hitems := hread (lineStart (depth + 1)) rest isBlank_of_mem_lineStart
      have hclose :=
        expect?_eq_none (@isBlank_of_mem_lineStart (depth + 1)) hc hne (cs ++ rest)
      rw [← List.cons_append, ← htext] at hclose
      rw [List.cons_append, List.append_assoc, readValue, if_neg (by decide), if_pos rfl, hclose]
      exact hitems.map Value.array _

/-! ### Objects -/

/-- The text of a name and what stands between it and the value. -/
def keyText (key : String) : List Char := writeString key ++ ": ".toList

theorem keyText_append (key : String) (text : List Char) :
    keyText key ++ text = '"' :: (key.toList.flatMap escape ++ '"' :: ':' :: ' ' :: text) := by
  simp [keyText, writeString]

theorem begins_keyText (key : String) : Begins (keyText key) :=
  ⟨'"', _, rfl, by decide, by decide, by decide⟩

/-- A member is read, and what follows it. -/
theorem gives_readMembers {blanks text left rest : List Char} {key : String} {v : Value}
    {members : List (String × Value)} (hblanks : ∀ c ∈ blanks, isBlank c = true)
    (hbegins : Begins text) (hv : Gives (readValue text) v left)
    (hmembers : Follows readMembers '\x7d' left members rest) :
    Gives (readMembers (blanks ++ (keyText key ++ text))) ((key, v) :: members) rest := by
  obtain ⟨c, cs, rfl, hc, -⟩ := hbegins
  obtain ⟨hquote, hopen⟩ := expect?_eq_some hblanks (c := '"') (by decide)
    (key.toList.flatMap escape ++ '"' :: ':' :: ' ' :: c :: cs)
  obtain ⟨hchars, hkey⟩ := gives_readChars_writeString key.toList (':' :: ' ' :: c :: cs)
  obtain ⟨hcolon, hafter⟩ := expect?_cons (c := ':') (by decide) (' ' :: c :: cs)
  have hskip : (skipBlanks (' ' :: c :: cs)).1 = c :: cs :=
    @skipBlanks_append [' '] (by simp [isBlank]) c hc cs
  obtain ⟨hleft, hv⟩ := hv
  rw [keyText_append, readMembers, hopen]
  dsimp only
  rw [hkey]
  dsimp only [bind, Except.bind]
  rw [hafter]
  dsimp only
  generalize skipBlanks (' ' :: c :: cs) = s at hskip ⊢
  obtain ⟨s, hs⟩ := s
  subst hskip
  dsimp only
  rw [hv]
  dsimp only
  rw [String.ofList_toList]
  cases hmembers with
  | last close =>
    obtain ⟨hlt, hclose⟩ := close
    rw [hclose]
    exact ⟨by omega, rfl⟩
  | more close comma gives =>
    obtain ⟨hlt, hcomma⟩ := comma
    rw [close, hcomma]
    exact gives.map ((key, v) :: ·) _

theorem writesEntry_member {depth : Nat} {m : String × Value} (hv : RoundTrips m.2) :
    ∃ text, WritesEntry readMembers '\x7d' (.text (keyText m.1) :: chunks depth m.2) m text := by
  obtain ⟨text, htext⟩ := hv depth
  refine ⟨keyText m.1 ++ text, htext.flushes.cons _, (begins_keyText m.1).append text, ?_⟩
  intro blanks left members rest hblanks hleft hmembers
  rw [List.append_assoc]
  exact gives_readMembers hblanks (htext.begins.append left) (htext.gives left hleft) hmembers

theorem roundTrips_object {members : List (String × Value)} (hnodup : (members.map Prod.fst).Nodup)
    (h : ∀ m ∈ members, RoundTrips m.2) : RoundTrips (.object members) := by
  intro depth
  cases members with
  | nil =>
    refine ⟨['\x7b', '\x7d'], ?_, ⟨'\x7b', _, rfl, by decide, by decide, by decide⟩,
      fun rest _ => ?_⟩
    · rw [chunks]
      exact flushes_nil.cons ['\x7b', '\x7d']
    · obtain ⟨hlt, hclose⟩ := expect?_cons (c := '\x7d') (by decide) rest
      show Gives (readValue ('\x7b' :: '\x7d' :: rest)) _ _
      rw [readValue, if_neg (by decide), if_neg (by decide), if_pos rfl, hclose]
      exact ⟨_, rfl⟩
  | cons m ms =>
    obtain ⟨text, hflushes, ⟨c, cs, htext, hc, -, hne⟩, hread⟩ :=
      exists_entries (fun m => .text (keyText m.1) :: chunks (depth + 1) m.2)
        (memberChunks (depth + 1)) depth (by rw [memberChunks])
        (fun a as => by rw [memberChunks]; rfl) (by decide) (by decide) m ms
        fun w hw => writesEntry_member (h w hw)
    refine ⟨'\x7b' :: (lineStart (depth + 1) ++ text), ?_,
      ⟨'\x7b', _, rfl, by decide, by decide, by decide⟩, fun rest _ => ?_⟩
    · obtain ⟨key, v⟩ := m
      rw [chunks, List.cons_append, List.cons_append, List.cons_append, List.cons_append,
        List.append_assoc]
      exact (hflushes.cons (lineStart (depth + 1))).cons ['\x7b']
    · have hmembers := hread (lineStart (depth + 1)) rest isBlank_of_mem_lineStart
      have hclose :=
        expect?_eq_none (@isBlank_of_mem_lineStart (depth + 1)) hc hne (cs ++ rest)
      rw [← List.cons_append, ← htext] at hclose
      rw [List.cons_append, List.append_assoc, readValue, if_neg (by decide), if_neg (by decide),
        if_pos rfl, hclose]
      have hobject := hmembers.map (fun members => Value.object (ofMembers members))
        (Nat.le_succ (lineStart (depth + 1) ++ (text ++ rest)).length)
      rw [ofMembers_of_nodup hnodup] at hobject
      exact hobject

/-! ## The whole text -/

/-- What is written for a value is read as the value. -/
theorem roundTrips_of_proper {v : Value} (h : v.Proper) : RoundTrips v := by
  induction h with
  | null => exact roundTrips_null
  | bool b => exact roundTrips_bool b
  | integer short => exact roundTrips_integer short
  | float x => exact roundTrips_float x
  | string s => exact roundTrips_string s
  | array _ ih => exact roundTrips_array ih
  | object nodup _ ih => exact roundTrips_object nodup ih

/-- A text stands for a value if there is nothing but blanks around the value. -/
theorem read_eq_ok_iff {text : List Char} {v : Value} :
    read text = .ok v ↔
      ∃ rest, Gives (readValue (skipBlanks text).1) v rest ∧ (skipBlanks rest).1 = [] := by
  unfold read
  dsimp only [bind, Except.bind]
  constructor
  · intro h
    split at h
    · cases h
    · rename_i r hr
      split at h
      · rename_i hends
        cases h
        exact ⟨r.rest, ⟨r.shorter, hr⟩, hends⟩
      · cases h
  · rintro ⟨rest, ⟨hlt, hvalue⟩, hends⟩
    rw [hvalue]
    exact if_pos hends

/-- All of a value is written, and reading gives it back. -/
theorem read_write {v : Value} (h : v.Proper) :
    (write v).2 = true ∧ read (write v).1 = .ok v := by
  obtain ⟨text, hflushes, ⟨c, cs, htext, hc, -⟩, hread⟩ := roundTrips_of_proper h 0
  have hwrite : write v = (text, true) := hflushes
  have hskip : (skipBlanks text).1 = text := by
    rw [htext]
    exact @skipBlanks_append [] (by simp) c hc cs
  have hvalue := hread [] ends_nil
  rw [List.append_nil, ← hskip] at hvalue
  rw [hwrite]
  exact ⟨rfl, read_eq_ok_iff.2 ⟨[], hvalue, rfl⟩⟩

end Json
end Reckon
