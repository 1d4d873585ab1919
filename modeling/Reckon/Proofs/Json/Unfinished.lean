import Reckon.Proofs.Json.RoundTrip

/-!
# Writing that ends too early

Writing a value ends at the first of its parts that has no text. By then the
brackets around the part have been opened and not been closed, so what has been
written is read as no value, however much of it there is: reading goes through the
entries before the part as through those of any list, and comes to the end of the
text in the place of the next one. The induction is on the value; the entries of a
list are gone through one after the other up to the first that is cut off.

Results:

* `write_snd_iff`: which values are written in full.
* `cutsShort_of_held`: what is written of the others is corrupt, at any depth.
* `read_write_of_cutsShort`: so it is as all of a text.
-/

namespace Reckon
namespace Json

/-- Some part of the value has no text. -/
inductive Value.Textless : Value → Prop
  | unwritable : Textless .unwritable
  | item {items : List Value} {v : Value} (mem : v ∈ items) (textless : Textless v) :
      Textless (.array items)
  | member {members : List (String × Value)} {m : String × Value} (mem : m ∈ members)
      (textless : Textless m.2) : Textless (.object members)

/-- A value that a program holds: like a proper one, but its parts need not have a text. -/
inductive Value.Held : Value → Prop
  | null : Held .null
  | bool (b : Bool) : Held (.bool b)
  | integer {n : Int} (short : (Decimal.digits n.natAbs).length ≤ Entry.maxDigits) :
      Held (.integer n)
  | float (x : Binary64) : Held (.float x)
  | string (s : String) : Held (.string s)
  | array {items : List Value} (held : ∀ v ∈ items, Held v) : Held (.array items)
  | object {members : List (String × Value)} (nodup : (members.map Prod.fst).Nodup)
      (held : ∀ m ∈ members, Held m.2) : Held (.object members)
  | unwritable : Held .unwritable

/-- A value whose parts all have a text is proper. -/
theorem Value.Held.proper_or_textless {v : Value} (h : v.Held) : v.Proper ∨ v.Textless := by
  induction h with
  | null => exact .inl .null
  | bool b => exact .inl (.bool b)
  | integer short => exact .inl (.integer short)
  | float x => exact .inl (.float x)
  | string s => exact .inl (.string s)
  | unwritable => exact .inr .unwritable
  | @array items _ ih =>
    by_cases hall : ∀ v ∈ items, v.Proper
    · exact .inl (.array hall)
    · push Not at hall
      obtain ⟨v, hv, hproper⟩ := hall
      exact .inr (.item hv ((ih v hv).resolve_left hproper))
  | @object members nodup _ ih =>
    by_cases hall : ∀ m ∈ members, m.2.Proper
    · exact .inl (.object nodup hall)
    · push Not at hall
      obtain ⟨m, hm, hproper⟩ := hall
      exact .inr (.member hm ((ih m hm).resolve_left hproper))

/-! ## What is written in full -/

variable {depth : Nat}

theorem flush_snd_iff {cs : List Chunk} : (flush cs).2 = true ↔ .stuck ∉ cs := by
  induction cs with
  | nil => simp [flush]
  | cons c cs ih => cases c <;> simp [flush, ih]

theorem stuck_mem_itemChunks {vs : List Value} :
    .stuck ∈ itemChunks depth vs ↔ ∃ v ∈ vs, .stuck ∈ chunks depth v := by
  induction vs with
  | nil => simp [itemChunks]
  | cons v vs ih => simp [itemChunks, newLine, ih]

theorem stuck_mem_memberChunks {members : List (String × Value)} :
    .stuck ∈ memberChunks depth members ↔ ∃ m ∈ members, .stuck ∈ chunks depth m.2 := by
  induction members with
  | nil => simp [memberChunks]
  | cons m members ih =>
    obtain ⟨key, v⟩ := m
    simp [memberChunks, newLine, ih]

theorem stuck_mem_array {items : List Value} :
    .stuck ∈ chunks depth (.array items) ↔ ∃ v ∈ items, .stuck ∈ chunks (depth + 1) v := by
  cases items with
  | nil => simp [chunks]
  | cons v vs => simp [chunks, newLine, stuck_mem_itemChunks]

theorem stuck_mem_object {members : List (String × Value)} :
    .stuck ∈ chunks depth (.object members) ↔
      ∃ m ∈ members, .stuck ∈ chunks (depth + 1) m.2 := by
  cases members with
  | nil => simp [chunks]
  | cons m ms =>
    obtain ⟨key, v⟩ := m
    simp [chunks, newLine, stuck_mem_memberChunks]

theorem textless_of_stuck_mem : (v : Value) → (depth : Nat) → .stuck ∈ chunks depth v → v.Textless
  | .unwritable, _, _ => .unwritable
  | .array _, depth, h => by
    obtain ⟨v, hv, hstuck⟩ := stuck_mem_array.1 h
    exact .item hv (textless_of_stuck_mem v (depth + 1) hstuck)
  | .object _, depth, h => by
    obtain ⟨⟨key, v⟩, hm, hstuck⟩ := stuck_mem_object.1 h
    exact .member hm (textless_of_stuck_mem v (depth + 1) hstuck)
  | .null, _, h | .bool _, _, h | .integer _, _, h | .float _, _, h | .string _, _, h => by
    simp [chunks] at h
termination_by v => sizeOf v
decreasing_by
  · have hlt := List.sizeOf_lt_of_mem hv
    simp only [Value.array.sizeOf_spec]
    omega
  · have hlt := List.sizeOf_lt_of_mem hm
    simp only [Prod.mk.sizeOf_spec] at hlt
    simp only [Value.object.sizeOf_spec]
    omega

/-- Writing gets stuck exactly at a part without a text. -/
theorem stuck_mem_chunks_iff {v : Value} : .stuck ∈ chunks depth v ↔ v.Textless := by
  refine ⟨textless_of_stuck_mem v depth, fun h => ?_⟩
  induction h generalizing depth with
  | unwritable => simp [chunks]
  | item mem _ ih => exact stuck_mem_array.2 ⟨_, mem, ih⟩
  | member mem _ ih => exact stuck_mem_object.2 ⟨_, mem, ih⟩

/-- A value is written in full if and only if all its parts have a text. -/
theorem write_snd_iff {v : Value} : (write v).2 = true ↔ ¬ v.Textless := by
  rw [write, flush_snd_iff, stuck_mem_chunks_iff]

/-! ## What is cut off -/

/-- Writing ends early, after the text. -/
def CutsOff (cs : List Chunk) (text : List Char) : Prop := flush cs = (text, false)

theorem cutsOff_stuck (cs : List Chunk) : CutsOff (.stuck :: cs) [] := rfl

theorem CutsOff.cons {cs : List Chunk} {text : List Char} (h : CutsOff cs text)
    (run : List Char) : CutsOff (.text run :: cs) (run ++ text) := by
  unfold CutsOff at h ⊢
  rw [flush, h]

/-- What comes after the end is not written. -/
theorem CutsOff.append {cs : List Chunk} {text : List Char} (h : CutsOff cs text)
    (ds : List Chunk) : CutsOff (cs ++ ds) text := by
  induction cs generalizing text with
  | nil => cases h
  | cons c cs ih =>
    cases c with
    | stuck => exact h
    | text run =>
      unfold CutsOff at h
      rw [flush] at h
      obtain ⟨rfl, hcut⟩ := Prod.mk.inj h
      exact (ih (Prod.ext rfl hcut)).cons run

theorem Flushes.cutsOff {cs ds : List Chunk} {s t : List Char} (hs : Flushes cs s)
    (ht : CutsOff ds t) : CutsOff (cs ++ ds) (s ++ t) := by
  unfold CutsOff at ht ⊢
  rw [hs.flush_append, ht]

/-- A text that may have been cut off before anything of it was written. -/
def BeginsOrEnds (text : List Char) : Prop := text = [] ∨ Begins text

theorem BeginsOrEnds.skipBlanks_append {text blanks : List Char} (h : BeginsOrEnds text)
    (hblanks : ∀ c ∈ blanks, isBlank c = true) : (skipBlanks (blanks ++ text)).1 = text := by
  rcases h with rfl | ⟨c, cs, rfl, hc, -⟩
  · exact Text.dropWhile_run hblanks Text.stops_nil
  · exact Json.skipBlanks_append hblanks hc cs

/-- A list that has been cut off is not taken for an empty one. -/
theorem BeginsOrEnds.expect?_eq_none {text blanks : List Char} (h : BeginsOrEnds text)
    (hblanks : ∀ c ∈ blanks, isBlank c = true) {bracket : Char}
    (hbracket : bracket = ']' ∨ bracket = '\x7d') : expect? bracket (blanks ++ text) = none := by
  rw [expect?, dif_neg]
  rw [h.skipBlanks_append hblanks]
  rcases h with rfl | ⟨c, cs, rfl, -, hsquare, hcurly⟩
  · simp
  · rcases hbracket with rfl | rfl
    · simpa using hsquare
    · simpa using hcurly

/-- A text is what is written for a value at a depth before writing ends early, and it is
corrupt. -/
structure CutsAt (depth : Nat) (v : Value) (text : List Char) : Prop where
  cutsOff : CutsOff (chunks depth v) text
  begins : BeginsOrEnds text
  corrupt : readValue text = .error .corrupt

/-- Writing the value ends early, at any depth, and what is written is corrupt. -/
def CutsShort (v : Value) : Prop := ∀ depth, ∃ text, CutsAt depth v text

theorem cutsShort_unwritable : CutsShort .unwritable := by
  intro depth
  refine ⟨[], ?_, .inl rfl, ?_⟩
  · rw [chunks]
    exact cutsOff_stuck []
  · rw [readValue]

/-! ### Lists -/

section Lists

variable {α : Type} {reads : (cs : List Char) → Except ReadFault (Read (List α) cs.length)}
  {bracket : Char}

/-- Reading comes to the end of the text in the value that it begins with, or in the entries after
this value. -/
inductive RunsOut (reads : (cs : List Char) → Except ReadFault (Read (List α) cs.length))
    (bracket : Char) (text : List Char) : Prop
  | value (corrupt : readValue text = .error .corrupt) : RunsOut reads bracket text
  | later {v : Value} {left after : List Char} (gives : Gives (readValue text) v left)
      (close : expect? bracket left = none) (comma : ∃ hlt, expect? ',' left = some ⟨after, hlt⟩)
      (corrupt : reads after = .error .corrupt) : RunsOut reads bracket text

/-- A text is what is written for an entry of a list. Where the entries after it are corrupt,
reading says so. -/
structure PassesEntry (reads : (cs : List Char) → Except ReadFault (Read (List α) cs.length))
    (bracket : Char) (cs : List Chunk) (text : List Char) : Prop where
  flushes : Flushes cs text
  begins : Begins text
  corrupt : ∀ blanks left after, (∀ c ∈ blanks, isBlank c = true) → Ends left →
    expect? bracket left = none → (∃ hlt, expect? ',' left = some ⟨after, hlt⟩) →
      reads after = .error .corrupt → reads (blanks ++ (text ++ left)) = .error .corrupt

/-- A text is what is written for entries of a list before writing ends early, and is corrupt. -/
structure CutsEntry (reads : (cs : List Char) → Except ReadFault (Read (List α) cs.length))
    (cs : List Chunk) (text : List Char) : Prop where
  cutsOff : CutsOff cs text
  begins : BeginsOrEnds text
  corrupt : ∀ blanks, (∀ c ∈ blanks, isBlank c = true) → reads (blanks ++ text) = .error .corrupt

theorem CutsEntry.append {cs : List Chunk} {text : List Char} (h : CutsEntry reads cs text)
    (ds : List Chunk) : CutsEntry reads (cs ++ ds) text :=
  ⟨h.cutsOff.append ds, h.begins, h.corrupt⟩

/-- Entries are written one after the other, up to the first that is cut off. -/
theorem exists_cutEntries (entryChunks : α → List Chunk) (moreChunks : List α → List Chunk)
    {depth : Nat} (hcons : ∀ a as, moreChunks (a :: as) =
      .text [','] :: newLine depth :: (entryChunks a ++ moreChunks as))
    (hcomma : ',' ≠ bracket) (a : α) (as : List α)
    (hentries : ∀ b ∈ a :: as, (∃ text, PassesEntry reads bracket (entryChunks b) text) ∨
      ∃ text, CutsEntry reads (entryChunks b) text)
    (hcut : ∃ b ∈ a :: as, ∃ text, CutsEntry reads (entryChunks b) text) (ds : List Chunk) :
    ∃ text, CutsEntry reads (entryChunks a ++ (moreChunks as ++ ds)) text := by
  induction as generalizing a with
  | nil =>
    obtain ⟨b, hb, text, htext⟩ := hcut
    obtain rfl := List.mem_singleton.1 hb
    exact ⟨text, htext.append _⟩
  | cons c as ih =>
    rcases hentries a List.mem_cons_self with ⟨text, htext⟩ | ⟨text, htext⟩
    · have hlater : ∃ b ∈ c :: as, ∃ text, CutsEntry reads (entryChunks b) text := by
        obtain ⟨b, hb, s, hs⟩ := hcut
        rcases List.mem_cons.1 hb with rfl | hb
        · -- the first entry is written in full, and cannot be the one that is cut off
          have hflush := htext.flushes
          rw [Flushes, hs.cutsOff] at hflush
          cases hflush
        · exact ⟨b, hb, s, hs⟩
      obtain ⟨more, hmore⟩ := ih c (fun b hb => hentries b (List.mem_cons_of_mem a hb)) hlater
      have hleft := hmore.corrupt (lineStart depth) isBlank_of_mem_lineStart
      refine ⟨text ++ ',' :: (lineStart depth ++ more), ?_, .inr (htext.begins.append _),
        fun blanks hblanks => ?_⟩
      · rw [hcons, List.cons_append, List.cons_append, List.append_assoc]
        exact htext.flushes.cutsOff ((hmore.cutsOff.cons (lineStart depth)).cons [','])
      · exact htext.corrupt blanks _ _ hblanks (ends_cons (by decide))
          (@expect?_eq_none [] (by simp) ',' bracket (by decide) hcomma _)
          (expect?_cons (by decide) _) hleft
    · exact ⟨text, htext.append _⟩

end Lists

/-! ### Arrays -/

theorem readItems_eq_corrupt {blanks text : List Char} (hblanks : ∀ c ∈ blanks, isBlank c = true)
    (hbegins : BeginsOrEnds text) (h : RunsOut readItems ']' text) :
    readItems (blanks ++ text) = .error .corrupt := by
  have hskip := hbegins.skipBlanks_append hblanks
  rw [← hskip] at h
  rw [readItems]
  generalize skipBlanks (blanks ++ text) = s at h ⊢
  obtain ⟨s, hs⟩ := s
  dsimp only at h ⊢
  cases h with
  | value corrupt =>
    rw [corrupt]
    rfl
  | later gives close comma corrupt =>
    obtain ⟨hlt, hread⟩ := gives
    obtain ⟨hshorter, hcomma⟩ := comma
    rw [hread]
    dsimp only [bind, Except.bind]
    rw [close, hcomma]
    dsimp only
    rw [corrupt]
    rfl

theorem passesEntry_item {depth : Nat} {v : Value} (hv : RoundTrips v) :
    ∃ text, PassesEntry readItems ']' (chunks depth v) text := by
  obtain ⟨text, htext⟩ := hv depth
  exact ⟨text, htext.flushes, htext.begins,
    fun blanks left after hblanks hleft hclose hcomma hafter =>
      readItems_eq_corrupt hblanks (.inr (htext.begins.append left))
        (.later (htext.gives left hleft) hclose hcomma hafter)⟩

theorem cutsEntry_item {depth : Nat} {v : Value} (hv : CutsShort v) :
    ∃ text, CutsEntry readItems (chunks depth v) text := by
  obtain ⟨text, htext⟩ := hv depth
  exact ⟨text, htext.cutsOff, htext.begins, fun blanks hblanks =>
    readItems_eq_corrupt hblanks htext.begins (.value htext.corrupt)⟩

theorem cutsShort_array {items : List Value} (h : ∀ v ∈ items, RoundTrips v ∨ CutsShort v)
    (hcut : ∃ v ∈ items, CutsShort v) : CutsShort (.array items) := by
  intro depth
  cases items with
  | nil =>
    obtain ⟨v, hv, -⟩ := hcut
    cases hv
  | cons v vs =>
    obtain ⟨w, hw, hcut⟩ := hcut
    obtain ⟨text, htext⟩ :=
      exists_cutEntries (chunks (depth + 1)) (itemChunks (depth + 1))
        (fun a as => by rw [itemChunks]; rfl) (by decide) v vs
        (fun w hw => (h w hw).imp passesEntry_item cutsEntry_item) ⟨w, hw, cutsEntry_item hcut⟩
        [newLine depth, .text [']']]
    refine ⟨'[' :: (lineStart (depth + 1) ++ text), ?_,
      .inr ⟨'[', _, rfl, by decide, by decide, by decide⟩, ?_⟩
    · rw [chunks, List.cons_append, List.cons_append, List.append_assoc, List.cons_append]
      exact (htext.cutsOff.cons (lineStart (depth + 1))).cons ['[']
    · have hclose := htext.begins.expect?_eq_none (@isBlank_of_mem_lineStart (depth + 1)) (.inl rfl)
      have hitems := htext.corrupt (lineStart (depth + 1)) isBlank_of_mem_lineStart
      rw [readValue, if_neg (by decide), if_pos rfl, hclose]
      dsimp only
      rw [hitems]
      rfl

/-! ### Objects -/

theorem readMembers_eq_corrupt {blanks text : List Char}
    (hblanks : ∀ c ∈ blanks, isBlank c = true) (key : String) (hbegins : BeginsOrEnds text)
    (h : RunsOut readMembers '\x7d' text) :
    readMembers (blanks ++ (keyText key ++ text)) = .error .corrupt := by
  obtain ⟨hquote, hopen⟩ := expect?_eq_some hblanks (c := '"') (by decide)
    (key.toList.flatMap escape ++ '"' :: ':' :: ' ' :: text)
  obtain ⟨hchars, hkey⟩ := gives_readChars_writeString key.toList (':' :: ' ' :: text)
  obtain ⟨hcolon, hafter⟩ := expect?_cons (c := ':') (by decide) (' ' :: text)
  have hskip : (skipBlanks ([' '] ++ text)).1 = text :=
    hbegins.skipBlanks_append (by simp [isBlank])
  rw [List.singleton_append] at hskip
  rw [← hskip] at h
  rw [keyText_append, readMembers, hopen]
  dsimp only
  rw [hkey]
  dsimp only [bind, Except.bind]
  rw [hafter]
  dsimp only
  generalize skipBlanks (' ' :: text) = s at h ⊢
  obtain ⟨s, hs⟩ := s
  dsimp only at h ⊢
  cases h with
  | value corrupt => rw [corrupt]
  | later gives close comma corrupt =>
    obtain ⟨hlt, hread⟩ := gives
    obtain ⟨hshorter, hcomma⟩ := comma
    rw [hread]
    dsimp only
    rw [close, hcomma]
    dsimp only
    rw [corrupt]
    rfl

theorem passesEntry_member {depth : Nat} {m : String × Value} (hv : RoundTrips m.2) :
    ∃ text, PassesEntry readMembers '\x7d' (.text (keyText m.1) :: chunks depth m.2) text := by
  obtain ⟨text, htext⟩ := hv depth
  refine ⟨keyText m.1 ++ text, htext.flushes.cons _, (begins_keyText m.1).append text, ?_⟩
  intro blanks left after hblanks hleft hclose hcomma hafter
  rw [List.append_assoc]
  exact readMembers_eq_corrupt hblanks m.1 (.inr (htext.begins.append left))
    (.later (htext.gives left hleft) hclose hcomma hafter)

theorem cutsEntry_member {depth : Nat} {m : String × Value} (hv : CutsShort m.2) :
    ∃ text, CutsEntry readMembers (.text (keyText m.1) :: chunks depth m.2) text := by
  obtain ⟨text, htext⟩ := hv depth
  exact ⟨keyText m.1 ++ text, htext.cutsOff.cons _, .inr ((begins_keyText m.1).append text),
    fun blanks hblanks =>
      readMembers_eq_corrupt hblanks m.1 htext.begins (.value htext.corrupt)⟩

/-- It does not matter whether names are different: no member is ever put with the others. -/
theorem cutsShort_object {members : List (String × Value)}
    (h : ∀ m ∈ members, RoundTrips m.2 ∨ CutsShort m.2) (hcut : ∃ m ∈ members, CutsShort m.2) :
    CutsShort (.object members) := by
  intro depth
  cases members with
  | nil =>
    obtain ⟨m, hm, -⟩ := hcut
    cases hm
  | cons m ms =>
    obtain ⟨n, hn, hcut⟩ := hcut
    obtain ⟨text, htext⟩ :=
      exists_cutEntries (fun m => .text (keyText m.1) :: chunks (depth + 1) m.2)
        (memberChunks (depth + 1)) (fun a as => by rw [memberChunks]; rfl) (by decide) m ms
        (fun n hn => (h n hn).imp passesEntry_member cutsEntry_member)
        ⟨n, hn, cutsEntry_member hcut⟩ [newLine depth, .text ['\x7d']]
    refine ⟨'\x7b' :: (lineStart (depth + 1) ++ text), ?_,
      .inr ⟨'\x7b', _, rfl, by decide, by decide, by decide⟩, ?_⟩
    · obtain ⟨key, v⟩ := m
      rw [chunks, List.cons_append, List.cons_append, List.cons_append, List.cons_append,
        List.append_assoc]
      exact (htext.cutsOff.cons (lineStart (depth + 1))).cons ['\x7b']
    · have hclose := htext.begins.expect?_eq_none (@isBlank_of_mem_lineStart (depth + 1)) (.inr rfl)
      have hmembers := htext.corrupt (lineStart (depth + 1)) isBlank_of_mem_lineStart
      rw [readValue, if_neg (by decide), if_neg (by decide), if_pos rfl, hclose]
      dsimp only
      rw [hmembers]
      rfl

/-! ## The whole text -/

/-- What a program holds is written and read back, or writing ends early. -/
theorem Value.Held.roundTrips_or_cutsShort {v : Value} (h : v.Held)
    (hcut : v.Textless → CutsShort v) : RoundTrips v ∨ CutsShort v :=
  h.proper_or_textless.imp roundTrips_of_proper hcut

/-- What is written of a value with a part without a text is corrupt. -/
theorem cutsShort_of_held {v : Value} (h : v.Held) (htextless : v.Textless) : CutsShort v := by
  induction h with
  | unwritable => exact cutsShort_unwritable
  | @array items held ih =>
    cases htextless with
    | @item _ v mem textless =>
      exact cutsShort_array (fun w hw => (held w hw).roundTrips_or_cutsShort (ih w hw))
        ⟨v, mem, ih v mem textless⟩
  | @object members _ held ih =>
    cases htextless with
    | @member _ m mem textless =>
      exact cutsShort_object (fun n hn => (held n hn).roundTrips_or_cutsShort (ih n hn))
        ⟨m, mem, ih m mem textless⟩
  | null | bool | integer | float | string => cases htextless

/-- What has been written of all of a text is corrupt. -/
theorem read_write_of_cutsShort {v : Value} (h : CutsShort v) :
    (write v).2 = false ∧ read (write v).1 = .error .corrupt := by
  obtain ⟨text, hcut, hbegins, hcorrupt⟩ := h 0
  have hwrite : write v = (text, false) := hcut
  have hskip : (skipBlanks text).1 = text := hbegins.skipBlanks_append (List.forall_mem_nil _)
  rw [hwrite]
  refine ⟨rfl, ?_⟩
  rw [← hskip] at hcorrupt
  rw [read, hcorrupt]
  rfl

end Json
end Reckon
