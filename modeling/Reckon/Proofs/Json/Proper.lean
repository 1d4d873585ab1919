import Reckon.Proofs.Json.RoundTrip

/-!
# What is read can be written

Reading refuses whole numbers with too many digits, and of members of one name
it keeps one, at every depth. So whatever is read is proper. The members of an
object as they stand in its text are those that reading puts together.

Results:

* `proper_of_read`: a value that has been read is proper.
* `read_eq_object_iff`: what an object is read as, by the members in its text.
-/

namespace Reckon
namespace Json

theorem exists_of_map_eq_ok {ε α β : Type} {f : α → β} {x : Except ε α} {b : β}
    (h : x.map f = .ok b) : ∃ a, x = .ok a ∧ f a = b := by
  cases x with
  | error e => cases h
  | ok a => exact ⟨a, rfl, Except.ok.inj h⟩

/-! ## Numbers -/

theorem isAsciiDigit_of_mem_wholeRun {cs : List Char} {c : Char} (h : c ∈ (wholeRun cs).1) :
    Text.isAsciiDigit c = true := by
  unfold wholeRun at h
  split at h
  · rw [List.mem_singleton.1 h]
    decide
  · exact List.mem_takeWhile_imp h

/-- A number is a whole number without too many digits or a double. -/
theorem number_cases {cs rest : List Char} {v : Value} (h : number cs = .ok (v, rest)) :
    (∃ n, v = .integer n ∧ (Decimal.digits n.natAbs).length ≤ Entry.maxDigits) ∨
      ∃ x, v = .float x := by
  unfold number at h
  -- the sign is split off before the parts are looked at
  split at h
  all_goals
    dsimp only at h
    split at h
    · cases h
    · rename_i hne
      split at h
      · split at h
        · cases h
        · rename_i hshort
          have hlength := Decimal.length_digits_ofDigits_le hne fun c hc =>
            isAsciiDigit_of_mem_wholeRun hc
          refine .inl ⟨_, (Prod.mk.inj (Except.ok.inj h)).1.symm, ?_⟩
          rw [Entry.natAbs_signed]
          exact Nat.le_trans hlength (Nat.not_lt.1 hshort)
      · exact .inr ⟨_, (Prod.mk.inj (Except.ok.inj h)).1.symm⟩

/-- A value that is read without a bracket, a brace or a quote: it is proper, and no object. -/
def Value.Plain (v : Value) : Prop := v.Proper ∧ ∀ members, v ≠ .object members

theorem plain_of_readNumber {cs : List Char} {r : Read Value cs.length}
    (h : readNumber cs = .ok r) : r.value.Plain := by
  unfold readNumber at h
  split at h
  · cases h
  · rename_i v rest hnumber
    split at h
    · cases h
      rcases number_cases hnumber with ⟨n, rfl, hn⟩ | ⟨x, rfl⟩
      · exact ⟨.integer hn, fun _ => Value.noConfusion⟩
      · exact ⟨.float x, fun _ => Value.noConfusion⟩
    · cases h

theorem plain_of_mem_words {w : List Char × Value} (h : w ∈ words) : w.2.Plain := by
  simp only [words, List.mem_cons, List.not_mem_nil, or_false] at h
  rcases h with rfl | rfl | rfl | rfl | rfl | rfl
  · exact ⟨.null, fun _ => Value.noConfusion⟩
  · exact ⟨.bool true, fun _ => Value.noConfusion⟩
  · exact ⟨.bool false, fun _ => Value.noConfusion⟩
  all_goals exact ⟨.float _, fun _ => Value.noConfusion⟩

theorem plain_of_readWord? {cs : List Char} {r : Read Value cs.length}
    (h : readWord? cs = some r) : r.value.Plain := by
  obtain ⟨⟨word, v⟩, hw, hread⟩ := List.exists_of_findSome?_eq_some h
  dsimp only at hread
  split at hread
  · cases hread
    exact plain_of_mem_words hw
  · cases hread

/-! ## Values -/

/-- Whatever is read from a text of at most this length is proper. -/
structure ProperUpTo (n : Nat) : Prop where
  value : ∀ cs r, cs.length ≤ n → readValue cs = .ok r → r.value.Proper
  items : ∀ cs r, cs.length ≤ n → readItems cs = .ok r → ∀ v ∈ r.value, v.Proper
  members : ∀ cs r, cs.length ≤ n → readMembers cs = .ok r → ∀ m ∈ r.value, m.2.Proper

theorem proper_ofMembers {members : List (String × Value)} (h : ∀ m ∈ members, m.2.Proper) :
    (Value.object (ofMembers members)).Proper := by
  refine .object (nodup_ofMembers members) ?_
  intro m hm
  rcases mem_or_mem_of_mem_putMembers hm with hm | hm
  · exact h m hm
  · cases hm

theorem proper_of_readValue {n : Nat} (ih : ∀ m < n, ProperUpTo m) {cs : List Char}
    {r : Read Value cs.length} (hn : cs.length ≤ n) (h : readValue cs = .ok r) :
    r.value.Proper := by
  cases cs with
  | nil =>
    rw [readValue] at h
    cases h
  | cons c cs =>
    have hshorter := ih cs.length hn
    rw [readValue] at h
    split at h
    · obtain ⟨s, -, rfl⟩ := exists_of_map_eq_ok h
      exact .string _
    split at h
    · split at h
      · cases h
        exact .array (List.forall_mem_nil _)
      · obtain ⟨items, hitems, rfl⟩ := exists_of_map_eq_ok h
        exact .array (hshorter.items cs items (Nat.le_refl _) hitems)
    split at h
    · split at h
      · cases h
        exact .object List.nodup_nil (List.forall_mem_nil _)
      · obtain ⟨members, hmembers, rfl⟩ := exists_of_map_eq_ok h
        exact proper_ofMembers (hshorter.members cs members (Nat.le_refl _) hmembers)
    split at h
    · cases h
      exact (plain_of_readWord? ‹_›).1
    · exact (plain_of_readNumber h).1

theorem proper_of_readItems {n : Nat} (ih : ∀ m < n, ProperUpTo m) {cs : List Char}
    {r : Read (List Value) cs.length} (hn : cs.length ≤ n) (h : readItems cs = .ok r) :
    ∀ v ∈ r.value, v.Proper := by
  rw [readItems] at h
  generalize skipBlanks cs = s at h
  obtain ⟨text, htext⟩ := s
  dsimp only [bind, Except.bind] at h
  split at h
  · cases h
  · rename_i item hitem
    have hproper := proper_of_readValue ih (Nat.le_trans htext hn) hitem
    obtain ⟨v, left, hleft⟩ := item
    dsimp only at h
    split at h
    · cases h
      intro w hw
      rw [List.mem_singleton.1 hw]
      exact hproper
    · split at h
      · rename_i rest hrest _
        obtain ⟨items, hitems, rfl⟩ := exists_of_map_eq_ok h
        have hshorter := (ih rest.length (by omega)).items rest items (Nat.le_refl _) hitems
        intro w hw
        rcases List.mem_cons.1 hw with rfl | hw
        · exact hproper
        · exact hshorter w hw
      · cases h

theorem proper_of_readMembers {n : Nat} (ih : ∀ m < n, ProperUpTo m) {cs : List Char}
    {r : Read (List (String × Value)) cs.length} (hn : cs.length ≤ n)
    (h : readMembers cs = .ok r) : ∀ m ∈ r.value, m.2.Proper := by
  rw [readMembers] at h
  split at h
  · cases h
  rename_i keyText hkey _
  dsimp only [bind, Except.bind] at h
  split at h
  · cases h
  rename_i key _
  split at h
  · cases h
  rename_i afterColon hcolon _
  generalize skipBlanks afterColon = s at h
  obtain ⟨text, htext⟩ := s
  dsimp only at h
  split at h
  · cases h
  rename_i item hitem
  have hkeyShorter := key.shorter
  have hproper := proper_of_readValue ih (by omega) hitem
  split at h
  · cases h
    intro m hm
    rw [List.mem_singleton.1 hm]
    exact hproper
  · split at h
    · rename_i rest hrest _
      have hleft := item.shorter
      obtain ⟨members, hmembers, rfl⟩ := exists_of_map_eq_ok h
      have hshorter := (ih rest.length (by omega)).members rest members (Nat.le_refl _) hmembers
      intro m hm
      rcases List.mem_cons.1 hm with rfl | hm
      · exact hproper
      · exact hshorter m hm
    · cases h

theorem properUpTo (n : Nat) : ProperUpTo n := by
  induction n using Nat.strongRecOn with
  | ind n ih =>
    exact ⟨fun _ _ => proper_of_readValue ih, fun _ _ => proper_of_readItems ih,
      fun _ _ => proper_of_readMembers ih⟩

/-- A value that has been read is proper. -/
theorem proper_of_read {text : List Char} {v : Value} (h : read text = .ok v) : v.Proper := by
  obtain ⟨rest, ⟨hlt, hvalue⟩, -⟩ := read_eq_ok_iff.1 h
  exact (properUpTo _).value _ _ (Nat.le_refl _) hvalue

/-! ## Objects -/

/-- The text is an object with these members, in the order in which they stand in it and with all
members of one name. -/
inductive HasMembers (text : List Char) : List (String × Value) → Prop
  | none {cs rest : List Char} (opening : (skipBlanks text).1 = '\x7b' :: cs)
      (closing : ∃ hlt, expect? '\x7d' cs = some ⟨rest, hlt⟩) (ends : (skipBlanks rest).1 = []) :
      HasMembers text []
  | some {cs rest : List Char} {members : List (String × Value)}
      (opening : (skipBlanks text).1 = '\x7b' :: cs) (closing : expect? '\x7d' cs = none)
      (gives : Gives (readMembers cs) members rest) (ends : (skipBlanks rest).1 = []) :
      HasMembers text members

theorem HasMembers.gives {text : List Char} {all : List (String × Value)}
    (h : HasMembers text all) :
    ∃ rest, Gives (readValue (skipBlanks text).1) (.object (ofMembers all)) rest ∧
      (skipBlanks rest).1 = [] := by
  cases h with
  | none opening closing ends =>
    obtain ⟨hlt, hclosing⟩ := closing
    refine ⟨_, ?_, ends⟩
    rw [opening, readValue, if_neg (by decide), if_neg (by decide), if_pos rfl, hclosing]
    exact ⟨_, rfl⟩
  | some opening closing gives ends =>
    refine ⟨_, ?_, ends⟩
    rw [opening, readValue, if_neg (by decide), if_neg (by decide), if_pos rfl, closing]
    exact gives.map (fun members => Value.object (ofMembers members)) _

/-- Only a text that begins with a brace is read as an object. -/
theorem hasMembers_of_gives {text rest : List Char} {members : List (String × Value)}
    (h : Gives (readValue (skipBlanks text).1) (.object members) rest)
    (ends : (skipBlanks rest).1 = []) :
    ∃ all, HasMembers text all ∧ members = ofMembers all := by
  obtain ⟨hlt, h⟩ := h
  generalize hs : (skipBlanks text).1 = s at hlt h
  cases s with
  | nil =>
    rw [readValue] at h
    cases h
  | cons c cs =>
    rw [readValue] at h
    split at h
    · obtain ⟨s, -, heq⟩ := exists_of_map_eq_ok h
      cases congrArg Read.value heq
    split at h
    · split at h
      · cases congrArg Read.value (Except.ok.inj h)
      · obtain ⟨items, -, heq⟩ := exists_of_map_eq_ok h
        cases congrArg Read.value heq
    split at h
    · rename_i hbrace
      subst hbrace
      split at h
      · rename_i rest' hlt' hclosing
        cases h
        exact ⟨[], .none hs ⟨hlt', hclosing⟩ ends, rfl⟩
      · rename_i hclosing
        obtain ⟨all, hall, heq⟩ := exists_of_map_eq_ok h
        cases heq
        exact ⟨all.value, .some hs hclosing ⟨all.shorter, hall⟩ ends, rfl⟩
    split at h
    · cases h
      exact absurd rfl ((plain_of_readWord? ‹_›).2 members)
    · exact absurd rfl ((plain_of_readNumber h).2 members)

/-- What an object is read as: of several members of one name the last one in the place of the
first. -/
theorem read_eq_object_iff {text : List Char} {members : List (String × Value)} :
    read text = .ok (.object members) ↔
      ∃ all, HasMembers text all ∧ members = ofMembers all := by
  rw [read_eq_ok_iff]
  constructor
  · rintro ⟨rest, hvalue, hends⟩
    exact hasMembers_of_gives hvalue hends
  · rintro ⟨all, hall, rfl⟩
    exact hall.gives

end Json
end Reckon
