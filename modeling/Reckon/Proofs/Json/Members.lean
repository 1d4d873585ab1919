import Mathlib.Data.List.Infix
import Reckon.Json.Reader

/-!
# Members of objects

A member is put in the place of one of the same name, or at the end. So of
several members of a name the last one counts (`lastValue?`), names keep their
order, and putting the members of an object on top of those it began with gives
the object again.

Results:

* `lookup_putMembers`: the value of a name after members have been put.
* `putMembers_of_isPrefix`: members that begin with the names of others, put on top of these.
-/

namespace Reckon
namespace Json

/-- The members with others put one after the other. -/
def putMembers (base members : List (String × Value)) : List (String × Value) :=
  members.foldl (fun all m => putMember all m.1 m.2) base

/-- The value of the last member of a name. -/
def lastValue? (key : String) (members : List (String × Value)) : Option Value :=
  members.reverse.lookup key

variable {base members : List (String × Value)}

theorem ofMembers_eq_putMembers (members : List (String × Value)) :
    ofMembers members = putMembers [] members := rfl

@[simp] theorem putMembers_nil (base : List (String × Value)) : putMembers base [] = base := rfl

@[simp] theorem putMembers_cons (base : List (String × Value)) (m : String × Value)
    (members : List (String × Value)) :
    putMembers base (m :: members) = putMembers (putMember base m.1 m.2) members := rfl

theorem putMembers_append (base members more : List (String × Value)) :
    putMembers base (members ++ more) = putMembers (putMembers base members) more :=
  List.foldl_append

/-! ## One member -/

theorem putMember_of_mem {key : String} (h : key ∈ members.map Prod.fst) (v : Value) :
    putMember members key v = members.map fun m => if m.1 == key then (key, v) else m := by
  obtain ⟨m, hm, rfl⟩ := List.mem_map.1 h
  have hany : members.any (·.1 == m.1) = true := List.any_eq_true.2 ⟨m, hm, beq_self_eq_true m.1⟩
  exact if_pos hany

theorem putMember_of_not_mem {key : String} (h : key ∉ members.map Prod.fst) (v : Value) :
    putMember members key v = members ++ [(key, v)] := by
  have hany : ¬ members.any (·.1 == key) = true := by
    rw [List.any_eq_true]
    rintro ⟨m, hm, heq⟩
    rw [beq_iff_eq] at heq
    exact h (heq ▸ List.mem_map_of_mem hm)
  exact if_neg hany

theorem names_putMember (members : List (String × Value)) (key : String) (v : Value) :
    (putMember members key v).map Prod.fst =
      if key ∈ members.map Prod.fst then members.map Prod.fst
      else members.map Prod.fst ++ [key] := by
  split
  · rename_i hmem
    rw [putMember_of_mem hmem, List.map_map]
    refine List.map_congr_left fun m _ => ?_
    by_cases h : m.1 = key <;> simp [h]
  · rename_i hmem
    rw [putMember_of_not_mem hmem, List.map_append]
    rfl

theorem nodup_putMember (h : (members.map Prod.fst).Nodup) (key : String) (v : Value) :
    ((putMember members key v).map Prod.fst).Nodup := by
  rw [names_putMember]
  split
  · exact h
  · rename_i hmem
    refine List.nodup_append.2 ⟨h, by simp, ?_⟩
    rintro a ha b hb rfl
    rw [List.mem_singleton.1 hb] at ha
    exact hmem ha

/-- A member that is there after one has been put is this one, or has been there before. -/
theorem eq_or_mem_of_mem_putMember {key : String} {v : Value} {m : String × Value}
    (h : m ∈ putMember members key v) : m = (key, v) ∨ m ∈ members := by
  by_cases hmem : key ∈ members.map Prod.fst
  · rw [putMember_of_mem hmem] at h
    obtain ⟨n, hn, rfl⟩ := List.mem_map.1 h
    split
    · exact .inl rfl
    · exact .inr hn
  · rw [putMember_of_not_mem hmem] at h
    rcases List.mem_append.1 h with hm | hm
    · exact .inr hm
    · exact .inl (List.mem_singleton.1 hm)

theorem lookup_eq_none_of_not_mem {key : String} (h : key ∉ members.map Prod.fst) :
    members.lookup key = none := by
  rw [List.lookup_eq_none_iff]
  intro m hm
  rw [bne_iff_ne]
  rintro rfl
  exact h (List.mem_map_of_mem hm)

/-- A member that is put gives its name a value. -/
theorem lookup_putMember_self (members : List (String × Value)) (key : String) (v : Value) :
    (putMember members key v).lookup key = some v := by
  by_cases hmem : key ∈ members.map Prod.fst
  · rw [putMember_of_mem hmem]
    induction members with
    | nil => cases hmem
    | cons m members ih =>
      by_cases hm : m.1 = key
      · simp [hm]
      · have hrest : key ∈ members.map Prod.fst := by
          rcases List.mem_cons.1 hmem with heq | hrest
          · exact absurd heq.symm hm
          · exact hrest
        rw [List.map_cons, if_neg (by simpa using hm), List.lookup_cons,
          beq_false_of_ne (Ne.symm hm)]
        exact ih hrest
  · rw [putMember_of_not_mem hmem, List.lookup_append, lookup_eq_none_of_not_mem hmem,
      Option.none_or, List.lookup_cons_self]

/-- And it leaves those of other names. -/
theorem lookup_putMember_of_ne (members : List (String × Value)) {key k : String} (hk : k ≠ key)
    (v : Value) : (putMember members key v).lookup k = members.lookup k := by
  by_cases hmem : key ∈ members.map Prod.fst
  · rw [putMember_of_mem hmem]
    clear hmem
    induction members with
    | nil => rfl
    | cons m members ih =>
      obtain ⟨name, w⟩ := m
      by_cases hname : name = key
      · subst hname
        rw [List.map_cons, if_pos (beq_self_eq_true name), List.lookup_cons, List.lookup_cons,
          beq_false_of_ne hk]
        exact ih
      · rw [List.map_cons, if_neg (by simpa using hname), List.lookup_cons, List.lookup_cons, ih]
  · have hone : [(key, v)].lookup k = none := by simp [hk]
    rw [putMember_of_not_mem hmem, List.lookup_append, hone, Option.or_none]

/-! ## Several members -/

theorem lastValue?_concat (key : String) (members : List (String × Value)) (m : String × Value) :
    lastValue? key (members ++ [m]) = if key = m.1 then some m.2 else lastValue? key members := by
  obtain ⟨name, v⟩ := m
  unfold lastValue?
  rw [List.reverse_append]
  by_cases h : key = name
  · simp [h]
  · simp [h, List.lookup_cons, beq_false_of_ne h]

/-- The value of a name after members have been put. -/
theorem lookup_putMembers (base members : List (String × Value)) (key : String) :
    (putMembers base members).lookup key = (lastValue? key members).or (base.lookup key) := by
  induction members using List.reverseRecOn with
  | nil => rfl
  | append_singleton members m ih =>
    rw [putMembers_append, putMembers_cons, putMembers_nil, lastValue?_concat]
    by_cases h : key = m.1
    · rw [if_pos h, h, lookup_putMember_self, Option.some_or]
    · rw [if_neg h, lookup_putMember_of_ne _ h, ih]

theorem nodup_putMembers (h : (base.map Prod.fst).Nodup) (members : List (String × Value)) :
    ((putMembers base members).map Prod.fst).Nodup := by
  induction members generalizing base with
  | nil => exact h
  | cons m members ih => exact ih (nodup_putMember h m.1 m.2)

theorem nodup_ofMembers (members : List (String × Value)) :
    ((ofMembers members).map Prod.fst).Nodup :=
  @nodup_putMembers [] List.nodup_nil members

/-- Names keep their places. -/
theorem names_isPrefix_putMembers (base members : List (String × Value)) :
    base.map Prod.fst <+: (putMembers base members).map Prod.fst := by
  induction members generalizing base with
  | nil => exact List.prefix_rfl
  | cons m members ih =>
    refine List.IsPrefix.trans ?_ (ih (putMember base m.1 m.2))
    rw [names_putMember]
    split
    · exact List.prefix_rfl
    · exact List.prefix_append _ _

theorem mem_or_mem_of_mem_putMembers {m : String × Value} (h : m ∈ putMembers base members) :
    m ∈ members ∨ m ∈ base := by
  induction members generalizing base with
  | nil => exact .inr h
  | cons n members ih =>
    rcases ih h with hm | hm
    · exact .inl (List.mem_cons_of_mem n hm)
    · rcases eq_or_mem_of_mem_putMember hm with rfl | hm
      · exact .inl List.mem_cons_self
      · exact .inr hm

/-- Members of new names are put at the end. -/
theorem putMembers_of_nodup (h : ((base ++ members).map Prod.fst).Nodup) :
    putMembers base members = base ++ members := by
  induction members generalizing base with
  | nil => rw [putMembers_nil, List.append_nil]
  | cons m members ih =>
    have hnew : m.1 ∉ base.map Prod.fst := by
      intro hmem
      rw [List.map_append, List.map_cons] at h
      exact (List.nodup_append.1 h).2.2 m.1 hmem m.1 List.mem_cons_self rfl
    have happend : base ++ [m] ++ members = base ++ m :: members := by simp
    rw [putMembers_cons, putMember_of_not_mem hnew, ih (by rwa [happend]), happend]

/-- Members of different names are kept as they are. -/
theorem ofMembers_of_nodup (h : (members.map Prod.fst).Nodup) : ofMembers members = members :=
  @putMembers_of_nodup [] members h

/-- A member is put in the place of the one of its name. -/
theorem putMember_of_split {before after : List (String × Value)} {old m : String × Value}
    (hname : old.1 = m.1) (hbefore : m.1 ∉ before.map Prod.fst)
    (hafter : m.1 ∉ after.map Prod.fst) :
    putMember (before ++ old :: after) m.1 m.2 = before ++ m :: after := by
  have hkeep : ∀ ms : List (String × Value), m.1 ∉ ms.map Prod.fst →
      (ms.map fun n => if n.1 == m.1 then (m.1, m.2) else n) = ms := by
    intro ms hms
    have hid : ∀ n ∈ ms, (if n.1 == m.1 then (m.1, m.2) else n) = n := by
      intro n hn
      refine if_neg fun heq => hms ?_
      rw [← eq_of_beq heq]
      exact List.mem_map_of_mem hn
    rw [List.map_congr_left hid, List.map_id']
  have hmem : m.1 ∈ (before ++ old :: after).map Prod.fst := by
    rw [← hname]
    exact List.mem_map_of_mem (List.mem_append_right before List.mem_cons_self)
  rw [putMember_of_mem hmem, List.map_append, List.map_cons, hkeep before hbefore,
    hkeep after hafter, if_pos (by rw [hname]; exact beq_self_eq_true m.1)]

/-- Members of the same names in the same order replace those before. -/
theorem putMembers_replace {before old members : List (String × Value)}
    (hnames : old.map Prod.fst = members.map Prod.fst)
    (h : ((before ++ members).map Prod.fst).Nodup) :
    putMembers (before ++ old) members = before ++ members := by
  induction members generalizing before old with
  | nil =>
    rw [List.map_eq_nil_iff.1 hnames]
    rfl
  | cons m members ih =>
    cases old with
    | nil => cases hnames
    | cons o old =>
      obtain ⟨hname, hrest⟩ := List.cons.inj hnames
      rw [List.map_append, List.map_cons] at h
      obtain ⟨-, hafter, hdisjoint⟩ := List.nodup_append.1 h
      have hbefore : m.1 ∉ before.map Prod.fst := fun hmem =>
        hdisjoint m.1 hmem m.1 List.mem_cons_self rfl
      have hold : m.1 ∉ old.map Prod.fst := by
        have hrest' : old.map Prod.fst = members.map Prod.fst := hrest
        rw [hrest']
        exact (List.nodup_cons.1 hafter).1
      have happend : ∀ ms : List (String × Value), before ++ m :: ms = before ++ [m] ++ ms := by
        simp
      rw [putMembers_cons, putMember_of_split hname hbefore hold, happend old, happend members]
      refine ih hrest ?_
      rwa [← happend, List.map_append, List.map_cons]

/-- Members that begin with the names of others, put on top of these, are all that is left. -/
theorem putMembers_of_isPrefix (hnames : base.map Prod.fst <+: members.map Prod.fst)
    (h : (members.map Prod.fst).Nodup) : putMembers base members = members := by
  obtain ⟨more, hmore⟩ := hnames
  obtain ⟨first, rest, rfl, hfirst, -⟩ := List.map_eq_append_iff.1 hmore.symm
  have hnodup : (first.map Prod.fst).Nodup := by
    rw [List.map_append] at h
    exact (List.nodup_append.1 h).1
  have hreplace := @putMembers_replace [] base first hfirst.symm hnodup
  rw [List.nil_append, List.nil_append] at hreplace
  rw [putMembers_append, hreplace, putMembers_of_nodup h]

/-- Putting members together keeps the last value of each name. -/
theorem lastValue?_ofMembers (key : String) (members : List (String × Value)) :
    lastValue? key (ofMembers members) = lastValue? key members := by
  have hagain := lookup_putMembers [] (ofMembers members) key
  have hlookup := lookup_putMembers [] members key
  rw [← ofMembers_eq_putMembers, ofMembers_of_nodup (nodup_ofMembers members),
    ofMembers_eq_putMembers, hlookup, List.lookup_nil, Option.or_none, Option.or_none] at hagain
  exact hagain.symm

end Json
end Reckon
