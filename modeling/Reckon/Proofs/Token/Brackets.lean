import Mathlib.Data.List.Count
import Reckon.Token.Basic

/-!
# Matching brackets

The brackets of tokens match if each opening one is closed by a later one with
matching brackets between the two. A bracket without such a partner is unclosed
or unopened. That a bracket has no partner is seen by counting: matching tokens
open as many brackets as they close, and no beginning of them closes more than
it opens.

Results:

* `Balanced.height_eq`, `Balanced.height_nonneg`: how matching brackets count.
* `Balanced.not_hasUnclosed`, `Balanced.not_hasUnopened`: where brackets match,
  each has its partner.
* `hasUnclosed_of_balanced_append`: what still has to be closed has an unclosed
  bracket.
* `Balanced.hasUnopened_append_cons`: a closing bracket after matching ones is
  unopened.
* `openGroups_pos_iff`: whether a closing bracket would have a partner is seen by
  counting too, if those without one are passed over.
-/

namespace Reckon
namespace Token

/-- Tokens whose brackets match. -/
inductive Balanced : List Token → Prop
  | nil : Balanced []
  | other {t : Token} {ts : List Token} (hopen : t.kind ≠ .openParen) (hclose : t.kind ≠ .closeParen)
      (hts : Balanced ts) : Balanced (t :: ts)
  | group {a z : Token} {inner ts : List Token} (opens : a.kind = .openParen)
      (closes : z.kind = .closeParen) (hinner : Balanced inner) (hts : Balanced ts) :
      Balanced (a :: (inner ++ z :: ts))

/-- There is an opening bracket that no later one closes. -/
def HasUnclosed (ts : List Token) : Prop :=
  ∃ us a vs, ts = us ++ a :: vs ∧ a.kind = .openParen ∧
    ∀ inner z rest, vs = inner ++ z :: rest → z.kind = .closeParen → ¬Balanced inner

/-- There is a closing bracket that closes no earlier one. -/
def HasUnopened (ts : List Token) : Prop :=
  ∃ us z vs, ts = us ++ z :: vs ∧ z.kind = .closeParen ∧
    ∀ rest a inner, us = rest ++ a :: inner → a.kind = .openParen → ¬Balanced inner

/-- There is an opening bracket that a closing one after the tokens would close. -/
def HasOpen (ts : List Token) : Prop :=
  ∃ us a inner, ts = us ++ a :: inner ∧ a.kind = .openParen ∧ Balanced inner

/-- By how many the opening brackets are more than the closing ones. -/
def height (ts : List Token) : Int :=
  (ts.countP (·.kind == .openParen) : Int) - ts.countP (·.kind == .closeParen)

variable {a z t : Token} {inner ts us vs : List Token}

/-! ## Counting -/

@[simp] theorem height_nil : height [] = 0 := rfl

@[simp] theorem height_append (us vs : List Token) : height (us ++ vs) = height us + height vs := by
  simp only [height, List.countP_append]
  omega

theorem height_cons_open (h : a.kind = .openParen) : height (a :: ts) = height ts + 1 := by
  simp only [height, List.countP_cons, h]
  simp
  omega

theorem height_cons_close (h : z.kind = .closeParen) : height (z :: ts) = height ts - 1 := by
  simp only [height, List.countP_cons, h]
  simp
  omega

theorem height_cons_other (hopen : t.kind ≠ .openParen) (hclose : t.kind ≠ .closeParen) :
    height (t :: ts) = height ts := by
  simp [height, hopen, hclose]

theorem height_group (opens : a.kind = .openParen) (closes : z.kind = .closeParen) :
    height (a :: (inner ++ z :: ts)) = height inner + height ts := by
  rw [height_cons_open opens, height_append, height_cons_close closes]
  omega

/-- Matching tokens open as many brackets as they close. -/
theorem Balanced.height_eq (h : Balanced ts) : height ts = 0 := by
  induction h with
  | nil => rfl
  | other hopen hclose _ ih => rw [height_cons_other hopen hclose, ih]
  | group opens closes _ _ ihinner ihts => rw [height_group opens closes, ihinner, ihts, Int.add_zero]

/-- No beginning of matching tokens closes more brackets than it opens. -/
theorem Balanced.height_nonneg (h : Balanced ts) (hts : ts = us ++ vs) : 0 ≤ height us := by
  induction h generalizing us vs with
  | nil =>
    rw [(List.append_eq_nil_iff.1 hts.symm).1]
    exact Int.le_refl 0
  | other hopen hclose _ ih =>
    rcases List.append_eq_cons_iff.1 hts.symm with ⟨rfl, -⟩ | ⟨us, rfl, htail⟩
    · exact Int.le_refl 0
    · rw [height_cons_other hopen hclose]
      exact ih htail
  | group opens closes hinner _ ihinner ihts =>
    rcases List.append_eq_cons_iff.1 hts.symm with ⟨rfl, -⟩ | ⟨us, rfl, htail⟩
    · exact Int.le_refl 0
    rw [height_cons_open opens]
    rcases List.append_eq_append_iff.1 htail with ⟨ws, rfl, hws⟩ | ⟨ws, hws, -⟩
    · rcases List.append_eq_cons_iff.1 hws.symm with ⟨rfl, -⟩ | ⟨ws, rfl, hrest⟩
      · rw [List.append_nil, hinner.height_eq]
        decide
      · have := ihts hrest
        rw [height_append, hinner.height_eq, height_cons_close closes]
        omega
    · have := ihinner hws
      omega

/-! ## Partners -/

theorem Balanced.append (hus : Balanced us) (hvs : Balanced vs) : Balanced (us ++ vs) := by
  induction hus with
  | nil => exact hvs
  | other hopen hclose hts ih => exact .other hopen hclose ih
  | group opens closes hinner hts _ ih =>
    rw [List.cons_append, List.append_assoc, List.cons_append]
    exact .group opens closes hinner ih

theorem balanced_singleton (hopen : t.kind ≠ .openParen) (hclose : t.kind ≠ .closeParen) :
    Balanced [t] :=
  .other hopen hclose .nil

/-- Matching tokens do not begin with a closing bracket. -/
theorem Balanced.head_ne_close (h : Balanced (t :: ts)) : t.kind ≠ .closeParen := by
  cases h with
  | other _ hclose => exact hclose
  | group opens => simp [opens]

/-- Of two members of one list, the one stands before the other or they are the same. -/
theorem append_cons_cases {α : Type} {us vs ts inner : List α} {a z : α}
    (h : us ++ a :: ts = vs ++ z :: inner) :
    (∃ ws, us = vs ++ z :: ws ∧ inner = ws ++ a :: ts) ∨ (us = vs ∧ a = z ∧ ts = inner) ∨
      ∃ ws, vs = us ++ a :: ws ∧ ts = ws ++ z :: inner := by
  rcases List.append_eq_append_iff.1 h with ⟨ws, rfl, hws⟩ | ⟨ws, rfl, hws⟩
  · cases ws with
    | nil =>
      obtain ⟨rfl, rfl⟩ := List.cons.inj hws
      exact .inr (.inl ⟨by simp, rfl, rfl⟩)
    | cons w ws =>
      obtain ⟨rfl, rfl⟩ := List.cons.inj hws
      exact .inr (.inr ⟨ws, rfl, rfl⟩)
  · cases ws with
    | nil =>
      obtain ⟨rfl, rfl⟩ := List.cons.inj hws
      exact .inr (.inl ⟨by simp, rfl, rfl⟩)
    | cons w ws =>
      obtain ⟨rfl, rfl⟩ := List.cons.inj hws
      exact .inl ⟨ws, rfl, rfl⟩

/-- Each closing bracket has its partner. -/
theorem Balanced.exists_open (h : Balanced ts) (hts : ts = us ++ z :: vs)
    (closes : z.kind = .closeParen) :
    ∃ rest a inner, us = rest ++ a :: inner ∧ a.kind = .openParen ∧ Balanced inner := by
  induction h generalizing us vs with
  | nil => simp at hts
  | @other t _ _ hclose _ ih =>
    rcases List.append_eq_cons_iff.1 hts.symm with ⟨rfl, htail⟩ | ⟨us, rfl, htail⟩
    · rw [(List.cons.inj htail).1] at closes
      exact absurd closes hclose
    · obtain ⟨rest, a, inner, rfl, ha, hinner⟩ := ih htail
      exact ⟨t :: rest, a, inner, rfl, ha, hinner⟩
  | @group a b inner _ opens _ hinner _ ihinner ihts =>
    rcases List.append_eq_cons_iff.1 hts.symm with ⟨rfl, htail⟩ | ⟨us, rfl, htail⟩
    · rw [(List.cons.inj htail).1, opens] at closes
      cases closes
    -- in the group, at its end, or after it
    rcases append_cons_cases htail with ⟨ws, hws, -⟩ | ⟨rfl, -⟩ | ⟨ws, rfl, hws⟩
    · obtain ⟨rest, d, more, rfl, hd, hmore⟩ := ihinner hws
      exact ⟨a :: rest, d, more, rfl, hd, hmore⟩
    · exact ⟨[], a, inner, rfl, opens, hinner⟩
    · obtain ⟨rest, d, more, rfl, hd, hmore⟩ := ihts hws
      exact ⟨a :: (inner ++ b :: rest), d, more, by simp, hd, hmore⟩

/-- Each opening bracket has its partner. -/
theorem Balanced.exists_close (h : Balanced ts) (hts : ts = us ++ a :: vs)
    (opens : a.kind = .openParen) :
    ∃ inner z rest, vs = inner ++ z :: rest ∧ z.kind = .closeParen ∧ Balanced inner := by
  induction h generalizing us vs with
  | nil => simp at hts
  | other hopen _ _ ih =>
    rcases List.append_eq_cons_iff.1 hts.symm with ⟨rfl, htail⟩ | ⟨us, rfl, htail⟩
    · rw [(List.cons.inj htail).1] at opens
      exact absurd opens hopen
    · exact ih htail
  | @group d z inner more _ closes hinner _ ihinner ihts =>
    rcases List.append_eq_cons_iff.1 hts.symm with ⟨rfl, htail⟩ | ⟨us, rfl, htail⟩
    · exact ⟨inner, z, more, (List.cons.inj htail).2, closes, hinner⟩
    rcases append_cons_cases htail with ⟨ws, hws, rfl⟩ | ⟨-, rfl, -⟩ | ⟨ws, -, hws⟩
    · obtain ⟨within, y, rest, rfl, hy, hwithin⟩ := ihinner hws
      exact ⟨within, y, rest ++ z :: more, by simp, hy, hwithin⟩
    · rw [closes] at opens
      cases opens
    · exact ihts hws

theorem Balanced.not_hasUnclosed (h : Balanced ts) : ¬HasUnclosed ts := by
  rintro ⟨us, a, vs, hts, opens, hnone⟩
  obtain ⟨inner, z, rest, hvs, closes, hinner⟩ := h.exists_close hts opens
  exact hnone inner z rest hvs closes hinner

theorem Balanced.not_hasUnopened (h : Balanced ts) : ¬HasUnopened ts := by
  rintro ⟨us, z, vs, hts, closes, hnone⟩
  obtain ⟨rest, a, inner, hus, opens, hinner⟩ := h.exists_open hts closes
  exact hnone rest a inner hus opens hinner

/-- What still has to be closed has an unclosed bracket. -/
theorem hasUnclosed_of_balanced_append (h : Balanced (us ++ z :: vs)) (closes : z.kind = .closeParen) :
    HasUnclosed us := by
  obtain ⟨rest, a, inner, rfl, opens, hinner⟩ := h.exists_open rfl closes
  refine ⟨rest, a, inner, rfl, opens, fun within y more hsplit hy hwithin => ?_⟩
  -- the beginning of the group would close one bracket too many
  have hbegin : inner = (within ++ [y]) ++ more := by simpa using hsplit
  have hnonneg := hinner.height_nonneg hbegin
  rw [height_append, hwithin.height_eq, height_cons_close hy, height_nil] at hnonneg
  omega

/-- A closing bracket after matching ones is unopened. -/
theorem Balanced.hasUnopened_append_cons (h : Balanced us) (closes : z.kind = .closeParen) :
    HasUnopened (us ++ z :: vs) := by
  refine ⟨us, z, vs, rfl, closes, fun rest a inner hsplit opens hinner => ?_⟩
  have hnonneg := h.height_nonneg hsplit
  have hzero := h.height_eq
  rw [hsplit, height_append, height_cons_open opens, hinner.height_eq] at hzero
  omega

/-! ## Open groups -/

/-- How many groups are open after a token. A closing bracket without a partner is passed over. -/
def openAfter (groups : Nat) (t : Token) : Nat :=
  match t.kind with
  | .openParen => groups + 1
  | .closeParen => groups - 1
  | _ => groups

/-- How many groups are open after tokens. -/
def openGroups (ts : List Token) : Nat := ts.foldl openAfter 0

theorem openAfter_open (h : a.kind = .openParen) (groups : Nat) :
    openAfter groups a = groups + 1 := by
  rw [openAfter, h]

theorem openAfter_close (h : z.kind = .closeParen) (groups : Nat) :
    openAfter groups z = groups - 1 := by
  rw [openAfter, h]

theorem openAfter_other (hopen : t.kind ≠ .openParen) (hclose : t.kind ≠ .closeParen)
    (groups : Nat) : openAfter groups t = groups := by
  unfold openAfter
  split
  · exact absurd ‹_› hopen
  · exact absurd ‹_› hclose
  · rfl

theorem openGroups_concat (ts : List Token) (t : Token) :
    openGroups (ts ++ [t]) = openAfter (openGroups ts) t := by
  rw [openGroups, List.foldl_append]
  rfl

/-- Matching tokens leave as many groups open as there were. -/
theorem Balanced.foldl_openAfter (h : Balanced ts) (groups : Nat) :
    ts.foldl openAfter groups = groups := by
  induction h generalizing groups with
  | nil => rfl
  | other hopen hclose _ ih => rw [List.foldl_cons, openAfter_other hopen hclose, ih]
  | group opens closes _ _ ihinner ihts =>
    rw [List.foldl_cons, List.foldl_append, List.foldl_cons, openAfter_open opens, ihinner,
      openAfter_close closes, Nat.add_sub_cancel, ihts]

/-- The group that has been opened last of those that are open. -/
theorem exists_of_openGroups {n : Nat} (h : openGroups ts = n + 1) :
    ∃ us a inner, ts = us ++ a :: inner ∧ a.kind = .openParen ∧ Balanced inner ∧
      openGroups us = n := by
  induction hlength : ts.length using Nat.strongRecOn generalizing ts n with
  | ind length ih =>
    rcases List.eq_nil_or_concat ts with rfl | ⟨ts, t, rfl⟩
    · cases h
    rw [List.concat_eq_append] at h hlength ⊢
    rw [List.length_append, List.length_singleton] at hlength
    rw [openGroups_concat] at h
    by_cases hopen : t.kind = .openParen
    · rw [openAfter_open hopen] at h
      exact ⟨ts, t, [], rfl, hopen, .nil, Nat.succ.inj h⟩
    by_cases hclose : t.kind = .closeParen
    · -- the group that is closed belongs to what is in the one before it
      rw [openAfter_close hclose] at h
      have hts : openGroups ts = n + 2 := by omega
      obtain ⟨us, a, inner, rfl, opens, hinner, hus⟩ := ih ts.length (by omega) hts rfl
      have hshort : us.length < length := by
        simp only [← hlength, List.length_append, List.length_cons]
        omega
      obtain ⟨vs, b, outer, rfl, hb, houter, hvs⟩ := ih us.length hshort hus rfl
      refine ⟨vs, b, outer ++ a :: (inner ++ t :: []), by simp, hb, ?_, hvs⟩
      exact houter.append (.group opens hclose hinner .nil)
    · rw [openAfter_other hopen hclose] at h
      obtain ⟨us, a, inner, rfl, opens, hinner, hus⟩ := ih ts.length (by omega) h rfl
      exact ⟨us, a, inner ++ [t], by simp, opens,
        hinner.append (balanced_singleton hopen hclose), hus⟩

/-- A closing bracket after the tokens would have a partner exactly if there are open groups. -/
theorem openGroups_pos_iff : 0 < openGroups ts ↔ HasOpen ts := by
  constructor
  · intro h
    obtain ⟨n, hn⟩ := Nat.exists_eq_add_one_of_ne_zero (Nat.ne_of_gt h)
    obtain ⟨us, a, inner, hts, opens, hinner, -⟩ := exists_of_openGroups hn
    exact ⟨us, a, inner, hts, opens, hinner⟩
  · rintro ⟨us, a, inner, rfl, opens, hinner⟩
    rw [openGroups, List.foldl_append, List.foldl_cons, openAfter_open opens,
      hinner.foldl_openAfter]
    exact Nat.succ_pos _

end Token
end Reckon
