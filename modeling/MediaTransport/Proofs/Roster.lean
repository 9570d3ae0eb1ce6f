import Mathlib.Order.Bounds.Basic
import Mathlib.Order.Lattice.Nat

/-!
# Rosters

The listeners of a store and the targets of a sender are kept alike: what is added goes to the end
of a list, unless it stands there, and what is removed leaves the list. Such a list is told by its
history, the additions and removals so far (`lists_foldl_change`): it has what was added and not
removed since, in the order of the additions that put it there.
-/

namespace MediaTransport

namespace Roster

variable {α : Type}

/-- A change to a list of members. -/
inductive Change (α : Type) where
  | add (a : α)
  | remove (a : α)
  deriving DecidableEq, Repr

/-- The members after a change. -/
def change [DecidableEq α] (members : List α) : Change α → List α
  | .add a => if a ∈ members then members else members ++ [a]
  | .remove a => members.filter (· ≠ a)

/-- The additions of `a` that no removal of `a` comes after, by their places in the history. -/
def standing (history : List (Change α)) (a : α) : Set Nat :=
  {k | history[k]? = some (.add a) ∧ ∀ j, k < j → history[j]? ≠ some (.remove a)}

/-- The change at place `k` put `a` where it is: of the additions that stand it is the first. -/
def EntersAt (history : List (Change α)) (a : α) (k : Nat) : Prop :=
  IsLeast (standing history a) k

/-- The list has what the history leaves in it, in the order in which it came in. -/
structure Lists (history : List (Change α)) (members : List α) : Prop where
  mem_iff : ∀ a, a ∈ members ↔ ∃ k, EntersAt history a k
  sorted : members.Pairwise fun a b => ∀ j k, EntersAt history a j → EntersAt history b k → j < k

/-- Nothing stands twice in a list that goes by the places of different changes. -/
theorem Lists.nodup {history : List (Change α)} {members : List α} (h : Lists history members) :
    members.Nodup := by
  refine h.sorted.imp_of_mem ?_
  rintro a b ha - hlt rfl
  obtain ⟨k, hk⟩ := (h.mem_iff a).1 ha
  exact lt_irrefl k (hlt k k hk hk)

/-! ## One more change -/

section Concat

variable {history : List (Change α)} {a : α} {c : Change α}

theorem getElem?_concat (history : List (Change α)) (c : Change α) (k : Nat) :
    (history ++ [c])[k]? = if k = history.length then some c else history[k]? := by
  by_cases hk : k = history.length
  · rw [if_pos hk, hk, List.getElem?_concat_length]
  · rw [if_neg hk]
    rcases Nat.lt_or_gt_of_ne hk with hlt | hgt
    · exact List.getElem?_append_left hlt
    · rw [List.getElem?_eq_none (by simpa using Nat.succ_le_of_lt hgt),
        List.getElem?_eq_none hgt.le]

theorem lt_length_of_mem_standing {k : Nat} (hk : k ∈ standing history a) : k < history.length :=
  (List.getElem?_eq_some_iff.1 hk.1).1

/-- Where an addition stands, a first one does. -/
theorem exists_entersAt_iff : (∃ k, EntersAt history a k) ↔ (standing history a).Nonempty :=
  ⟨fun ⟨k, hk⟩ => ⟨k, hk.1⟩, fun h => ⟨_, Nat.sInf_mem h, fun _ => Nat.sInf_le⟩⟩

/-- A change of something else touches no addition of `a`. -/
theorem standing_concat_of_ne (hadd : c ≠ .add a) (hremove : c ≠ .remove a) :
    standing (history ++ [c]) a = standing history a := by
  ext k
  have hat : ∀ (j : Nat) (d : Change α), c ≠ d →
      ((history ++ [c])[j]? = some d ↔ history[j]? = some d) := by
    intro j d hcd
    rw [getElem?_concat]
    by_cases hj : j = history.length
    · simp [hj, hcd]
    · rw [if_neg hj]
  exact and_congr (hat k _ hadd) (forall₂_congr fun j _ => not_congr (hat j _ hremove))

theorem standing_concat_add :
    standing (history ++ [.add a]) a = insert history.length (standing history a) := by
  ext k
  have hremove : ∀ j : Nat,
      (history ++ [.add a])[j]? = some (.remove a) ↔ history[j]? = some (.remove a) := by
    intro j
    rw [getElem?_concat]
    by_cases hj : j = history.length
    · simp [hj]
    · rw [if_neg hj]
  constructor
  · rintro ⟨hk, hlater⟩
    by_cases hlast : k = history.length
    · exact .inl hlast
    · rw [getElem?_concat, if_neg hlast] at hk
      exact .inr ⟨hk, fun j hj hj' => hlater j hj ((hremove j).2 hj')⟩
  · rintro (rfl | hk)
    · refine ⟨List.getElem?_concat_length, fun j hj hj' => ?_⟩
      rw [hremove, List.getElem?_eq_none hj.le] at hj'
      cases hj'
    · have hlt := lt_length_of_mem_standing hk
      refine ⟨?_, fun j hj hj' => hk.2 j hj ((hremove j).1 hj')⟩
      rw [getElem?_concat, if_neg hlt.ne]
      exact hk.1

theorem standing_concat_remove : standing (history ++ [.remove a]) a = ∅ := by
  refine Set.eq_empty_iff_forall_notMem.2 fun k hk => ?_
  have hlt := lt_length_of_mem_standing hk
  rw [List.length_append, List.length_singleton, Nat.lt_succ_iff] at hlt
  rcases hlt.lt_or_eq with hlt | rfl
  · exact hk.2 history.length hlt List.getElem?_concat_length
  · have hadd := hk.1
    rw [List.getElem?_concat_length] at hadd
    cases hadd

theorem entersAt_concat_of_ne (hadd : c ≠ .add a) (hremove : c ≠ .remove a) (k : Nat) :
    EntersAt (history ++ [c]) a k ↔ EntersAt history a k := by
  unfold EntersAt
  rw [standing_concat_of_ne hadd hremove]

/-- Who is in stays where it came in. -/
theorem entersAt_concat_add_of_nonempty (h : (standing history a).Nonempty) (k : Nat) :
    EntersAt (history ++ [.add a]) a k ↔ EntersAt history a k := by
  have hlast : ∀ j ∈ standing history a, j ≤ history.length :=
    fun j hj => (lt_length_of_mem_standing hj).le
  unfold EntersAt
  rw [standing_concat_add]
  constructor
  · rintro ⟨hk | hk, hleast⟩
    · obtain ⟨j, hj⟩ := h
      have hkj := hleast (Set.mem_insert_of_mem _ hj)
      exact absurd (lt_length_of_mem_standing hj) (by omega)
    · exact ⟨hk, fun j hj => hleast (Set.mem_insert_of_mem _ hj)⟩
  · rintro ⟨hk, hleast⟩
    refine ⟨Set.mem_insert_of_mem _ hk, ?_⟩
    rintro j (rfl | hj)
    · exact hlast k hk
    · exact hleast hj

/-- Who is out comes in at the end. -/
theorem entersAt_concat_add_of_empty (h : standing history a = ∅) (k : Nat) :
    EntersAt (history ++ [.add a]) a k ↔ k = history.length := by
  unfold EntersAt
  rw [standing_concat_add, h, insert_empty_eq]
  exact ⟨fun hk => hk.1, fun hk => hk ▸ isLeast_singleton⟩

theorem not_entersAt_concat_remove (k : Nat) : ¬ EntersAt (history ++ [.remove a]) a k := by
  unfold EntersAt
  rw [standing_concat_remove]
  exact fun hk => hk.1

end Concat

/-! ## All changes -/

theorem lists_nil : Lists ([] : List (Change α)) [] where
  mem_iff a := by
    rw [exists_entersAt_iff]
    exact ⟨fun h => absurd h List.not_mem_nil,
      fun ⟨k, hk⟩ => absurd (lt_length_of_mem_standing hk) k.not_lt_zero⟩
  sorted := .nil

/-- Members that come in at the same places as before stay in order. -/
theorem pairwise_concat {history : List (Change α)} {members : List α} (h : Lists history members)
    {c : Change α}
    (hsame : ∀ a ∈ members, ∀ k, EntersAt (history ++ [c]) a k ↔ EntersAt history a k) :
    members.Pairwise fun a b =>
      ∀ j k, EntersAt (history ++ [c]) a j → EntersAt (history ++ [c]) b k → j < k :=
  h.sorted.imp_of_mem fun ha hb hlt j k hj hk =>
    hlt j k ((hsame _ ha j).1 hj) ((hsame _ hb k).1 hk)

theorem Lists.change [DecidableEq α] {history : List (Change α)} {members : List α}
    (h : Lists history members) (c : Change α) :
    Lists (history ++ [c]) (Roster.change members c) := by
  cases c with
  | add b =>
    have hother : ∀ a, a ≠ b → ∀ k, EntersAt (history ++ [.add b]) a k ↔ EntersAt history a k :=
      fun a hab => entersAt_concat_of_ne (by simpa using hab.symm) (by simp)
    by_cases hb : b ∈ members
    · have hsame : ∀ a k, EntersAt (history ++ [.add b]) a k ↔ EntersAt history a k := by
        intro a k
        by_cases hab : a = b
        · subst hab
          exact entersAt_concat_add_of_nonempty (exists_entersAt_iff.1 ((h.mem_iff a).1 hb)) k
        · exact hother a hab k
      rw [Roster.change, if_pos hb]
      exact ⟨fun a => (h.mem_iff a).trans (exists_congr fun k => (hsame a k).symm),
        pairwise_concat h fun a _ => hsame a⟩
    · have hout : standing history b = ∅ := by
        rw [← Set.not_nonempty_iff_eq_empty, ← exists_entersAt_iff, ← h.mem_iff]
        exact hb
      have hlast := entersAt_concat_add_of_empty hout
      have hmember : ∀ a ∈ members, ∀ k, EntersAt (history ++ [.add b]) a k ↔
          EntersAt history a k :=
        fun a ha => hother a fun hab => hb (hab ▸ ha)
      rw [Roster.change, if_neg hb]
      constructor
      · intro a
        by_cases hab : a = b
        · subst hab
          simpa using ⟨_, (hlast _).2 rfl⟩
        · simpa [hab, hother a hab] using h.mem_iff a
      · refine List.pairwise_append.2 ⟨pairwise_concat h hmember, List.pairwise_singleton _ b, ?_⟩
        intro a ha b' hb' j k hj hk
        obtain rfl := List.mem_singleton.1 hb'
        rw [(hlast k).1 hk]
        exact lt_length_of_mem_standing ((hmember a ha j).1 hj).1
  | remove b =>
    have hother : ∀ a, a ≠ b → ∀ k, EntersAt (history ++ [.remove b]) a k ↔ EntersAt history a k :=
      fun a hab => entersAt_concat_of_ne (by simp) (by simpa using hab.symm)
    have hkept : ∀ a, a ∈ members.filter (· ≠ b) ↔ a ∈ members ∧ a ≠ b := by
      intro a
      rw [List.mem_filter, decide_eq_true_iff]
    rw [Roster.change]
    constructor
    · intro a
      rw [hkept]
      by_cases hab : a = b
      · subst hab
        simp [not_entersAt_concat_remove]
      · simp [hab, hother a hab, h.mem_iff a]
    · refine (h.sorted.filter _).imp_of_mem fun ha hb hlt j k hj hk => ?_
      exact hlt j k ((hother _ ((hkept _).1 ha).2 j).1 hj) ((hother _ ((hkept _).1 hb).2 k).1 hk)

/-- Changes to an empty list leave what their history tells. -/
theorem lists_foldl_change [DecidableEq α] (history : List (Change α)) :
    Lists history (history.foldl Roster.change []) := by
  induction history using List.reverseRecOn with
  | nil => exact lists_nil
  | append_singleton history c ih =>
    rw [List.foldl_concat]
    exact ih.change c

end Roster

end MediaTransport
