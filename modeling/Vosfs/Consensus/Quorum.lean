import Mathlib.Data.Finset.Card
import Mathlib.Data.List.Sort
import Mathlib.Order.Lattice
import Mathlib.Tactic.Linarith

/-!
# Majorities

Two facts about counting votes.  Any two majorities of one finite set of members
meet (`Majority.inter_nonempty`), and the entry at position `k` of an ascending
list is the largest value that at least `length - k` entries reach
(`le_getElem_iff`).  The second one is how a sorted list of acknowledgements is
read as a quorum.
-/

namespace Vosfs.Consensus

variable {Node : Type*}

/-- More than half of `members`. -/
def Majority (members voters : Finset Node) : Prop :=
  voters ⊆ members ∧ members.card < 2 * voters.card

section Majority

variable [DecidableEq Node] {members first second : Finset Node}

instance (members voters : Finset Node) : Decidable (Majority members voters) :=
  inferInstanceAs (Decidable (_ ∧ _))

/-- Two majorities of the same members have a member in common. -/
theorem Majority.inter_nonempty (hfirst : Majority members first)
    (hsecond : Majority members second) : (first ∩ second).Nonempty := by
  rw [Finset.nonempty_iff_ne_empty]
  intro hempty
  have hunion : (first ∪ second).card ≤ members.card :=
    Finset.card_le_card (Finset.union_subset hfirst.1 hsecond.1)
  have hcard := Finset.card_union_add_card_inter first second
  rw [hempty, Finset.card_empty] at hcard
  have := hfirst.2
  have := hsecond.2
  omega

omit [DecidableEq Node] in
theorem Majority.mono (hfirst : Majority members first) (hsub : first ⊆ second)
    (hmembers : second ⊆ members) : Majority members second :=
  ⟨hmembers, hfirst.2.trans_le (Nat.mul_le_mul_left 2 (Finset.card_le_card hsub))⟩

end Majority

/-! ## Reading a quorum off a sorted list -/

section Sorted

variable {α : Type*} [LinearOrder α]

theorem length_sub_le_countP {l : List α} (hsorted : l.Pairwise (· ≤ ·)) {k : ℕ}
    (hk : k < l.length) {v : α} (hv : v ≤ l[k]) :
    l.length - k ≤ l.countP fun x => decide (v ≤ x) := by
  have htail : ∀ x ∈ l.drop k, v ≤ x := by
    intro x hx
    obtain ⟨i, hi, rfl⟩ := List.getElem_of_mem hx
    rw [List.getElem_drop]
    rcases Nat.eq_zero_or_pos i with rfl | hpos
    · simpa using hv
    · exact hv.trans (List.pairwise_iff_getElem.mp hsorted k (k + i) hk _ (by omega))
  calc l.length - k
      = (l.drop k).countP fun x => decide (v ≤ x) := by
        rw [List.countP_eq_length.mpr (by simpa using htail), List.length_drop]
    _ ≤ l.countP fun x => decide (v ≤ x) := (List.drop_sublist k l).countP_le

theorem le_getElem_of_countP {l : List α} (hsorted : l.Pairwise (· ≤ ·)) {k : ℕ}
    (hk : k < l.length) {v : α} (hcount : l.length - k ≤ l.countP fun x => decide (v ≤ x)) :
    v ≤ l[k] := by
  by_contra hlt
  rw [not_le] at hlt
  -- the first `k + 1` entries are all below `v`, so too few are left
  have hhead : (l.take (k + 1)).countP (fun x => decide (v ≤ x)) = 0 := by
    rw [List.countP_eq_zero]
    intro x hx
    obtain ⟨i, hi, rfl⟩ := List.getElem_of_mem hx
    rw [List.length_take] at hi
    rw [List.getElem_take, decide_eq_true_eq, not_le]
    rcases (show i ≤ k by omega).lt_or_eq with hik | rfl
    · exact (List.pairwise_iff_getElem.mp hsorted i k (by omega) hk hik).trans_lt hlt
    · exact hlt
  have hsplit : l.countP (fun x => decide (v ≤ x)) =
      (l.take (k + 1)).countP (fun x => decide (v ≤ x)) +
        (l.drop (k + 1)).countP (fun x => decide (v ≤ x)) := by
    rw [← List.countP_append, List.take_append_drop]
  have htail : (l.drop (k + 1)).countP (fun x => decide (v ≤ x)) ≤ l.length - (k + 1) :=
    List.countP_le_length.trans_eq List.length_drop
  omega

/-- In an ascending list the entry at position `k` reaches `v` exactly when at
least `length - k` entries do. -/
theorem le_getElem_iff {l : List α} (hsorted : l.Pairwise (· ≤ ·)) {k : ℕ}
    (hk : k < l.length) {v : α} :
    v ≤ l[k] ↔ l.length - k ≤ l.countP fun x => decide (v ≤ x) :=
  ⟨length_sub_le_countP hsorted hk, le_getElem_of_countP hsorted hk⟩

end Sorted

end Vosfs.Consensus
