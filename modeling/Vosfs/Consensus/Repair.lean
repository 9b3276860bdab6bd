import Mathlib.Data.List.Infix
import Mathlib.Logic.Function.Iterate

/-!
# Repairing a log

A leader asks a follower whether it holds the leader's log up to an index, and begins at the
end.  It steps back by one while the answer is no; once it is yes it sends what follows, in
batches, and asks about the end of the batch next (`Repair.step`).

The first index that is confirmed is the end of what the two logs share (`agreement`), so what
the follower has past it is replaced.  Each step takes one off `Repair.left`, and when nothing
is left the logs are equal (`Repair.Aligned.iterate`).  Only a follower that holds the whole log
of the leader and more cannot be repaired in this way: nothing it has is asked about.
-/

namespace Vosfs.Consensus

variable {α : Type*} [DecidableEq α]

/-- How long two lists are the same. -/
def agreement : List α → List α → ℕ
  | a :: l, b :: l' => if a = b then agreement l l' + 1 else 0
  | _, _ => 0

theorem le_agreement_iff {l l' : List α} {k : ℕ} :
    k ≤ agreement l l' ↔ k ≤ l.length ∧ l.take k <+: l' := by
  induction l generalizing l' k with
  | nil => simp [agreement]
  | cons a l ih =>
    cases k with
    | zero => simp
    | succ k =>
      cases l' with
      | nil => simp [agreement]
      | cons b l' =>
        rw [agreement]
        split
        next heq =>
          rw [Nat.add_le_add_iff_right, ih]
          simp [heq]
        next hne => simp [hne]

theorem agreement_le {l l' : List α} : agreement l l' ≤ l.length :=
  (le_agreement_iff.mp le_rfl).1

theorem isPrefix_take_agreement (l l' : List α) : l.take (agreement l l') <+: l' :=
  (le_agreement_iff.mp le_rfl).2

theorem agreement_take {l : List α} {k : ℕ} (hk : k ≤ l.length) : agreement l (l.take k) = k := by
  refine le_antisymm ?_ (le_agreement_iff.mpr ⟨hk, List.prefix_rfl⟩)
  have hlength := (isPrefix_take_agreement l (l.take k)).length_le
  rw [List.length_take_of_le agreement_le, List.length_take_of_le hk] at hlength
  exact hlength

theorem agreement_take_min {l : List α} (k : ℕ) : agreement l (l.take k) = min k l.length := by
  rw [List.take_eq_take_min, agreement_take (min_le_right _ _)]

/-- How far the leader asks, and what the follower has. -/
@[ext]
structure Repair (α : Type*) where
  asked : ℕ
  log : List α

namespace Repair

variable {batch : ℕ} {leader : List α} {r : Repair α}

/-- One question and its answer. -/
def step (batch : ℕ) (leader : List α) (r : Repair α) : Repair α :=
  if leader.take r.asked <+: r.log then
    if r.asked < leader.length then
      ⟨min (r.asked + batch) leader.length, leader.take (r.asked + batch)⟩
    else
      ⟨r.log.length, r.log⟩
  else
    ⟨r.asked - 1, r.log⟩

/-- The leader asks about no less than what the logs share, and the follower has not just more
than the leader. -/
structure Aligned (leader : List α) (r : Repair α) : Prop where
  shared : agreement leader r.log ≤ r.asked
  asked : r.asked ≤ leader.length
  log : leader <+: r.log → r.log = leader

/-- The steps back, and then the batches. -/
def left (batch : ℕ) (leader : List α) (r : Repair α) : ℕ :=
  r.asked - agreement leader r.log + (leader.length - agreement leader r.log + (batch - 1)) / batch

/-- The repaired state. -/
def done (leader : List α) : Repair α :=
  ⟨leader.length, leader⟩

theorem step_done : step batch leader (done leader) = done leader := by
  simp [step, done]

/-- What is confirmed is just what the logs share. -/
theorem Aligned.asked_eq (h : Aligned leader r) (hconfirmed : leader.take r.asked <+: r.log) :
    r.asked = agreement leader r.log :=
  le_antisymm (le_agreement_iff.mpr ⟨h.asked, hconfirmed⟩) h.shared

/-- The three kinds of steps: back, on by a batch, and none any more. -/
theorem Aligned.step_cases (h : Aligned leader r) (batch : ℕ) :
    (agreement leader r.log < r.asked ∧ step batch leader r = ⟨r.asked - 1, r.log⟩) ∨
      (r.asked = agreement leader r.log ∧ r.asked < leader.length ∧ step batch leader r =
        ⟨min (r.asked + batch) leader.length, leader.take (r.asked + batch)⟩) ∨
      r = done leader := by
  by_cases hconfirmed : leader.take r.asked <+: r.log
  · have heq := h.asked_eq hconfirmed
    rcases h.asked.lt_or_eq with hlt | hend
    · exact Or.inr (Or.inl ⟨heq, hlt, by rw [step, if_pos hconfirmed, if_pos hlt]⟩)
    · rw [hend, List.take_length] at hconfirmed
      exact Or.inr (Or.inr (Repair.ext hend (h.log hconfirmed)))
  · refine Or.inl ⟨lt_of_le_of_ne h.shared fun heq => hconfirmed ?_, if_neg hconfirmed⟩
    rw [← heq]
    exact isPrefix_take_agreement _ _

theorem aligned_done : Aligned leader (done leader) :=
  ⟨agreement_le, le_rfl, fun _ => rfl⟩

/-- The log after a batch is a part of the leader's. -/
theorem aligned_take {k : ℕ} : Aligned leader ⟨min k leader.length, leader.take k⟩ := by
  refine ⟨(agreement_take_min k).le, min_le_right _ _, fun hpre => ?_⟩
  · exact (List.take_prefix k leader).eq_of_length_le hpre.length_le

/-- **The step lemma.** -/
theorem Aligned.step (h : Aligned leader r) : Aligned leader (step batch leader r) := by
  rcases h.step_cases batch with ⟨hlt, heq⟩ | ⟨-, -, heq⟩ | rfl
  · rw [heq]
    exact ⟨Nat.le_sub_one_of_lt hlt, (Nat.sub_le _ _).trans h.asked, h.log⟩
  · rw [heq]
    exact aligned_take
  · rw [step_done]
    exact aligned_done

/-- **The measure.** -/
theorem Aligned.left_step (h : Aligned leader r) (hbatch : 0 < batch) :
    left batch leader (Repair.step batch leader r) = left batch leader r - 1 := by
  rcases h.step_cases batch with ⟨hlt, heq⟩ | ⟨hshared, hlt, heq⟩ | rfl
  · rw [heq]
    simp only [left]
    rw [Nat.sub_right_comm, ← Nat.sub_add_comm (by omega)]
  · rw [heq]
    simp only [left, agreement_take_min, ← hshared, Nat.sub_self, Nat.zero_add]
    rcases Nat.le_total (r.asked + batch) leader.length with hmore | hlast
    · rw [min_eq_left hmore]
      have hbatches : leader.length - r.asked + (batch - 1) =
          leader.length - (r.asked + batch) + (batch - 1) + batch := by omega
      rw [hbatches, Nat.add_div_right _ hbatch, Nat.add_sub_cancel]
    · rw [min_eq_right hlast, Nat.sub_self, Nat.zero_add, Nat.div_eq_of_lt (by omega)]
      have hone : (leader.length - r.asked + (batch - 1)) / batch < 2 := by
        rw [Nat.div_lt_iff_lt_mul hbatch]
        omega
      omega
  · rw [step_done]
    have hagree : agreement leader leader = leader.length := by
      simpa using agreement_take (le_refl leader.length)
    simp [left, done, hagree, Nat.div_eq_of_lt (Nat.sub_one_lt_of_lt hbatch)]

theorem Aligned.eq_done (h : Aligned leader r) (hbatch : 0 < batch)
    (hleft : left batch leader r = 0) : r = done leader := by
  unfold left at hleft
  obtain ⟨hback, hbatches⟩ := Nat.add_eq_zero_iff.mp hleft
  have hshared := (agreement_le : agreement leader r.log ≤ leader.length)
  have hall : agreement leader r.log = leader.length := by
    rw [Nat.div_eq_zero_iff] at hbatches
    omega
  have hasked : r.asked = leader.length := le_antisymm h.asked (hall ▸ h.shared)
  refine Repair.ext hasked (h.log ?_)
  have hpre := isPrefix_take_agreement leader r.log
  rwa [hall, List.take_length] at hpre

/-- **The run lemma.** -/
theorem Aligned.iterate (h : Aligned leader r) (hbatch : 0 < batch) {steps : ℕ}
    (hsteps : left batch leader r ≤ steps) :
    (Repair.step batch leader)^[steps] r = done leader := by
  induction steps generalizing r with
  | zero => exact h.eq_done hbatch (Nat.le_zero.mp hsteps)
  | succ steps ih =>
    rw [Function.iterate_succ_apply]
    refine ih h.step ?_
    rw [h.left_step hbatch]
    omega

theorem Aligned.iterate_aligned (h : Aligned leader r) (steps : ℕ) :
    Aligned leader ((Repair.step batch leader)^[steps] r) := by
  induction steps with
  | zero => exact h
  | succ steps ih =>
    rw [Function.iterate_succ_apply']
    exact ih.step

/-- A leader that begins at its end needs a step back for each entry at most, and the
batches. -/
theorem left_le (hasked : r.asked ≤ leader.length) :
    left batch leader r ≤ leader.length + (leader.length + (batch - 1)) / batch := by
  unfold left
  have hbatches : (leader.length - agreement leader r.log + (batch - 1)) / batch ≤
      (leader.length + (batch - 1)) / batch := Nat.div_le_div_right (by omega)
  omega

end Repair

end Vosfs.Consensus
