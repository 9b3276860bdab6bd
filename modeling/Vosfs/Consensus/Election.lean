import Vosfs.Consensus.History

/-!
# One leader per term

A node votes at most once in a term, and a leader has the votes of a majority.
Hence a term has at most one leader, whoever else collects votes in it
(`Election.leader_unique`).
-/

set_option linter.unusedSectionVars false

namespace Vosfs.Consensus

open Function

variable {Node Entry : Type*} [DecidableEq Node] {members : Finset Node}
  {h : History Node Entry}

/-- The voting part of a history. -/
structure Election (members : Finset Node) (h : History Node Entry) : Prop where
  /-- Votes are given in the voter's current term. -/
  vote_le : ∀ {T n c}, h.vote T n = some c → T ≤ h.term n
  /-- Candidates leave term `0` behind. -/
  vote_pos : ∀ {T n c}, h.vote T n = some c → 0 < T
  /-- A node that is voted for stood for election, with its own vote. -/
  stood : ∀ {T n c}, h.vote T n = some c → h.vote T c = some c
  /-- A leader was made by a majority ... -/
  majority : ∀ {T l}, h.leader T = some l → Majority members (h.electors T)
  /-- ... all of which voted for it. -/
  elector : ∀ {T l n}, h.leader T = some l → n ∈ h.electors T → h.vote T n = some l

namespace Election

theorem empty : Election members (History.empty : History Node Entry) where
  vote_le := by simp [History.empty]
  vote_pos := by simp [History.empty]
  stood := by simp [History.empty]
  majority := by simp [History.empty]
  elector := by simp [History.empty]

/-- A leader stood for election in its term. -/
theorem leader_vote (hel : Election members h) {T : ℕ} {l : Node} (hl : h.leader T = some l) :
    h.vote T l = some l := by
  have hmaj := hel.majority hl
  obtain ⟨n, hn⟩ := hmaj.inter_nonempty hmaj
  exact hel.stood (hel.elector hl (Finset.mem_inter.mp hn).1)

theorem leader_le (hel : Election members h) {T : ℕ} {l : Node} (hl : h.leader T = some l) :
    T ≤ h.term l :=
  hel.vote_le (hel.leader_vote hl)

theorem leader_pos (hel : Election members h) {T : ℕ} {l : Node} (hl : h.leader T = some l) :
    0 < T :=
  hel.vote_pos (hel.leader_vote hl)

/-- A node has no vote in a term it has not reached. -/
theorem vote_eq_none (hel : Election members h) {T : ℕ} {n : Node} (hT : h.term n < T) :
    h.vote T n = none := by
  cases hv : h.vote T n with
  | none => rfl
  | some c => exact absurd (hel.vote_le hv) (not_le_of_gt hT)

/-- A node leads no term it has not reached. -/
theorem leader_ne (hel : Election members h) {T : ℕ} {n : Node} (hT : h.term n < T) :
    h.leader T ≠ some n :=
  fun hl => absurd (hel.leader_le hl) (not_le_of_gt hT)

/-- **One leader per term.**  Whoever has a majority of the votes of a term that
has a leader is that leader. -/
theorem leader_unique (hel : Election members h) {T : ℕ} {l c : Node} {voters : Finset Node}
    (hl : h.leader T = some l) (hmaj : Majority members voters)
    (hvotes : ∀ n ∈ voters, h.vote T n = some c) : c = l := by
  obtain ⟨n, hn⟩ := (hel.majority hl).inter_nonempty hmaj
  rw [Finset.mem_inter] at hn
  have hfirst := hel.elector hl hn.1
  rw [hvotes n hn.2] at hfirst
  exact Option.some.inj hfirst

/-! ## Preservation -/

theorem adopt (hel : Election members h) {n : Node} {T : ℕ} (hT : h.term n ≤ T) :
    Election members (h.adopt n T) where
  vote_le := by
    intro T' n' c hv
    have hle := hel.vote_le hv
    show T' ≤ update h.term n T n'
    by_cases hn : n' = n
    · subst hn
      rw [update_self]
      exact hle.trans hT
    · rwa [update_of_ne hn]
  vote_pos := hel.vote_pos
  stood := hel.stood
  majority := hel.majority
  elector := hel.elector

theorem stand (hel : Election members h) {c : Node} {T : ℕ} (hT : h.term c < T) :
    Election members (h.stand c T) where
  vote_le := by
    intro T' n' c' hv
    simp only [History.stand, set₂_apply] at hv ⊢
    by_cases hn : n' = c
    · subst hn
      rw [update_self]
      split at hv
      next heq => exact heq.1.le
      next => exact (hel.vote_le hv).trans hT.le
    · rw [if_neg fun heq => hn heq.2] at hv
      rw [update_of_ne hn]
      exact hel.vote_le hv
  vote_pos := by
    intro T' n' c' hv
    simp only [History.stand, set₂_apply] at hv
    split at hv
    next heq => exact heq.1 ▸ (Nat.zero_le _).trans_lt hT
    next => exact hel.vote_pos hv
  stood := by
    intro T' n' c' hv
    simp only [History.stand, set₂_apply] at hv ⊢
    split at hv
    next heq =>
      obtain rfl : c = c' := Option.some.inj hv
      rw [if_pos ⟨heq.1, rfl⟩]
    next =>
      split
      next heq => rw [heq.2]
      next => exact hel.stood hv
  majority := hel.majority
  elector := by
    intro T' l n' hl hn'
    have hv := hel.elector hl hn'
    simp only [History.stand, set₂_apply]
    rw [if_neg]
    · exact hv
    · rintro ⟨rfl, rfl⟩
      exact absurd (hel.vote_le hv) (not_le_of_gt hT)

theorem grant (hel : Election members h) {n c : Node} {T : ℕ} (hterm : h.term n = T)
    (hfree : h.vote T n = none) (hcand : h.vote T c = some c) :
    Election members (h.grant n c T) where
  vote_le := by
    intro T' n' c' hv
    simp only [History.grant, set₂_apply] at hv ⊢
    split at hv
    next heq => rw [heq.1, heq.2, hterm]
    next => exact hel.vote_le hv
  vote_pos := by
    intro T' n' c' hv
    simp only [History.grant, set₂_apply] at hv
    split at hv
    next heq => exact heq.1 ▸ hel.vote_pos hcand
    next => exact hel.vote_pos hv
  stood := by
    intro T' n' c' hv
    simp only [History.grant, set₂_apply] at hv ⊢
    split at hv
    next heq =>
      obtain rfl : c = c' := Option.some.inj hv
      split
      next => rfl
      next => rw [heq.1]; exact hcand
    next =>
      have hc' := hel.stood hv
      rw [if_neg]
      · exact hc'
      · rintro ⟨rfl, rfl⟩
        rw [hfree] at hc'
        cases hc'
  majority := hel.majority
  elector := by
    intro T' l n' hl hn'
    have hv := hel.elector hl hn'
    simp only [History.grant, set₂_apply]
    rw [if_neg]
    · exact hv
    · rintro ⟨rfl, rfl⟩
      rw [hfree] at hv
      cases hv

theorem elect (hel : Election members h) {c : Node} {T : ℕ} {electors : Finset Node}
    (hmaj : Majority members electors) (hvotes : ∀ n ∈ electors, h.vote T n = some c) :
    Election members (h.elect c T electors) where
  vote_le := hel.vote_le
  vote_pos := hel.vote_pos
  stood := hel.stood
  majority := by
    intro T' l hl
    show Majority members (update h.electors T electors T')
    by_cases hT : T' = T
    · subst hT
      rwa [update_self]
    · rw [update_of_ne hT]
      exact hel.majority (by simpa [History.elect, hT] using hl)
  elector := by
    intro T' l n hl hn
    by_cases hT : T' = T
    · subst hT
      simp only [History.elect, update_self, Option.some.injEq] at hl hn
      exact hl ▸ hvotes n hn
    · simp only [History.elect, update_of_ne hT] at hl hn
      exact hel.elector hl hn

theorem append (hel : Election members h) (c : Node) (T : ℕ) (e : Entry) :
    Election members (h.append c T e) :=
  ⟨hel.vote_le, hel.vote_pos, hel.stood, hel.majority, hel.elector⟩

theorem accept (hel : Election members h) (n : Node) (T : ℕ) (L : List Entry) (k : ℕ) :
    Election members (h.accept n T L k) :=
  ⟨hel.vote_le, hel.vote_pos, hel.stood, hel.majority, hel.elector⟩

end Election

end Vosfs.Consensus
