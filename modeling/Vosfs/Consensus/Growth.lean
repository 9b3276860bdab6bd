import Vosfs.Consensus.Completeness

/-!
# Histories only grow

Votes, leaders and the logs candidates stood with never change once they are there,
and leaders' logs, terms and confirmations only grow (`Grows`).  What a step does
not concern stays the same for every other node (`SameAt`).

`Replicated` collects the invariants about logs that need no comparison of
candidates' logs.
-/

set_option linter.unusedSectionVars false

namespace Vosfs.Consensus

open Function

variable {Node Entry : Type*} [HasTerm Entry] {h h' h'' : History Node Entry}

/-- A later history: terms and votes are kept, and logs and acknowledgements only grow. -/
structure Grows (h h' : History Node Entry) : Prop where
  term : ∀ n, h.term n ≤ h'.term n
  vote : ∀ {T n c}, h.vote T n = some c → h'.vote T n = some c
  leader : ∀ {T l}, h.leader T = some l → h'.leader T = some l
  candidateLog : ∀ {T c}, h.vote T c = some c → h'.candidateLog T c = h.candidateLog T c
  leaderLog : ∀ {T l}, h.leader T = some l → h.leaderLog T <+: h'.leaderLog T
  acked : ∀ {T l}, h.leader T = some l → ∀ n, h.acked T n ≤ h'.acked T n

/-- Nothing happened to `n`. -/
structure SameAt (h h' : History Node Entry) (n : Node) : Prop where
  term : h'.term n = h.term n
  vote : ∀ T, h'.vote T n = h.vote T n
  log : h'.log n = h.log n
  leader : ∀ {T}, h'.leader T = some n → h.leader T = some n

theorem SameAt.refl (n : Node) : SameAt h h n :=
  ⟨rfl, fun _ => rfl, rfl, id⟩

namespace Grows

theorem refl : Grows h h :=
  ⟨fun _ => le_rfl, id, id, fun _ => rfl, fun _ => List.prefix_rfl, fun _ _ => le_rfl⟩

theorem trans (hfirst : Grows h h') (hsecond : Grows h' h'') : Grows h h'' where
  term n := (hfirst.term n).trans (hsecond.term n)
  vote hv := hsecond.vote (hfirst.vote hv)
  leader hl := hsecond.leader (hfirst.leader hl)
  candidateLog hv := (hsecond.candidateLog (hfirst.vote hv)).trans (hfirst.candidateLog hv)
  leaderLog hl := (hfirst.leaderLog hl).trans (hsecond.leaderLog (hfirst.leader hl))
  acked hl n := (hfirst.acked hl n).trans (hsecond.acked (hfirst.leader hl) n)

variable [DecidableEq Node] {members : Finset Node} {n c : Node} {T : ℕ}

/-- What a majority confirmed stays confirmed. -/
theorem chosen (hg : Grows h h') (hm : Matching h) {i : ℕ} (hchosen : h.Chosen members T i) :
    h'.Chosen members T i := by
  obtain ⟨e, he, -⟩ := hchosen.1
  have hmem := List.mem_of_getElem? he
  cases hl : h.leader T with
  | none => rw [hm.leaderless hl] at hmem; cases hmem
  | some l => exact hchosen.grow (hg.leaderLog hl) (fun n => (hg.acked hl n))

theorem adopt (hT : h.term n ≤ T) : Grows h (h.adopt n T) where
  term n' := by
    by_cases hn : n' = n
    · subst hn
      simpa [History.adopt] using hT
    · simp [History.adopt, hn]
  vote := id
  leader := id
  candidateLog _ := rfl
  leaderLog _ := List.prefix_rfl
  acked _ _ := le_rfl

theorem stand (hel : Election members h) (hT : h.term c < T) : Grows h (h.stand c T) where
  term := (adopt hT.le).term
  vote := by
    intro T' n' c' hv
    have hne : ¬ (T' = T ∧ n' = c) := by
      rintro ⟨rfl, rfl⟩
      rw [hel.vote_eq_none hT] at hv
      cases hv
    simpa only [History.stand, set₂_of_ne _ _ hne] using hv
  leader := id
  candidateLog := by
    intro T' c' hv
    refine set₂_of_ne _ _ ?_
    rintro ⟨rfl, rfl⟩
    rw [hel.vote_eq_none hT] at hv
    cases hv
  leaderLog _ := List.prefix_rfl
  acked _ _ := le_rfl

theorem grant (hfree : h.vote T n = none) : Grows h (h.grant n c T) where
  term _ := le_rfl
  vote := by
    intro T' n' c' hv
    have hne : ¬ (T' = T ∧ n' = n) := by
      rintro ⟨rfl, rfl⟩
      rw [hfree] at hv
      cases hv
    simpa only [History.grant, set₂_of_ne _ _ hne] using hv
  leader := id
  candidateLog _ := rfl
  leaderLog _ := List.prefix_rfl
  acked _ _ := le_rfl

theorem elect {electors : Finset Node} (hnone : h.leader T = none) :
    Grows h (h.elect c T electors) := by
  have hother : ∀ {T' l}, h.leader T' = some l → T' ≠ T := by
    rintro T' l hl rfl
    rw [hnone] at hl
    cases hl
  refine ⟨fun _ => le_rfl, id, fun {T' l} hl => ?_, fun _ => rfl, fun {T' l} hl => ?_,
    fun {T' l} hl n => ?_⟩
  · simpa [History.elect, hother hl] using hl
  · simp [History.elect, hother hl]
  · simp [History.elect, set₂_apply, hother hl]

theorem append (hm : Matching h) (ha : Acks h) {e : Entry} (hl : h.leader T = some c)
    (hterm : h.term c = T) : Grows h (h.append c T e) := by
  have hlog : h.log c = h.leaderLog T := hm.leading hl hterm
  refine ⟨fun _ => le_rfl, id, id, fun _ => rfl,
    fun {T' _} _ => Matching.leaderLog_prefix_append c T e T', fun {T' _} _ n => ?_⟩
  by_cases heq : T' = T ∧ n = c
  · obtain ⟨rfl, rfl⟩ := heq
    have hlen := ha.le_length T' n
    simp only [History.append, set₂_self, List.length_append, hlog]
    omega
  · simp only [History.append, set₂_of_ne _ _ heq, le_refl]

theorem accept (L : List Entry) (k : ℕ) : Grows h (h.accept n T L k) := by
  refine ⟨fun _ => le_rfl, id, id, fun _ => rfl, fun _ => List.prefix_rfl, fun {T' _} _ n' => ?_⟩
  by_cases heq : T' = T ∧ n' = n
  · obtain ⟨rfl, rfl⟩ := heq
    simp [History.accept]
  · simp only [History.accept, set₂_of_ne _ _ heq, le_refl]

end Grows

namespace SameAt

variable [DecidableEq Node] {n c m : Node} {T : ℕ}

theorem adopt (hne : m ≠ n) (T : ℕ) : SameAt h (h.adopt n T) m :=
  ⟨update_of_ne hne _ _, fun _ => rfl, rfl, id⟩

theorem stand (hne : m ≠ c) (T : ℕ) : SameAt h (h.stand c T) m :=
  ⟨update_of_ne hne _ _, fun _ => set₂_of_ne _ _ fun heq => hne heq.2, rfl, id⟩

theorem grant (hne : m ≠ n) (c : Node) (T : ℕ) : SameAt h (h.grant n c T) m :=
  ⟨rfl, fun _ => set₂_of_ne _ _ fun heq => hne heq.2, rfl, id⟩

theorem elect (hne : m ≠ c) (T : ℕ) (electors : Finset Node) :
    SameAt h (h.elect c T electors) m := by
  refine ⟨rfl, fun _ => rfl, rfl, fun {T'} hl => ?_⟩
  by_cases hT : T' = T
  · subst hT
    exact absurd (by simpa [History.elect] using hl.symm) hne
  · simpa [History.elect, hT] using hl

theorem append (hne : m ≠ c) (T : ℕ) (e : Entry) : SameAt h (h.append c T e) m :=
  ⟨rfl, fun _ => rfl, update_of_ne hne _ _, id⟩

theorem accept (hne : m ≠ n) (T : ℕ) (L : List Entry) (k : ℕ) :
    SameAt h (h.accept n T L k) m :=
  ⟨rfl, fun _ => rfl, update_of_ne hne _ _, id⟩

end SameAt

/-! ## Replicated logs -/

/-- What holds of the logs of a history: they match, and a node keeps the entries it confirmed. -/
structure Replicated (h : History Node Entry) : Prop where
  matching : Matching h
  acks : Acks h
  retained : Retained h

namespace Replicated

variable [DecidableEq Node] {members : Finset Node} {n c l : Node} {T : ℕ}

theorem empty : Replicated (History.empty : History Node Entry) :=
  ⟨Matching.empty, Acks.empty, fun {_ _ _} _ hi => absurd hi (Nat.not_lt_zero _)⟩

theorem adopt (hr : Replicated h) (hel : Election members h) (hT : h.term n < T) :
    Replicated (h.adopt n T) :=
  ⟨hr.matching.adopt hel hT, hr.acks.adopt hT, Retained.adopt hr.retained hT⟩

theorem stand (hr : Replicated h) (hel : Election members h) (hT : h.term c < T) :
    Replicated (h.stand c T) :=
  ⟨hr.matching.stand hel hT, hr.acks.stand hT, Retained.stand hr.retained hel hT⟩

theorem grant (hr : Replicated h) (n c : Node) (T : ℕ) : Replicated (h.grant n c T) :=
  ⟨hr.matching.grant n c T, hr.acks.grant n c T, hr.retained⟩

theorem elect (hr : Replicated h) (electors : Finset Node) (hterm : h.term c = T)
    (hnone : h.leader T = none) (hlog : h.candidateLog T c = h.log c) :
    Replicated (h.elect c T electors) :=
  ⟨hr.matching.elect electors hterm hnone hlog, hr.acks.elect hr.matching electors hterm hnone,
    Retained.elect hr.retained hr.matching electors hnone hlog⟩

theorem append (hr : Replicated h) {e : Entry} (hl : h.leader T = some c) (hterm : h.term c = T)
    (he : termOf e = T) : Replicated (h.append c T e) :=
  ⟨hr.matching.append hl hterm he, hr.acks.append hr.matching e hl hterm,
    Retained.append hr.retained hr.matching hr.acks e hl hterm⟩

theorem accept (hr : Replicated h) {L : List Entry} {k : ℕ} (hl : h.leader T = some l)
    (hne : n ≠ l) (hterm : h.term n = T) (hmerge : Merge (h.log n) L (h.leaderLog T) k) :
    Replicated (h.accept n T L k) :=
  ⟨hr.matching.accept hl hne hterm hmerge, hr.acks.accept hterm hmerge,
    Retained.accept hr.retained hr.matching hr.acks hl hterm hmerge⟩

end Replicated

end Vosfs.Consensus
