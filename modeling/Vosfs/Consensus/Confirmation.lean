import Vosfs.Consensus.Matching

/-!
# What the nodes confirmed

In its current term a node confirms growing parts of the leader's log.  `Chosen
members h T i` says that a majority confirmed, in term `T`, the entry at position
`i` of the leader of `T`, and that this entry is the leader's own; `Lost h T i
bound` says that a leader of a later term up to `bound` stood without the entries
up to `i`.  `Acks` is the invariant that a node holds what it confirmed for as
long as it stays in the term.
-/

set_option linter.unusedSectionVars false

namespace Vosfs.Consensus

open Function

variable {Node Entry : Type*} [HasTerm Entry] {h : History Node Entry}

namespace History

/-- Position `i` of the log of the leader of `T` holds an entry of term `T`. -/
def Own (h : History Node Entry) (T i : ℕ) : Prop :=
  ∃ e, (h.leaderLog T)[i]? = some e ∧ termOf e = T

/-- The log of the leader of `T` up to and including position `i`. -/
def upTo (h : History Node Entry) (T i : ℕ) : List Entry :=
  (h.leaderLog T).take (i + 1)

/-- Some leader of a term in `(T, bound]` stood without the entries of `T` up to `i`. -/
def Lost (h : History Node Entry) (T i bound : ℕ) : Prop :=
  ∃ T' l, T < T' ∧ T' ≤ bound ∧ h.leader T' = some l ∧
    ¬ h.upTo T i <+: h.candidateLog T' l

/-- A majority confirmed the leader's own entry at position `i`. -/
def Chosen (members : Finset Node) (h : History Node Entry) (T i : ℕ) : Prop :=
  h.Own T i ∧ ∃ voters, Majority members voters ∧ ∀ n ∈ voters, i < h.acked T n

theorem Lost.mono {T i bound bound' : ℕ} (hlost : h.Lost T i bound) (hle : bound ≤ bound') :
    h.Lost T i bound' := by
  obtain ⟨T', l, hlt, hT', hl, hnot⟩ := hlost
  exact ⟨T', l, hlt, hT'.trans hle, hl, hnot⟩

omit [HasTerm Entry] in
theorem length_upTo {T i : ℕ} (hi : i < (h.leaderLog T).length) :
    (h.upTo T i).length = i + 1 := by
  rw [upTo, List.length_take]
  omega

theorem Own.lt_length {T i : ℕ} (hown : h.Own T i) : i < (h.leaderLog T).length := by
  obtain ⟨e, he, _⟩ := hown
  exact (List.getElem?_eq_some_iff.mp he).1

/-- A leader's own entries come after the log it stood with. -/
theorem Own.length_candidateLog_le (hm : Matching h) {T i : ℕ} (hown : h.Own T i) {l : Node}
    (hl : h.leader T = some l) : (h.candidateLog T l).length ≤ i := by
  obtain ⟨e, he, hterm⟩ := hown
  by_contra hlt
  obtain ⟨own, hsplit, _⟩ := hm.leader_split hl
  rw [hsplit, List.getElem?_append_left (not_le.mp hlt)] at he
  exact absurd hterm (hm.candidate_term T l e (List.mem_of_getElem? he)).ne

end History

/-! ## Confirmed entries are held while the term lasts -/

/-- Confirmations count entries of the leader's log that the node holds. -/
structure Acks (h : History Node Entry) : Prop where
  le_length : ∀ T n, h.acked T n ≤ (h.leaderLog T).length
  term_le : ∀ {T n}, 0 < h.acked T n → T ≤ h.term n
  held : ∀ {T n}, h.term n = T → (h.leaderLog T).take (h.acked T n) <+: h.log n
  /-- A leader confirms its whole log. -/
  own : ∀ {T l}, h.leader T = some l → h.acked T l = (h.leaderLog T).length

namespace Acks

theorem empty : Acks (History.empty : History Node Entry) where
  le_length := by simp [History.empty]
  term_le := by simp [History.empty]
  held := by simp [History.empty]
  own := by simp [History.empty]

variable [DecidableEq Node] {members : Finset Node}

theorem acked_eq_zero (ha : Acks h) {T : ℕ} {n : Node} (hT : h.term n < T) : h.acked T n = 0 := by
  by_contra hne
  exact absurd (ha.term_le (Nat.pos_of_ne_zero hne)) (not_le_of_gt hT)

theorem adopt (ha : Acks h) {n : Node} {T : ℕ} (hT : h.term n < T) : Acks (h.adopt n T) where
  le_length := ha.le_length
  term_le := by
    intro T' n' hpos
    have hle := ha.term_le hpos
    show T' ≤ update h.term n T n'
    by_cases hn : n' = n
    · subst hn
      rw [update_self]
      exact hle.trans hT.le
    · rwa [update_of_ne hn]
  held := by
    intro T' n' hterm
    by_cases hn : n' = n
    · subst hn
      simp only [History.adopt, update_self] at hterm ⊢
      rw [ha.acked_eq_zero (hterm ▸ hT), List.take_zero]
      exact List.nil_prefix
    · simp only [History.adopt, update_of_ne hn] at hterm ⊢
      exact ha.held hterm
  own := ha.own

theorem stand (ha : Acks h) {c : Node} {T : ℕ} (hT : h.term c < T) : Acks (h.stand c T) :=
  ⟨ha.le_length, (ha.adopt hT).term_le, (ha.adopt hT).held, ha.own⟩

theorem grant (ha : Acks h) (n c : Node) (T : ℕ) : Acks (h.grant n c T) :=
  ⟨ha.le_length, ha.term_le, ha.held, ha.own⟩

theorem elect (ha : Acks h) (hm : Matching h) {c : Node} {T : ℕ} (electors : Finset Node)
    (hterm : h.term c = T) (hnone : h.leader T = none) : Acks (h.elect c T electors) := by
  have hzero : ∀ n, h.acked T n = 0 := fun n =>
    Nat.le_zero.mp ((ha.le_length T n).trans_eq (by rw [hm.leaderless hnone]; rfl))
  constructor
  case le_length =>
    intro T' n
    by_cases hT : T' = T
    · subst hT
      by_cases hn : n = c
      · subst hn
        simp [History.elect]
      · simp [History.elect, set₂_apply, hn, hzero]
    · simpa [History.elect, set₂_apply, hT] using ha.le_length T' n
  case term_le =>
    intro T' n hpos
    by_cases heq : T' = T ∧ n = c
    · obtain ⟨rfl, rfl⟩ := heq
      exact hterm.ge
    · refine ha.term_le (T := T') (n := n) ?_
      simpa only [History.elect, set₂_of_ne _ _ heq] using hpos
  case held =>
    intro T' n hterm'
    by_cases hT : T' = T
    · subst hT
      by_cases hn : n = c
      · subst hn
        simp [History.elect]
      · simp [History.elect, set₂_apply, hn, hzero]
    · simpa [History.elect, set₂_apply, hT] using ha.held hterm'
  case own =>
    intro T' l hl
    by_cases hT : T' = T
    · subst hT
      obtain rfl : c = l := by simpa [History.elect] using hl
      simp [History.elect]
    · simp only [History.elect, update_of_ne hT] at hl
      simpa [History.elect, set₂_apply, hT] using ha.own hl

theorem append (ha : Acks h) (hm : Matching h) {c : Node} {T : ℕ} (e : Entry)
    (hl : h.leader T = some c) (hterm : h.term c = T) : Acks (h.append c T e) := by
  have hlog : h.log c = h.leaderLog T := hm.leading hl hterm
  constructor
  case le_length =>
    intro T' n
    have hlen := ha.le_length T' n
    by_cases hT : T' = T
    · subst hT
      by_cases hn : n = c
      · subst hn
        simp [History.append, hlog]
      · simp only [History.append, set₂_apply, hn, and_false, if_false, update_self,
          List.length_append]
        omega
    · simpa [History.append, set₂_apply, hT] using hlen
  case term_le =>
    intro T' n hpos
    by_cases heq : T' = T ∧ n = c
    · obtain ⟨rfl, rfl⟩ := heq
      exact hterm.ge
    · refine ha.term_le (T := T') (n := n) ?_
      simpa only [History.append, set₂_of_ne _ _ heq] using hpos
  case held =>
    intro T' n hterm'
    by_cases hT : T' = T
    · subst hT
      by_cases hn : n = c
      · subst hn
        simp only [History.append, hlog, set₂_self, update_self]
        exact List.take_prefix _ _
      · have hle := ha.le_length T' n
        simp only [History.append, set₂_apply, hn, and_false, if_false, update_self,
          update_of_ne hn, List.take_append_of_le_length hle]
        exact ha.held hterm'
    · have hn : n ≠ c := by
        rintro rfl
        exact hT (hterm'.symm.trans hterm)
      simpa [History.append, set₂_apply, hT, hn] using ha.held hterm'
  case own =>
    intro T' l hl'
    by_cases hT : T' = T
    · subst hT
      obtain rfl : c = l := Option.some.inj (hl.symm.trans hl')
      simp [History.append, hlog]
    · simpa [History.append, set₂_apply, hT] using ha.own hl'

theorem accept (ha : Acks h) {n : Node} {T : ℕ} {L : List Entry} {k : ℕ}
    (hterm : h.term n = T) (hmerge : Merge (h.log n) L (h.leaderLog T) k) :
    Acks (h.accept n T L k) := by
  obtain ⟨hk, hcases⟩ := hmerge
  have hheld := ha.held hterm
  constructor
  case le_length =>
    intro T' n'
    by_cases heq : T' = T ∧ n' = n
    · obtain ⟨rfl, rfl⟩ := heq
      simpa [History.accept] using ⟨ha.le_length _ _, hk⟩
    · simpa only [History.accept, set₂_of_ne _ _ heq] using ha.le_length T' n'
  case term_le =>
    intro T' n' hpos
    by_cases heq : T' = T ∧ n' = n
    · obtain ⟨rfl, rfl⟩ := heq
      exact hterm.ge
    · refine ha.term_le (T := T') (n := n') ?_
      simpa only [History.accept, set₂_of_ne _ _ heq] using hpos
  case held =>
    intro T' n' hterm'
    by_cases hn : n' = n
    · subst hn
      obtain rfl : T = T' := hterm.symm.trans hterm'
      simp only [History.accept, set₂_self, update_self]
      rcases hcases with ⟨rfl, hpre⟩ | ⟨rfl, hnot⟩
      · -- the log is kept, and holds both what was confirmed and what is new
        rcases max_choice (h.acked T n') k with hmax | hmax <;> rw [hmax]
        exacts [hheld, hpre]
      · -- the log is replaced, so the new confirmation is the longer one
        have hlt : h.acked T n' ≤ k := by
          by_contra hge
          exact hnot ((List.take_prefix_take_left (not_le.mp hge).le).trans hheld)
        rw [max_eq_right hlt]
    · have heq : ¬ (T' = T ∧ n' = n) := fun hand => hn hand.2
      simp only [History.accept, set₂_of_ne _ _ heq, update_of_ne hn]
      exact ha.held hterm'
  case own =>
    intro T' l hl
    have hown := ha.own hl
    by_cases heq : T' = T ∧ l = n
    · obtain ⟨rfl, rfl⟩ := heq
      simp only [History.accept, set₂_self]
      rw [hown, max_eq_left hk]
    · simpa only [History.accept, set₂_of_ne _ _ heq] using hown

end Acks

end Vosfs.Consensus
